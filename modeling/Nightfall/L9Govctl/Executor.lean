import Nightfall.Core.Lists
import Nightfall.L9Govctl.Resolve

/-!
# The executor of `govctl` (`dev/lib/govctl-executor.sh`)

`govctlExecute` walks a resolved list of targets. What a preflight check, the
lock, a command and the artifact hash answer is an input (`TargetOutcome`); times,
the run's id and the terminal output are left out.

* `fate`: which of the exits of the loop a target takes.
* `accounted_iff`: when every target has exactly one of `target_passed`,
  `target_failed` and `target_skipped`.
* `heldBack_iff`: when, with `continue_on_error`, no command runs behind a failed
  requirement.
-/
namespace Nightfall.Govctl
open Nightfall.Core

/-- The answer of one preflight check, with the variables
`GOVCTL_ARTIFACT_EVENT_*` it leaves. -/
structure CheckOutcome where
  exitCode : Nat
  reason : String
  artifact : String
  expected : String
  actual : String
  deriving DecidableEq, Repr

structure TargetOutcome where
  /-- the answer of the check at a position of the preflight list -/
  check : Nat → CheckOutcome
  lockAcquired : Bool
  exitCode : Nat
  /-- what `artifact_hash.py` prints, `none` when it fails -/
  artifactHash : Option String

inductive RunEvent where
  | runStarted (targets resolved : List String)
  | preflightPassed (target check : String)
  | preflightFailed (target check reason : String)
  | artifactVerified (target artifact expected actual : String)
  | artifactRejected (target artifact expected actual : String)
  | targetSkipped (target reason : String)
  | targetStarted (target command : String)
  | targetPassed (target : String)
  | targetFailed (target : String) (exitCode : Nat) (reason : Option String)
  | buildFingerprint (target sha256 artifactPath : String)
  | runFinished (totalTargets passed failed skipped : Nat)
  deriving DecidableEq, Repr

/-- The events written so far and the counters of the loop. `targetFailed` is
written and never read. -/
structure Run where
  events : List RunEvent
  passed : Nat
  failed : Nat
  skipped : Nat
  targetFailed : List String

namespace Run

def emit (r : Run) (e : RunEvent) : Run := { r with events := r.events ++ [e] }

def emitAll (r : Run) (es : List RunEvent) : Run := { r with events := r.events ++ es }

end Run

/-! ## One target -/

/-- The lines of a field, without the empty ones. -/
def fieldLines (items : List String) : List String :=
  (items.flatMap fun item => (item.toList.splitOn '\n').map String.ofList).filter (· ≠ "")

/-- `tr '\n' ' ' | sed 's/  */ /g; s/^ //; s/ $//'`. -/
def oneLine (command : String) : String :=
  " ".intercalate (((command.toList.map fun c => if c = '\n' then ' ' else c).splitOn ' ').filter
    (· ≠ []) |>.map String.ofList)

/-- A target the manifest does not have reads as empty fields. -/
def preflightsOf (m : Manifest) (target : String) : List String :=
  match m.targets.lookup target with
  | none => []
  | some t => fieldLines t.preflight

def commandOf (m : Manifest) (target : String) : String :=
  match m.targets.lookup target with
  | none => ""
  | some t => t.command

def lockRequired (m : Manifest) (target : String) : Bool :=
  match m.targets.lookup target with
  | none => false
  | some t => t.lock

/-- The events of one check. -/
def checkEvents (target check : String) (o : CheckOutcome) : List RunEvent :=
  (if o.exitCode = 0 then RunEvent.preflightPassed target check
    else .preflightFailed target check o.reason) ::
  (if "artifact-hash-verified:".toList.isPrefixOf check.toList ∧ o.artifact ≠ "" ∧
      o.expected ≠ "" ∧ o.actual ≠ "" then
    [if o.exitCode = 0 then .artifactVerified target o.artifact o.expected o.actual
      else .artifactRejected target o.artifact o.expected o.actual]
  else [])

/-- All checks run, also behind a failed one. -/
def runPreflights (target : String) (o : TargetOutcome) : Nat → List String → List RunEvent × Bool
  | _, [] => ([], true)
  | i, check :: checks =>
    let (events, ok) := runPreflights target o (i + 1) checks
    (checkEvents target check (o.check i) ++ events, decide ((o.check i).exitCode = 0) && ok)

/-- The artifact a target produces. -/
def artifactPath (target : String) : Option String :=
  if target = "web.build" then some "webui/build/"
  else if target = "backend.build.wheel" then some "dist/*.whl"
  else none

/-- `_govctl_emit_build_fingerprint_if_applicable`: its events, `none` when it
fails.
mirrors dev/lib/govctl-executor.sh:130-148 -/
def emitBuildFingerprintIfApplicable (target : String) (o : TargetOutcome) :
    Option (List RunEvent) :=
  match artifactPath target with
  | none => some []
  | some path => o.artifactHash.map fun sha => [.buildFingerprint target sha path]

/-- The targets behind the current one. -/
def remainingTargets (resolved : List String) (target : String) : List String :=
  (resolved.dropWhile (· ≠ target)).filter (· ≠ target)

/-- The body of the loop; the flag says whether it breaks.
mirrors dev/lib/govctl-executor.sh:233-407 -/
def executeTarget (m : Manifest) (continueOnError : Bool) (resolved : List String)
    (o : TargetOutcome) (target : String) (r : Run) : Run × Bool :=
  let (checks, preflightOk) := runPreflights target o 0 (preflightsOf m target)
  let r := r.emitAll checks
  if !preflightOk then
    let r := r.emit (.targetSkipped target "preflight failed")
    ({ r with skipped := r.skipped + 1, targetFailed := target :: r.targetFailed },
      !continueOnError)
  else if lockRequired m target && !o.lockAcquired then
    let r := r.emit (.targetFailed target 1 (some "lock_timeout"))
    ({ r with failed := r.failed + 1, targetFailed := target :: r.targetFailed },
      !continueOnError)
  else
    let r := r.emit (.targetStarted target (oneLine (commandOf m target)))
    if o.exitCode = 0 then
      let r := r.emit (.targetPassed target)
      match emitBuildFingerprintIfApplicable target o with
      | none =>
        let r := r.emit (.targetFailed target 1 (some "fingerprint_emit_failed"))
        ({ r with failed := r.failed + 1, targetFailed := target :: r.targetFailed },
          !continueOnError)
      | some events =>
        let r := r.emitAll events
        ({ r with passed := r.passed + 1 }, false)
    else
      let r := r.emit (.targetFailed target o.exitCode
        (if o.exitCode = 124 then some "timeout" else none))
      let r := { r with failed := r.failed + 1, targetFailed := target :: r.targetFailed }
      if continueOnError then (r, false)
      else
        let remaining := remainingTargets resolved target
        let r := r.emitAll (remaining.map fun t =>
          .targetSkipped t ("dependency " ++ target ++ " failed"))
        ({ r with skipped := r.skipped + remaining.length }, true)

def executeLoop (m : Manifest) (continueOnError : Bool) (resolved : List String)
    (outcome : String → TargetOutcome) : List String → Run → Run
  | [], r => r
  | target :: targets, r =>
    match executeTarget m continueOnError resolved (outcome target) target r with
    | (r, true) => r
    | (r, false) => executeLoop m continueOnError resolved outcome targets r

structure ExecuteResult where
  events : List RunEvent
  exitCode : Nat

/-- The run for the lines of a resolved file.
mirrors dev/lib/govctl-executor.sh:152-440 -/
def govctlExecute (m : Manifest) (lines requested : List String) (continueOnError dryRun : Bool)
    (outcome : String → TargetOutcome) : ExecuteResult :=
  let resolved := lines.filter (· ≠ "")
  if resolved.isEmpty then ⟨[], 1⟩
  else if dryRun then ⟨[], 0⟩
  else
    let r := executeLoop m continueOnError resolved outcome resolved
      ⟨[.runStarted requested resolved], 0, 0, 0, []⟩
    ⟨r.events ++ [.runFinished resolved.length r.passed r.failed r.skipped],
      if r.failed > 0 ∨ r.skipped > 0 then 1 else 0⟩

/-! ## The exits of the loop -/

inductive Fate where
  | preflight
  | lock
  | command
  | fingerprint
  | passed
  deriving DecidableEq, Repr

/-- How the loop leaves a target. -/
def fate (m : Manifest) (o : TargetOutcome) (target : String) : Fate :=
  if (runPreflights target o 0 (preflightsOf m target)).2 = false then .preflight
  else if lockRequired m target ∧ o.lockAcquired = false then .lock
  else if o.exitCode ≠ 0 then .command
  else if emitBuildFingerprintIfApplicable target o = none then .fingerprint
  else .passed

/-- The events of a target behind its checks. -/
def endEvents (m : Manifest) (o : TargetOutcome) (target : String) : List RunEvent :=
  let started := RunEvent.targetStarted target (oneLine (commandOf m target))
  match fate m o target with
  | .preflight => [.targetSkipped target "preflight failed"]
  | .lock => [.targetFailed target 1 (some "lock_timeout")]
  | .command =>
    [started, .targetFailed target o.exitCode (if o.exitCode = 124 then some "timeout" else none)]
  | .fingerprint =>
    [started, .targetPassed target, .targetFailed target 1 (some "fingerprint_emit_failed")]
  | .passed =>
    started :: .targetPassed target :: (emitBuildFingerprintIfApplicable target o).getD []

/-- The events of a target that does not end the loop. -/
def targetEvents (m : Manifest) (o : TargetOutcome) (target : String) : List RunEvent :=
  (runPreflights target o 0 (preflightsOf m target)).1 ++ endEvents m o target

/-- The targets skipped behind a failed command. -/
def skipEvents (m : Manifest) (continueOnError : Bool) (resolved : List String)
    (o : TargetOutcome) (target : String) : List RunEvent :=
  if continueOnError = false ∧ fate m o target = .command then
    (remainingTargets resolved target).map fun t =>
      .targetSkipped t ("dependency " ++ target ++ " failed")
  else []

def Run.total (r : Run) : Nat := r.passed + r.failed + r.skipped

/-- What one turn of the loop writes and counts, and whether it breaks. -/
structure Turn (m : Manifest) (continueOnError : Bool) (resolved : List String)
    (o : TargetOutcome) (target : String) (r r' : Run) (stop : Bool) : Prop where
  events : r'.events = r.events ++ targetEvents m o target ++
    skipEvents m continueOnError resolved o target
  total : r'.total = r.total + 1 + (skipEvents m continueOnError resolved o target).length
  stop : stop = (!continueOnError && decide (fate m o target ≠ .passed))

theorem executeTarget_turn (m : Manifest) (continueOnError : Bool) (resolved : List String)
    (o : TargetOutcome) (target : String) (r : Run) :
    Turn m continueOnError resolved o target r
      (executeTarget m continueOnError resolved o target r).1
      (executeTarget m continueOnError resolved o target r).2 := by
  unfold executeTarget
  cases hpre : runPreflights target o 0 (preflightsOf m target) with
  | mk checks ok =>
    cases ok with
    | false =>
      have hfate : fate m o target = .preflight := by simp [fate, hpre]
      constructor <;>
        simp [targetEvents, endEvents, skipEvents, hfate, hpre, Run.emit, Run.emitAll, Run.total]
      omega
    | true =>
      by_cases hlock : lockRequired m target ∧ o.lockAcquired = false
      · have hfate : fate m o target = .lock := by simp [fate, hpre, hlock]
        constructor <;>
          simp [targetEvents, endEvents, skipEvents, hfate, hpre, hlock,
            Run.emit, Run.emitAll, Run.total]
        omega
      · have hlock' : (lockRequired m target && !o.lockAcquired) = false := by
          simpa using hlock
        by_cases hexit : o.exitCode = 0
        · cases hprint : emitBuildFingerprintIfApplicable target o with
          | none =>
            have hfate : fate m o target = .fingerprint := by
              simp [fate, hpre, hlock, hexit, hprint]
            constructor <;>
              simp [targetEvents, endEvents, skipEvents, hfate, hpre, hlock', hexit,
                Run.emit, Run.emitAll,
                Run.total]
            omega
          | some events =>
            have hfate : fate m o target = .passed := by
              simp [fate, hpre, hlock, hexit, hprint]
            constructor <;>
              simp [targetEvents, endEvents, skipEvents, hfate, hpre, hlock', hexit, hprint, Run.emit,
                Run.emitAll, Run.total]
            omega
        · have hfate : fate m o target = .command := by simp [fate, hpre, hlock, hexit]
          cases continueOnError with
          | true =>
            constructor <;>
              simp [targetEvents, endEvents, skipEvents, hfate, hpre, hlock', hexit,
                Run.emit, Run.emitAll,
                Run.total]
            omega
          | false =>
            constructor <;>
              simp [targetEvents, endEvents, skipEvents, hfate, hpre, hlock', hexit,
                Run.emit, Run.emitAll,
                Run.total]
            omega

/-! ## Counting -/

/-- `target_passed`, `target_failed` or `target_skipped` of the target. -/
def RunEvent.settles (target : String) : RunEvent → Bool
  | .targetPassed t => t == target
  | .targetFailed t _ _ => t == target
  | .targetSkipped t _ => t == target
  | _ => false

/-- How often the target is settled. -/
def settled (target : String) (events : List RunEvent) : Nat := events.countP (·.settles target)

@[simp] theorem settled_append (target : String) (es es' : List RunEvent) :
    settled target (es ++ es') = settled target es + settled target es' := List.countP_append

/-- The event is the answer of a preflight check. -/
def RunEvent.isCheck : RunEvent → Bool
  | .preflightPassed .. => true
  | .preflightFailed .. => true
  | .artifactVerified .. => true
  | .artifactRejected .. => true
  | _ => false

theorem isCheck_checkEvents (target check : String) (o : CheckOutcome) :
    ∀ e ∈ checkEvents target check o, e.isCheck = true := by
  unfold checkEvents
  split <;> split <;> simp [RunEvent.isCheck]

theorem isCheck_runPreflights (target : String) (o : TargetOutcome) (i : Nat)
    (checks : List String) : ∀ e ∈ (runPreflights target o i checks).1, e.isCheck = true := by
  induction checks generalizing i with
  | nil => simp [runPreflights]
  | cons check checks ih =>
    intro e he
    rcases List.mem_append.mp he with he | he
    · exact isCheck_checkEvents target check _ e he
    · exact ih (i + 1) e he

@[simp] theorem settled_runPreflights (t target : String) (o : TargetOutcome) (i : Nat)
    (checks : List String) : settled t (runPreflights target o i checks).1 = 0 := by
  refine List.countP_eq_zero.mpr fun e he => ?_
  have hcheck := isCheck_runPreflights target o i checks e he
  cases e <;> simp_all [RunEvent.isCheck, RunEvent.settles]

theorem settled_fingerprint (t target : String) (o : TargetOutcome) :
    settled t ((emitBuildFingerprintIfApplicable target o).getD []) = 0 := by
  unfold emitBuildFingerprintIfApplicable
  cases artifactPath target with
  | none => rfl
  | some path => cases o.artifactHash <;> rfl

/-- A failed fingerprint settles its target twice, every other exit once. -/
theorem settled_targetEvents (m : Manifest) (o : TargetOutcome) (t target : String) :
    settled t (targetEvents m o target) =
      if t = target then (if fate m o target = .fingerprint then 2 else 1) else 0 := by
  rw [targetEvents, endEvents, settled_append, settled_runPreflights]
  by_cases ht : t = target
  · subst ht
    have hprint := settled_fingerprint t t o
    cases hfate : fate m o t <;> simp_all [settled, RunEvent.settles]
  · have hprint := settled_fingerprint t target o
    have hne : ¬ target = t := fun h => ht h.symm
    cases hfate : fate m o target <;> simp_all [settled, RunEvent.settles]

theorem settled_skips (t reason : String) (targets : List String) :
    settled t (targets.map fun x => .targetSkipped x reason) = targets.count t := by
  simp only [settled, List.countP_map, List.count]
  rfl

/-- The event is not `run_finished`. -/
def RunEvent.isOpen : RunEvent → Bool
  | .runFinished .. => false
  | _ => true

theorem isOpen_targetEvents (m : Manifest) (o : TargetOutcome) (target : String) :
    ∀ e ∈ targetEvents m o target, e.isOpen = true := by
  intro e he
  rcases List.mem_append.mp he with he | he
  · have hcheck := isCheck_runPreflights target o 0 _ e he
    cases e <;> simp_all [RunEvent.isCheck, RunEvent.isOpen]
  · have hprint : ∀ e ∈ (emitBuildFingerprintIfApplicable target o).getD [], e.isOpen = true := by
      unfold emitBuildFingerprintIfApplicable
      cases artifactPath target with
      | none => simp
      | some path => cases o.artifactHash <;> simp [RunEvent.isOpen]
    unfold endEvents at he
    cases hfate : fate m o target <;> simp only [hfate, List.mem_cons, List.not_mem_nil] at he
    all_goals grind [RunEvent.isOpen]

theorem isOpen_skipEvents (m : Manifest) (continueOnError : Bool) (resolved : List String)
    (o : TargetOutcome) (target : String) :
    ∀ e ∈ skipEvents m continueOnError resolved o target, e.isOpen = true := by
  intro e he
  unfold skipEvents at he
  split at he
  · obtain ⟨t, -, rfl⟩ := List.mem_map.mp he
    rfl
  · cases he

/-- Behind its target, a resolved list goes on. -/
theorem remainingTargets_eq {done targets : List String} {target : String}
    (hnd : (done ++ target :: targets).Nodup) :
    remainingTargets (done ++ target :: targets) target = targets := by
  obtain ⟨-, htail, hdisjoint⟩ := List.nodup_append.mp hnd
  have hdone : ∀ x ∈ done, decide (x ≠ target) = true := by
    intro x hx
    simpa using fun h => hdisjoint x hx target List.mem_cons_self h
  rw [remainingTargets, List.dropWhile_append_of_pos hdone]
  simp only [ne_eq, List.dropWhile_cons, not_true_eq_false, decide_false, Bool.false_eq_true,
    if_false, List.filter_cons]
  rw [List.filter_eq_self]
  intro x hx
  have hne : x ≠ target := fun h => (List.nodup_cons.mp htail).1 (h ▸ hx)
  simpa using hne

/-! ## Accounting for every target -/

section Accounting
variable (m : Manifest) (continueOnError : Bool) (outcome : String → TargetOutcome)

/-- Every target of the list has one settling event, and the totals add up. -/
def Accounted (events : List RunEvent) (resolved : List String) : Prop :=
  (∀ t ∈ resolved, settled t events = 1) ∧
    ∀ total passed failed skipped, .runFinished total passed failed skipped ∈ events →
      passed + failed + skipped = resolved.length

/-- No target the loop reaches fails its fingerprint, and without
`continue_on_error` one that fails a preflight or the lock is the last. -/
def Accountable (resolved : List String) : Prop :=
  ∀ pre t post, resolved = pre ++ t :: post →
    (continueOnError = false → ∀ x ∈ pre, fate m (outcome x) x = .passed) →
    fate m (outcome t) t ≠ .fingerprint ∧ (continueOnError = false →
      fate m (outcome t) t = .preflight ∨ fate m (outcome t) t = .lock → post = [])

theorem accountable_cons {t : String} {ts : List String} :
    Accountable m continueOnError outcome (t :: ts) ↔
      (fate m (outcome t) t ≠ .fingerprint ∧ (continueOnError = false →
        fate m (outcome t) t = .preflight ∨ fate m (outcome t) t = .lock → ts = [])) ∧
      ((continueOnError = true ∨ fate m (outcome t) t = .passed) →
        Accountable m continueOnError outcome ts) := by
  constructor
  · intro h
    refine ⟨h [] t ts rfl (by simp), fun hgo pre x post hsplit hpre => ?_⟩
    refine h (t :: pre) x post (by rw [hsplit]; rfl) fun hc y hy => ?_
    rcases List.mem_cons.mp hy with rfl | hy
    · exact hgo.resolve_left (by simp [hc])
    · exact hpre hc y hy
  · rintro ⟨hhead, htail⟩ pre x post hsplit hpre
    cases pre with
    | nil =>
      simp only [List.nil_append, List.cons.injEq] at hsplit
      obtain ⟨rfl, rfl⟩ := hsplit
      exact hhead
    | cons y pre =>
      simp only [List.cons_append, List.cons.injEq] at hsplit
      obtain ⟨rfl, rfl⟩ := hsplit
      refine htail ?_ pre x post rfl fun hc z hz => hpre hc z (List.mem_cons_of_mem _ hz)
      cases hc : continueOnError with
      | true => exact .inl rfl
      | false => exact .inr (hpre hc t List.mem_cons_self)

/-- A run under the condition settles each target once and counts it once. -/
theorem executeLoop_accounted {resolved : List String} (hnd : resolved.Nodup) :
    ∀ (ts done : List String) (r : Run), resolved = done ++ ts →
      Accountable m continueOnError outcome ts →
      (∀ x, settled x (executeLoop m continueOnError resolved outcome ts r).events =
        settled x r.events + ts.count x) ∧
      (executeLoop m continueOnError resolved outcome ts r).total = r.total + ts.length
  | [], _, r, _, _ => ⟨by simp [executeLoop], rfl⟩
  | t :: ts, done, r, hsplit, hacc => by
    obtain ⟨⟨hprint, hlast⟩, hrest⟩ := (accountable_cons ..).mp hacc
    have hturn := executeTarget_turn m continueOnError resolved (outcome t) t r
    rw [executeLoop]
    generalize executeTarget m continueOnError resolved (outcome t) t r = x at hturn ⊢
    obtain ⟨r', stop⟩ := x
    have hevents : ∀ x, settled x r'.events = settled x r.events + (if x = t then 1 else 0) +
        settled x (skipEvents m continueOnError resolved (outcome t) t) := by
      intro x
      rw [hturn.events, settled_append, settled_append, settled_targetEvents, if_neg hprint]
    have hcount : ∀ x, (t :: ts).count x = (if x = t then 1 else 0) + ts.count x := by
      intro x
      rw [List.count_cons, Nat.add_comm]
      by_cases hx : x = t
      · simp [hx]
      · simp [hx, Ne.symm hx]
    have hstop := hturn.stop
    have htotal := hturn.total
    cases stop with
    | false =>
      -- the loop goes on, and nothing was skipped
      have hgo : continueOnError = true ∨ fate m (outcome t) t = .passed := by
        cases hc : continueOnError with
        | true => exact .inl rfl
        | false => exact .inr (by simpa [hc] using hstop)
      have hskip : skipEvents m continueOnError resolved (outcome t) t = [] := by
        rcases hgo with hgo | hgo <;> simp [skipEvents, hgo]
      obtain ⟨hsettled, hlen⟩ := executeLoop_accounted hnd ts (done ++ [t]) r'
        (by rw [hsplit]; simp) (hrest hgo)
      refine ⟨fun x => ?_, ?_⟩
      · rw [hsettled, hevents, hskip, hcount]
        simp only [settled, List.countP_nil]
        omega
      · rw [hlen, htotal, hskip, List.length_cons, List.length_nil]
        omega
    | true =>
      have hc : continueOnError = false := by
        cases hc : continueOnError with
        | true => simp [hc] at hstop
        | false => rfl
      have hfate : fate m (outcome t) t ≠ .passed := by simpa [hc] using hstop
      simp only
      by_cases hcommand : fate m (outcome t) t = .command
      · have hskip : skipEvents m continueOnError resolved (outcome t) t = ts.map fun x =>
            .targetSkipped x ("dependency " ++ t ++ " failed") := by
          rw [skipEvents, if_pos ⟨hc, hcommand⟩, hsplit, remainingTargets_eq (hsplit ▸ hnd)]
        refine ⟨fun x => ?_, ?_⟩
        · rw [hevents, hskip, settled_skips, hcount]
          omega
        · rw [htotal, hskip, List.length_map, List.length_cons]
          omega
      · have hempty : ts = [] := by
          refine hlast hc ?_
          cases hf : fate m (outcome t) t <;> simp_all
        have hskip : skipEvents m continueOnError resolved (outcome t) t = [] := by
          simp [skipEvents, hcommand]
        refine ⟨fun x => ?_, ?_⟩
        · rw [hevents, hskip, hcount, hempty]
          simp [settled]
        · rw [htotal, hskip, hempty]
          simp

theorem executeLoop_grows (resolved : List String) : ∀ (ts : List String) (r : Run),
    r.events <+: (executeLoop m continueOnError resolved outcome ts r).events
  | [], r => List.prefix_refl _
  | t :: ts, r => by
    have hturn := executeTarget_turn m continueOnError resolved (outcome t) t r
    rw [executeLoop]
    generalize executeTarget m continueOnError resolved (outcome t) t r = x at hturn ⊢
    obtain ⟨r', stop⟩ := x
    have hgrow : r.events <+: r'.events := by
      rw [hturn.events, List.append_assoc]
      exact List.prefix_append _ _
    cases stop with
    | true => exact hgrow
    | false => exact hgrow.trans (executeLoop_grows resolved ts r')

theorem isOpen_executeLoop (resolved : List String) : ∀ (ts : List String) (r : Run),
    (∀ e ∈ r.events, e.isOpen = true) →
    ∀ e ∈ (executeLoop m continueOnError resolved outcome ts r).events, e.isOpen = true
  | [], _, hr => hr
  | t :: ts, r, hr => by
    have hturn := executeTarget_turn m continueOnError resolved (outcome t) t r
    rw [executeLoop]
    generalize executeTarget m continueOnError resolved (outcome t) t r = x at hturn ⊢
    obtain ⟨r', stop⟩ := x
    have hr' : ∀ e ∈ r'.events, e.isOpen = true := by
      intro e he
      rw [hturn.events, List.mem_append, List.mem_append] at he
      rcases he with (he | he) | he
      · exact hr e he
      · exact isOpen_targetEvents m _ t e he
      · exact isOpen_skipEvents m continueOnError resolved _ t e he
    cases stop with
    | true => exact hr'
    | false => exact isOpen_executeLoop resolved ts r' hr'

/-- A run that breaks the condition leaves a target settled twice or not at
all. -/
theorem executeLoop_not_accounted {resolved : List String} (hnd : resolved.Nodup) :
    ∀ (ts done : List String) (r : Run), resolved = done ++ ts →
      (∀ x ∈ ts, settled x r.events = 0) → ¬ Accountable m continueOnError outcome ts →
      ∃ x ∈ ts, settled x (executeLoop m continueOnError resolved outcome ts r).events ≠ 1
  | [], _, _, _, _, hacc => by
    exact absurd (fun pre t post h => by simp at h) hacc
  | t :: ts, done, r, hsplit, hzero, hacc => by
    have hturn := executeTarget_turn m continueOnError resolved (outcome t) t r
    rw [executeLoop]
    generalize executeTarget m continueOnError resolved (outcome t) t r = x at hturn ⊢
    obtain ⟨r', stop⟩ := x
    have hevents : ∀ x, settled x r'.events = settled x r.events +
        settled x (targetEvents m (outcome t) t) +
        settled x (skipEvents m continueOnError resolved (outcome t) t) := by
      intro x
      rw [hturn.events, settled_append, settled_append]
    have hstop := hturn.stop
    have hother : ∀ x ∈ ts, ¬ x = t := by
      rintro x hx rfl
      have htail := (List.nodup_append.mp (hsplit ▸ hnd)).2.1
      exact (List.nodup_cons.mp htail).1 hx
    by_cases hprint : fate m (outcome t) t = .fingerprint
    · -- passed and failed: two events, whatever comes behind
      have htwo : 2 ≤ settled t r'.events := by
        rw [hevents, settled_targetEvents, if_pos rfl, if_pos hprint]
        omega
      refine ⟨t, List.mem_cons_self, ?_⟩
      cases stop with
      | true => simp only; omega
      | false =>
        have hmono := (executeLoop_grows m continueOnError outcome resolved ts r').sublist.countP_le
          (p := (·.settles t))
        simp only
        rw [settled] at htwo ⊢
        omega
    have hone : ∀ x, settled x (targetEvents m (outcome t) t) = if x = t then 1 else 0 := by
      intro x
      rw [settled_targetEvents, if_neg hprint]
    by_cases hgo : continueOnError = true ∨ fate m (outcome t) t = .passed
    · have hskip : skipEvents m continueOnError resolved (outcome t) t = [] := by
        rcases hgo with hgo | hgo <;> simp [skipEvents, hgo]
      have hfalse : stop = false := by rcases hgo with hgo | hgo <;> simpa [hgo] using hstop
      subst hfalse
      have hzero' : ∀ x ∈ ts, settled x r'.events = 0 := by
        intro x hx
        rw [hevents, hskip, hone, if_neg (hother x hx), hzero x (List.mem_cons_of_mem _ hx)]
        rfl
      have htail : ¬ Accountable m continueOnError outcome ts := by
        intro hts
        refine hacc ((accountable_cons ..).mpr ⟨⟨hprint, fun hc hfate => ?_⟩, fun _ => hts⟩)
        rcases hgo with hgo | hgo
        · rw [hc] at hgo
          cases hgo
        · rw [hgo] at hfate
          simp at hfate
      obtain ⟨x, hx, hne⟩ := executeLoop_not_accounted hnd ts (done ++ [t]) r'
        (by rw [hsplit]; simp) hzero' htail
      exact ⟨x, List.mem_cons_of_mem _ hx, hne⟩
    · have hhead : continueOnError = false ∧ (fate m (outcome t) t = .preflight ∨
          fate m (outcome t) t = .lock) ∧ ts ≠ [] := by
        by_contra hno
        refine hacc ((accountable_cons ..).mpr ⟨⟨hprint, fun hc hfate => ?_⟩,
          fun h => absurd h hgo⟩)
        by_contra hts
        exact hno ⟨hc, hfate, hts⟩
      obtain ⟨hc, hfate, hts⟩ := hhead
      obtain ⟨x, rest, rfl⟩ := List.exists_cons_of_ne_nil hts
      have htrue : stop = true := by
        rcases hfate with hfate | hfate <;> simpa [hc, hfate] using hstop
      have hskip : skipEvents m continueOnError resolved (outcome t) t = [] := by
        rcases hfate with hfate | hfate <;> simp [skipEvents, hfate]
      subst htrue
      refine ⟨x, by simp, ?_⟩
      simp only
      rw [hevents, hskip, hone, if_neg (hother x List.mem_cons_self), hzero x (by simp)]
      simp [settled]

/-- For a list of distinct targets: a run settles each of them exactly once, with
totals that add up, if and only if no target it reaches fails its fingerprint
and, without `continue_on_error`, a target that fails a preflight or the lock is
the last one. -/
theorem accounted_iff (lines requested : List String) (hnd : (lines.filter (· ≠ "")).Nodup) :
    Accounted (govctlExecute m lines requested continueOnError false outcome).events
        (lines.filter (· ≠ "")) ↔
      Accountable m continueOnError outcome (lines.filter (· ≠ "")) := by
  unfold govctlExecute
  generalize lines.filter (· ≠ "") = resolved at hnd ⊢
  cases resolved with
  | nil =>
    refine iff_of_true ⟨by simp, by simp⟩ fun pre t post h => ?_
    simp at h
  | cons t ts =>
    simp only [List.isEmpty_cons, Bool.false_eq_true, if_false]
    have hstart : ∀ x, settled x [.runStarted requested (t :: ts)] = 0 := fun x => rfl
    constructor
    · rintro ⟨hone, -⟩
      by_contra hacc
      obtain ⟨x, hx, hne⟩ := executeLoop_not_accounted m continueOnError outcome hnd (t :: ts) []
        ⟨[.runStarted requested (t :: ts)], 0, 0, 0, []⟩ rfl (fun x _ => hstart x) hacc
      have hx1 := hone x hx
      rw [settled_append] at hx1
      exact hne hx1
    · intro hacc
      obtain ⟨hsettled, htotal⟩ := executeLoop_accounted m continueOnError outcome hnd (t :: ts) []
        ⟨[.runStarted requested (t :: ts)], 0, 0, 0, []⟩ rfl hacc
      refine ⟨fun x hx => ?_, fun total passed failed skipped hmem => ?_⟩
      · rw [settled_append, hsettled, hstart, List.count_eq_one_of_mem hnd hx]
        rfl
      · rcases List.mem_append.mp hmem with hmem | hmem
        · have hopen := isOpen_executeLoop m continueOnError outcome (t :: ts) (t :: ts)
            ⟨[.runStarted requested (t :: ts)], 0, 0, 0, []⟩ (by simp [RunEvent.isOpen]) _ hmem
          cases hopen
        · simp only [List.mem_singleton, RunEvent.runFinished.injEq] at hmem
          obtain ⟨-, rfl, rfl, rfl⟩ := hmem
          simpa [Run.total] using htotal

end Accounting

/-- Every check, lock and command of a run succeeds; only the artifact hash may
not. -/
def sampleOutcome (artifactHash : Option String) : TargetOutcome :=
  ⟨fun _ => ⟨0, "", "", "", ""⟩, true, 0, artifactHash⟩

/-- Two targets that pass are accounted for. -/
theorem accounted_passed :
    (["web.build", "web.test"].filter (· ≠ "")).Nodup ∧
      Accounted (govctlExecute sampleManifest ["web.build", "web.test"] ["all"] false false
        fun _ => sampleOutcome (some "0a1b")).events (["web.build", "web.test"].filter (· ≠ "")) := by
  have hnd : (["web.build", "web.test"].filter (· ≠ "")).Nodup := by decide
  refine ⟨hnd, (accounted_iff _ _ _ _ _ hnd).mpr fun pre t post hsplit _ => ?_⟩
  have hpassed : ∀ t ∈ ["web.build", "web.test"].filter (· ≠ ""),
      fate sampleManifest (sampleOutcome (some "0a1b")) t = .passed := by decide +kernel
  rw [hpassed t (by rw [hsplit]; simp)]
  simp

/-- The build passes and then fails its fingerprint; the test is not mentioned. -/
theorem not_accounted_fingerprint :
    ¬ Accounted (govctlExecute sampleManifest ["web.build", "web.test"] ["all"] false false
      fun _ => sampleOutcome none).events (["web.build", "web.test"].filter (· ≠ "")) := by
  rintro ⟨hone, -⟩
  have htest := hone "web.test" (by decide)
  revert htest
  decide +kernel

/-! ## Failed requirements -/

/-- The target failed or was skipped. -/
def RunEvent.loses (target : String) : RunEvent → Bool
  | .targetFailed t _ _ => t == target
  | .targetSkipped t _ => t == target
  | _ => false

/-- No command starts behind the failure of a transitive requirement. -/
def HeldBack (m : Manifest) (events : List RunEvent) : Prop :=
  ∀ pre t command post, events = pre ++ .targetStarted t command :: post →
    ∀ r, Relation.TransGen m.Requires t r → ∀ e ∈ pre, e.loses r = false

section Dependents
variable (m : Manifest) (outcome : String → TargetOutcome)

/-- With `continue_on_error` every target is reached. -/
theorem executeLoop_continue (resolved : List String) : ∀ (ts : List String) (r : Run),
    (executeLoop m true resolved outcome ts r).events =
      r.events ++ ts.flatMap fun t => targetEvents m (outcome t) t
  | [], r => by simp [executeLoop]
  | t :: ts, r => by
    have hturn := executeTarget_turn m true resolved (outcome t) t r
    rw [executeLoop]
    generalize executeTarget m true resolved (outcome t) t r = x at hturn ⊢
    obtain ⟨r', stop⟩ := x
    have hfalse : stop = false := by simpa using hturn.stop
    have hevents : r'.events = r.events ++ targetEvents m (outcome t) t := by
      simpa [skipEvents] using hturn.events
    subst hfalse
    simp only [List.flatMap_cons]
    rw [executeLoop_continue resolved ts r', hevents, List.append_assoc]

/-- The target gets as far as its command. -/
def Starts (target : String) : Prop :=
  fate m (outcome target) target ≠ .preflight ∧ fate m (outcome target) target ≠ .lock

theorem endEvents_of_starts {t : String} (h : Starts m outcome t) :
    ∃ q, endEvents m (outcome t) t = .targetStarted t (oneLine (commandOf m t)) :: q := by
  unfold Starts at h
  unfold endEvents
  cases hfate : fate m (outcome t) t <;> simp_all

/-- Behind the checks, only the first event can be a command. -/
theorem endEvents_started {t x command : String} {p q : List RunEvent}
    (h : endEvents m (outcome t) t = p ++ .targetStarted x command :: q) :
    x = t ∧ Starts m outcome t ∧ p = [] := by
  have hprint : ∀ e ∈ (emitBuildFingerprintIfApplicable t (outcome t)).getD [],
      e ≠ .targetStarted x command := by
    unfold emitBuildFingerprintIfApplicable
    cases artifactPath t with
    | none => simp
    | some path => cases (outcome t).artifactHash <;> simp
  unfold endEvents at h
  unfold Starts
  have hmem : p = [] ∨ .targetStarted x command ∈ (endEvents m (outcome t) t).tail := by
    cases p with
    | nil => exact .inl rfl
    | cons e p =>
      refine .inr ?_
      rw [endEvents, h]
      simp
  rcases hmem with rfl | hmem
  · cases hfate : fate m (outcome t) t <;> simp_all
  · unfold endEvents at hmem
    cases hfate : fate m (outcome t) t <;> simp [hfate] at hmem
    exact absurd rfl (hprint _ hmem)

/-- A command in the events of a target is its own, behind its checks. -/
theorem started_split {t x command : String} {p q : List RunEvent}
    (h : targetEvents m (outcome t) t = p ++ .targetStarted x command :: q) :
    x = t ∧ Starts m outcome t ∧ ∀ e ∈ p, e.isCheck = true := by
  have hchecks := isCheck_runPreflights t (outcome t) 0 (preflightsOf m t)
  rcases List.append_eq_append_iff.mp h with ⟨mid, hp, hend⟩ | ⟨mid, hp, hend⟩
  · obtain ⟨hx, hstarts, rfl⟩ := endEvents_started m outcome hend
    rw [List.append_nil] at hp
    exact ⟨hx, hstarts, hp ▸ hchecks⟩
  · cases mid with
    | nil =>
      obtain ⟨hx, hstarts, -⟩ := endEvents_started m outcome (p := []) hend.symm
      rw [List.append_nil] at hp
      exact ⟨hx, hstarts, hp ▸ hchecks⟩
    | cons e mid =>
      simp only [List.cons_append, List.cons.injEq] at hend
      have hbad := hchecks e (by rw [hp]; simp)
      rw [← hend.1] at hbad
      cases hbad

theorem loses_targetEvents {t r : String} {e : RunEvent} (he : e ∈ targetEvents m (outcome t) t)
    (hr : e.loses r = true) : r = t ∧ fate m (outcome t) t ≠ .passed := by
  rcases List.mem_append.mp he with he | he
  · have hcheck := isCheck_runPreflights t (outcome t) 0 _ e he
    cases e <;> simp_all [RunEvent.isCheck, RunEvent.loses]
  · have hprint : ∀ e ∈ (emitBuildFingerprintIfApplicable t (outcome t)).getD [],
        e.loses r = false := by
      unfold emitBuildFingerprintIfApplicable
      cases artifactPath t with
      | none => simp
      | some path => cases (outcome t).artifactHash <;> simp [RunEvent.loses]
    unfold endEvents at he
    cases hfate : fate m (outcome t) t <;>
      simp only [hfate, List.mem_cons, List.not_mem_nil, or_false] at he
    all_goals grind [RunEvent.loses]

theorem exists_loses {t : String} (h : fate m (outcome t) t ≠ .passed) :
    ∃ e ∈ targetEvents m (outcome t) t, e.loses t = true := by
  rw [targetEvents, endEvents]
  cases hfate : fate m (outcome t) t with
  | passed => exact absurd hfate h
  | preflight => exact ⟨_, List.mem_append_right _ List.mem_cons_self, by simp [RunEvent.loses]⟩
  | lock => exact ⟨_, List.mem_append_right _ List.mem_cons_self, by simp [RunEvent.loses]⟩
  | command =>
    exact ⟨_, List.mem_append_right _ (List.mem_cons_of_mem _ List.mem_cons_self),
      by simp [RunEvent.loses]⟩
  | fingerprint =>
    exact ⟨_, List.mem_append_right _ (List.mem_cons_of_mem _ (List.mem_cons_of_mem _
      List.mem_cons_self)), by simp [RunEvent.loses]⟩

/-- A command of a run is one of a target of the list. -/
theorem command_split {s f : RunEvent} {resolved : List String} {pre post : List RunEvent}
    {t command : String} (hs : ∀ x c, s ≠ .targetStarted x c) (hf : ∀ x c, f ≠ .targetStarted x c)
    (h : [s] ++ (resolved.flatMap fun t => targetEvents m (outcome t) t) ++ [f] =
      pre ++ .targetStarted t command :: post) :
    ∃ l₁ a l₂ p q, resolved = l₁ ++ a :: l₂ ∧
      targetEvents m (outcome a) a = p ++ .targetStarted t command :: q ∧
      pre = (s :: l₁.flatMap fun t => targetEvents m (outcome t) t) ++ p := by
  cases pre with
  | nil =>
    simp only [List.cons_append, List.nil_append, List.cons.injEq] at h
    exact absurd h.1 (hs t command)
  | cons e pre =>
    simp only [List.cons_append, List.cons.injEq] at h
    obtain ⟨rfl, h⟩ := h
    have hmid : ∃ mid, (resolved.flatMap fun t => targetEvents m (outcome t) t) =
        pre ++ .targetStarted t command :: mid := by
      rcases List.append_eq_append_iff.mp h with ⟨mid, -, hend⟩ | ⟨mid, hmid, hend⟩
      · cases mid with
        | nil => exact absurd (List.cons.inj hend).1 (hf t command)
        | cons x mid => simp at hend
      · cases mid with
        | nil => exact absurd (List.cons.inj hend).1.symm (hf t command)
        | cons x mid =>
          obtain ⟨rfl, -⟩ := List.cons.inj hend
          exact ⟨mid, hmid⟩
    obtain ⟨mid, hmid⟩ := hmid
    obtain ⟨l₁, a, l₂, p, q, hsplit, hev, hpre⟩ := flatMap_split _ hmid
    exact ⟨l₁, a, l₂, p, q, hsplit, hev, by rw [hpre, List.cons_append]⟩

/-- The condition, for the events of the targets between two others. -/
theorem heldBack_flatMap {s f : RunEvent} (hs : ∀ x c, s ≠ .targetStarted x c)
    (hf : ∀ x c, f ≠ .targetStarted x c) (hkept : ∀ r, s.loses r = false)
    (resolved : List String) :
    HeldBack m ([s] ++ (resolved.flatMap fun t => targetEvents m (outcome t) t) ++ [f]) ↔
      ∀ pre t post, resolved = pre ++ t :: post → Starts m outcome t →
        ∀ r ∈ pre, Relation.TransGen m.Requires t r → fate m (outcome r) r = .passed := by
  constructor
  · intro hheld pre t post hsplit hstarts r hr hreq
    by_contra hfate
    obtain ⟨e, he, hloses⟩ := exists_loses m outcome hfate
    obtain ⟨q, hq⟩ := endEvents_of_starts m outcome hstarts
    have hevents : [s] ++ (resolved.flatMap fun t => targetEvents m (outcome t) t) ++ [f] =
        ([s] ++ (pre.flatMap fun t => targetEvents m (outcome t) t) ++
          (runPreflights t (outcome t) 0 (preflightsOf m t)).1) ++
        .targetStarted t (oneLine (commandOf m t)) ::
          (q ++ (post.flatMap fun t => targetEvents m (outcome t) t) ++ [f]) := by
      rw [hsplit, List.flatMap_append, List.flatMap_cons, targetEvents, hq]
      simp
    have hmem : e ∈ [s] ++ (pre.flatMap fun t => targetEvents m (outcome t) t) ++
        (runPreflights t (outcome t) 0 (preflightsOf m t)).1 := by
      simp only [List.mem_append, List.mem_flatMap]
      exact .inl (.inr ⟨r, hr, he⟩)
    have hkeep := hheld _ t _ _ hevents r hreq e hmem
    rw [hloses] at hkeep
    cases hkeep
  · intro hcond pre t command post hevents r hreq e he
    obtain ⟨l₁, a, l₂, p, q, hsplit, hev, hpre⟩ := command_split m outcome hs hf hevents
    obtain ⟨rfl, hstarts, hchecks⟩ := started_split m outcome hev
    rw [hpre] at he
    cases hloses : e.loses r with
    | false => rfl
    | true =>
      rcases List.mem_append.mp he with he | he
      · rcases List.mem_cons.mp he with rfl | he
        · rw [hkept r] at hloses
          cases hloses
        · obtain ⟨b, hb, he⟩ := List.mem_flatMap.mp he
          obtain ⟨rfl, hfate⟩ := loses_targetEvents m outcome he hloses
          exact absurd (hcond l₁ t l₂ hsplit hstarts r hb hreq) hfate
      · have hcheck := hchecks e he
        cases e <;> simp_all [RunEvent.isCheck, RunEvent.loses]

/-- With `continue_on_error`, no command runs behind a failed or skipped
requirement if and only if every target that gets to its command has only passed
requirements before it in the list. -/
theorem heldBack_iff (lines requested : List String) :
    HeldBack m (govctlExecute m lines requested true false outcome).events ↔
      ∀ pre t post, lines.filter (· ≠ "") = pre ++ t :: post → Starts m outcome t →
        ∀ r ∈ pre, Relation.TransGen m.Requires t r → fate m (outcome r) r = .passed := by
  unfold govctlExecute
  generalize lines.filter (· ≠ "") = resolved
  cases resolved with
  | nil =>
    refine iff_of_true (fun pre t command post h => ?_) fun pre t post h => ?_
    · simp at h
    · simp at h
  | cons first rest =>
    simp only [List.isEmpty_cons, Bool.false_eq_true, if_false, executeLoop_continue]
    exact heldBack_flatMap m outcome (by simp) (by simp) (fun _ => rfl) _

/-- The command of `target` exits with 1, every other one with 0. -/
def failingOutcome (target x : String) : TargetOutcome :=
  { sampleOutcome (some "0a1b") with exitCode := if x = target then 1 else 0 }

/-- The build fails, and the test that requires it runs. -/
theorem not_heldBack :
    resolveRequestedTargets sampleManifest ["all"] = .ok ["web.build", "web.test"] ∧
      ¬ HeldBack sampleManifest (govctlExecute sampleManifest ["web.build", "web.test"] ["all"]
        true false (failingOutcome "web.build")).events := by
  refine ⟨by decide +kernel, fun hheld => ?_⟩
  have hevents : (govctlExecute sampleManifest ["web.build", "web.test"] ["all"] true false
      (failingOutcome "web.build")).events =
      [.runStarted ["all"] ["web.build", "web.test"], .targetStarted "web.build" "npm run build",
        .targetFailed "web.build" 1 none] ++ .targetStarted "web.test" "npm test" ::
      [.targetPassed "web.test", .runFinished 2 1 1 0] := by decide +kernel
  have hrequires : Relation.TransGen sampleManifest.Requires "web.test" "web.build" :=
    .single ⟨_, rfl, by simp⟩
  have hlost := hheld _ _ _ _ hevents _ hrequires (.targetFailed "web.build" 1 none) (by simp)
  cases hlost

end Dependents
end Nightfall.Govctl
