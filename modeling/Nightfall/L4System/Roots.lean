import Mathlib.Algebra.Ring.Rat
import Nightfall.L4System.Location

/-!
# The queue roots of a configuration (`config.py`)

`validateCore` is the check of the `[core]` section. Of the four roots it asks
that no two are equal, while `_ensure_within_root` tests for a prefix, so a
root inside another one is let through.

* `validateCore_named`, `queueRootErrors_eq_nil_iff`: what the flows may take
  from a section that was let through.
* `queues_apart_iff`: the queues are apart exactly when no root contains
  another one.
-/
namespace Nightfall
open Nightfall.Core Storage Prog

/-! ## The check -/

/-- The values of `[core]` that `_validate_core` reads; `R` holds the ratios. -/
structure CoreSection (R : Type) where
  configVersion : Int
  pollIntervalMinutes : Int
  maxDownloadsPerPoll : Int
  maxPollRuntimeSeconds : Int
  livePhotoCaptureToleranceSeconds : Int
  livePhotoStemMode : String
  livePhotoComponentOrder : String
  livePhotoConflictPolicy : String
  integrityMode : String
  driftWarningThresholdRatio : R
  driftCriticalThresholdRatio : R
  driftMinEventsForEvaluation : Int
  deltaLoopResyncThreshold : Int
  deltaBreakerGhostThreshold : Int
  deltaBreakerStalePageThreshold : Int
  deltaBreakerCooldownSeconds : Int
  accountWorkerCount : Int
  backpressureRetryThreshold : Int
  backpressureTransportErrorThreshold : Int
  backpressureCooldownSeconds : Int
  storageTemplate : String
  acceptedStorageTemplate : String
  pendingPath : Path
  acceptedPath : Path
  rejectedPath : Path
  trashPath : Path

def errorIf (b : Bool) (msg : String) : List String := if b then ["[core] " ++ msg] else []

def mustBePositive (field : String) (value : Int) : List String :=
  errorIf (value ≤ 0) (field ++ " must be > 0")

/-- The message shows `sorted(supported)`. -/
def mustBeOneOf (field : String) (supported : List String) (value : String) : List String :=
  errorIf (!supported.contains value) (field ++ " must be one of: [" ++
    ", ".intercalate (supported.map fun s => "'" ++ s ++ "'") ++ "]")

def mustNameFile (field template : String) : List String :=
  errorIf (!namesFile template) (field ++ " must include at least \x7boriginal\x7d or \x7bsha8\x7d")

/-- The loop over the roots with the paths seen so far.
mirrors src/nightfall_photo_ingress/config.py:603-617 -/
def queueRootErrors : List (String × Path) → List (Path × String) → List String
  | [], _ => []
  | (name, path) :: roots, seen =>
    match seen.lookup path with
    | some duplicate => ("[core] " ++ name ++ " must not equal " ++ duplicate ++
        "; lifecycle roots must remain distinct") :: queueRootErrors roots seen
    | none => queueRootErrors roots (seen ++ [(path, name)])

section Validate
variable {R : Type} [Zero R] [LT R] [DecidableLT R]

def CoreSection.queueRoots (core : CoreSection R) : List (String × Path) :=
  [("pending_path", core.pendingPath), ("accepted_path", core.acceptedPath),
    ("rejected_path", core.rejectedPath), ("trash_path", core.trashPath)]

/-- The checks of single values.
mirrors src/nightfall_photo_ingress/config.py:517-595 -/
def settingErrors (core : CoreSection R) : List String :=
  errorIf (core.configVersion ≠ 2)
    ("config_version must be 2; got " ++ toString core.configVersion) ++
  mustBePositive "poll_interval_minutes" core.pollIntervalMinutes ++
  mustBePositive "max_downloads_per_poll" core.maxDownloadsPerPoll ++
  mustBePositive "max_poll_runtime_seconds" core.maxPollRuntimeSeconds ++
  errorIf (core.livePhotoCaptureToleranceSeconds < 0)
    "live_photo_capture_tolerance_seconds must be >= 0" ++
  mustBeOneOf "live_photo_stem_mode" ["exact_stem"] core.livePhotoStemMode ++
  mustBeOneOf "live_photo_component_order" ["photo_first"] core.livePhotoComponentOrder ++
  mustBeOneOf "live_photo_conflict_policy" ["nearest_capture_time"] core.livePhotoConflictPolicy ++
  mustBeOneOf "integrity_mode" ["strict", "tolerant"] core.integrityMode ++
  errorIf (core.driftWarningThresholdRatio < 0) "drift_warning_threshold_ratio must be >= 0" ++
  errorIf (core.driftCriticalThresholdRatio < 0) "drift_critical_threshold_ratio must be >= 0" ++
  errorIf (core.driftCriticalThresholdRatio < core.driftWarningThresholdRatio)
    "drift_warning_threshold_ratio must be <= drift_critical_threshold_ratio" ++
  mustBePositive "drift_min_events_for_evaluation" core.driftMinEventsForEvaluation ++
  mustBePositive "delta_loop_resync_threshold" core.deltaLoopResyncThreshold ++
  mustBePositive "delta_breaker_ghost_threshold" core.deltaBreakerGhostThreshold ++
  mustBePositive "delta_breaker_stale_page_threshold" core.deltaBreakerStalePageThreshold ++
  mustBePositive "delta_breaker_cooldown_seconds" core.deltaBreakerCooldownSeconds ++
  mustBePositive "account_worker_count" core.accountWorkerCount ++
  mustBePositive "backpressure_retry_threshold" core.backpressureRetryThreshold ++
  mustBePositive "backpressure_transport_error_threshold"
    core.backpressureTransportErrorThreshold ++
  mustBePositive "backpressure_cooldown_seconds" core.backpressureCooldownSeconds

/-- mirrors src/nightfall_photo_ingress/config.py:514-617 -/
def validateCore (core : CoreSection R) : List String :=
  settingErrors core ++
  mustNameFile "storage_template" core.storageTemplate ++
  mustNameFile "accepted_storage_template" core.acceptedStorageTemplate ++
  queueRootErrors core.queueRoots []

theorem errorIf_eq_nil_iff {b : Bool} {msg : String} : errorIf b msg = [] ↔ b = false := by
  cases b <;> simp [errorIf]

/-- The loop finds nothing exactly when no path repeats. -/
theorem queueRootErrors_eq_nil_iff : ∀ (roots : List (String × Path)) (seen : List (Path × String)),
    queueRootErrors roots seen = [] ↔
      (roots.map (·.2)).Nodup ∧ ∀ root ∈ roots, ∀ path ∈ seen, path.1 ≠ root.2
  | [], seen => by simp [queueRootErrors]
  | (name, path) :: roots, seen => by
    rw [queueRootErrors]
    cases hseen : seen.lookup path with
    | some duplicate =>
      obtain ⟨before, after, rfl, -⟩ := List.lookup_eq_some_iff.mp hseen
      simp only [reduceCtorEq, false_iff]
      intro h
      exact h.2 (name, path) List.mem_cons_self (path, duplicate) (by simp) rfl
    | none =>
      have hfresh : ∀ row ∈ seen, row.1 ≠ path := fun row hrow heq => by
        have hne := List.lookup_eq_none_iff.mp hseen row hrow
        simp [heq] at hne
      rw [queueRootErrors_eq_nil_iff roots]
      simp only [List.map_cons, List.nodup_cons, List.mem_map, List.mem_append, List.mem_singleton,
        List.forall_mem_cons]
      refine ⟨fun ⟨hnodup, h⟩ => ⟨⟨?_, hnodup⟩, hfresh, fun root hroot row hrow => ?_⟩,
        fun ⟨⟨hnot, hnodup⟩, _, h⟩ => ⟨hnodup, fun root hroot row hrow => ?_⟩⟩
      · rintro ⟨root, hroot, rfl⟩
        exact h root hroot (root.2, name) (.inr rfl) rfl
      · exact h root hroot row (.inl hrow)
      · rcases hrow with hrow | rfl
        · exact h root hroot row hrow
        · exact fun heq => hnot ⟨root, hroot, heq.symm⟩

theorem validateCore_named {core : CoreSection R} (h : validateCore core = []) :
    namesFile core.storageTemplate = true ∧ namesFile core.acceptedStorageTemplate = true := by
  simp only [validateCore, List.append_eq_nil_iff, mustNameFile, errorIf_eq_nil_iff,
    Bool.not_eq_false'] at h
  exact ⟨h.1.1.2, h.1.2⟩

theorem validateCore_distinct {core : CoreSection R} (h : validateCore core = []) :
    [core.pendingPath, core.acceptedPath, core.rejectedPath, core.trashPath].Nodup := by
  rw [validateCore, List.append_eq_nil_iff] at h
  exact ((queueRootErrors_eq_nil_iff _ _).mp h.2).1

/-- What the flows take from a section that was let through. -/
def CoreSection.config (core : CoreSection R) (h : validateCore core = []) : CoreConfig where
  pendingPath := core.pendingPath
  acceptedPath := core.acceptedPath
  rejectedPath := core.rejectedPath
  trashPath := core.trashPath
  storageTemplate := core.storageTemplate
  acceptedStorageTemplate := core.acceptedStorageTemplate
  storage_named := (validateCore_named h).1
  accepted_named := (validateCore_named h).2
  distinct := validateCore_distinct h

end Validate

/-! ## The queues -/

inductive QueueRoot where
  | pending
  | accepted
  | rejected
  | trash
  deriving DecidableEq, Repr

def CoreConfig.root (cfg : CoreConfig) : QueueRoot → Path
  | .pending => cfg.pendingPath
  | .accepted => cfg.acceptedPath
  | .rejected => cfg.rejectedPath
  | .trash => cfg.trashPath

/-- The path lies within this root and within no other. -/
def OnlyIn (cfg : CoreConfig) (q : QueueRoot) (p : Path) : Prop :=
  ∀ q', withinRoot p (cfg.root q') = true ↔ q' = q

/-- The roots tell the queues apart, for every path and from every state. -/
structure QueuesApart (env : Env) (cfg : CoreConfig) : Prop where
  /-- a path is in at most one queue -/
  exclusive : ∀ p q q', withinRoot p (cfg.root q) = true → withinRoot p (cfg.root q') = true →
    q = q'
  /-- `process_trash` sweeps no file of another queue -/
  sweep : ∀ (w : World) p q, p ∈ filesBelow w.fs cfg.trashPath → withinRoot p (cfg.root q) = true →
    q = .trash
  /-- what a purge deletes is a rejected file -/
  purge : ∀ w sha reason actor p, (w.fs.get p).isSome = true →
    ((purgeSha256 cfg sha reason actor).run (handle env) w).2.fs.get p = none →
    OnlyIn cfg .rejected p
  /-- what is accepted was pending -/
  accept : ∀ w sha reason actor r w',
    (acceptSha256 env cfg sha reason actor).run (handle env) w = (.ok r, w') →
    ∃ n row p, normalizeSha sha = some n ∧ w.reg.files.get n = some row ∧
      row.currentPath = some p ∧ OnlyIn cfg .pending p
  /-- what a reject moves was pending or accepted -/
  reject : ∀ w sha reason actor r w',
    (rejectSha256 env cfg sha reason actor).run (handle env) w = (.ok r, w') →
    ∀ p ∈ r.removedPaths, OnlyIn cfg .pending p ∨ OnlyIn cfg .accepted p

/-- The first root contains the second. The root directory contains nothing for
`_ensure_within_root`, but everything for `process_trash`. -/
def Nested (cfg : CoreConfig) (q q' : QueueRoot) : Prop :=
  cfg.root q <+: cfg.root q' ∧ (q = .trash ∨ cfg.root q ≠ [])

variable {env : Env} {cfg : CoreConfig} {w : World}

theorem CoreConfig.root_injective (cfg : CoreConfig) {q q' : QueueRoot}
    (h : cfg.root q = cfg.root q') : q = q' := by
  have hd := cfg.distinct
  simp only [List.nodup_cons, List.mem_cons, not_or] at hd
  cases q <;> cases q' <;> simp only [CoreConfig.root] at h <;> first | rfl | (exfalso; grind)

theorem withinRoot_nil {p : Path} (h : withinRoot p [] = true) : p = [] := by
  simpa [withinRoot] using h

/-- A path within one root and below another, where no root contains another. -/
theorem eq_of_unnested {p : Path} {q q' : QueueRoot}
    (hcfg : ∀ q q', q ≠ q' → ¬ Nested cfg q q') (hp : withinRoot p (cfg.root q) = true)
    (hp' : cfg.root q' <+: p) (hq' : q' = .trash ∨ cfg.root q' ≠ []) : q = q' := by
  by_contra hne
  rcases List.prefix_or_prefix_of_prefix (prefix_of_withinRoot hp) hp' with h | h
  · by_cases hroot : cfg.root q = []
    · rw [hroot] at hp
      rw [withinRoot_nil hp, List.prefix_nil] at hp'
      exact hne (cfg.root_injective (hroot.trans hp'.symm))
    · exact hcfg q q' hne ⟨h, .inr hroot⟩
  · exact hcfg q' q (Ne.symm hne) ⟨h, hq'⟩

theorem exclusive_of_unnested (hcfg : ∀ q q', q ≠ q' → ¬ Nested cfg q q') {p : Path}
    {q q' : QueueRoot} (hp : withinRoot p (cfg.root q) = true)
    (hp' : withinRoot p (cfg.root q') = true) : q = q' := by
  by_cases hroot : cfg.root q' = []
  · -- only the root directory itself is within it
    rw [hroot] at hp'
    rw [withinRoot_nil hp'] at hp
    exact cfg.root_injective ((List.prefix_nil.mp (prefix_of_withinRoot hp)).trans hroot.symm)
  · exact eq_of_unnested hcfg hp (prefix_of_withinRoot hp') (.inr hroot)

theorem onlyIn_of_within (hcfg : ∀ q q', q ≠ q' → ¬ Nested cfg q q') {p : Path} {q : QueueRoot}
    (hp : withinRoot p (cfg.root q) = true) : OnlyIn cfg q p := by
  intro q'
  refine ⟨fun hp' => exclusive_of_unnested hcfg hp' hp, ?_⟩
  rintro rfl
  exact hp

/-! ## What the commands check -/

/-- The file a purge deletes is within the rejected root. -/
theorem purge_within {sha actor : String} {reason : Option String} {p : Path}
    (hp : (w.fs.get p).isSome = true)
    (hgone : ((purgeSha256 cfg sha reason actor).run (handle env) w).2.fs.get p = none) :
    withinRoot p cfg.rejectedPath = true := by
  have hwp : (purgeSha256 cfg sha reason actor).Wp (handle env) w fun _ w' =>
      w'.fs.get p = none → withinRoot p cfg.rejectedPath = true := by
    refine wp_purgeSha256_iff (fun n row row' r w' _ _ _ hfs _ _ _ hnone => ?_) fun e _ hnone => ?_
    · rcases hfs with ⟨hfs, -⟩ | ⟨q, -, hq, hfs⟩
      · rw [hfs] at hnone
        simp [hnone] at hp
      · rw [hfs, Table.get_drop] at hnone
        split at hnone
        · next heq => rw [heq]; exact hq
        · simp [hnone] at hp
    · simp [hnone] at hp
  exact wp_iff.mp hwp hgone

/-- The row that is accepted has a path within the pending root. -/
theorem accept_within {sha actor : String} {reason : Option String} {r : AcceptResult} {w' : World}
    (h : (acceptSha256 env cfg sha reason actor).run (handle env) w = (.ok r, w')) :
    ∃ n row p, normalizeSha sha = some n ∧ w.reg.files.get n = some row ∧
      row.currentPath = some p ∧ withinRoot p cfg.pendingPath = true := by
  have hwp : (acceptSha256 env cfg sha reason actor).Wp (handle env) w (onOk fun _ _ =>
      ∃ n row p, normalizeSha sha = some n ∧ w.reg.files.get n = some row ∧
        row.currentPath = some p ∧ withinRoot p cfg.pendingPath = true) := by
    refine wp_acceptSha256_commit (fun n row ctx p d w₁ hn hrow _ hp hin _ _ _ => ?_)
      fun _ _ _ => trivial
    refine wp_mono (fun r t _ => ?_) (wp_iff.mpr trivial : Wp _ _ _ fun _ _ => True)
    cases r with
    | error e => trivial
    | ok r => exact ⟨n, row, p, hn, hrow, hp, hin⟩
  have hend := wp_iff.mp hwp
  rw [h] at hend
  exact hend

/-- The paths that passed the check of a reject. -/
def Movable (cfg : CoreConfig) (ps : List Path) : Prop :=
  ∀ p ∈ ps, withinRoot p cfg.pendingPath = true ∨ withinRoot p cfg.acceptedPath = true

theorem movable_nil : Movable cfg [] := fun p hp => by cases hp

theorem Movable.eraseDups {ps : List Path} (h : Movable cfg ps) : Movable cfg ps.eraseDups :=
  fun p hp => h p (List.mem_eraseDups.mp hp)

theorem yields_moveToRejectedFolder (sha : String) :
    (moveToRejectedFolder env cfg sha).Yields (Movable cfg) := by
  unfold moveToRejectedFolder
  refine yields_bind yields_true fun record _ => ?_
  cases record with
  | none => exact movable_nil
  | some record =>
    cases hp : record.currentPath with
    | none => simp only [hp]; exact movable_nil
    | some source =>
      simp only [hp]
      refine yields_bind yields_true fun found _ => ?_
      cases found with
      | false => exact yields_bind yields_true fun _ _ => movable_nil
      | true =>
        simp only [if_true]
        split
        · trivial
        · next hin =>
          refine yields_bind yields_true fun mt _ => yields_bind yields_true fun d _ => ?_
          cases d with
          | none => exact movable_nil
          | some d =>
            refine yields_bind yields_true fun _ _ => ?_
            intro p hp
            rw [List.mem_singleton.mp hp]
            grind

theorem yields_applyReject (sha reason actor : String) :
    (applyReject env cfg sha reason actor none 0 none).Yields fun r =>
      Movable cfg r.removedPaths := by
  have hknown : ∀ record, (rejectKnown env cfg sha reason actor record).Yields fun r =>
      Movable cfg r.removedPaths := by
    intro record
    unfold rejectKnown
    split
    · exact yields_bind yields_true fun _ _ => movable_nil
    · exact yields_bind (yields_moveToRejectedFolder sha) fun ps hps =>
        yields_bind yields_true fun _ _ => hps.eraseDups
  unfold applyReject
  refine yields_bind yields_true fun record _ => ?_
  cases record with
  | none =>
    exact yields_bind yields_true fun _ _ => yields_bind yields_true fun _ _ =>
      yields_bind yields_true fun _ _ => yields_bind yields_true fun _ _ => movable_nil
  | some record =>
    refine yields_bind yields_true fun pair _ => ?_
    cases pair with
    | none => exact hknown record
    | some pair =>
      simp only
      split
      · refine yields_bind (yields_moveToRejectedFolder _) fun photo hphoto =>
          yields_bind (yields_moveToRejectedFolder _) fun video hvideo =>
          yields_bind yields_true fun _ _ => Movable.eraseDups fun p hp => ?_
        rcases List.mem_append.mp hp with hp | hp
        · exact hphoto p hp
        · exact hvideo p hp
      · exact hknown record

theorem reject_within {sha actor : String} {reason : Option String} {r : RejectResult} {w' : World}
    (h : (rejectSha256 env cfg sha reason actor).run (handle env) w = (.ok r, w')) :
    Movable cfg r.removedPaths := by
  have hyields : (rejectSha256 env cfg sha reason actor).Yields fun r =>
      Movable cfg r.removedPaths := by
    unfold rejectSha256 withNormalizedSha
    cases normalizeSha sha with
    | none => trivial
    | some n => exact yields_applyReject n _ actor
  exact hyields.of_run (congrArg Prod.fst h)

/-! ## Apart exactly when unnested -/

theorem queuesApart_of_unnested (env : Env) (hcfg : ∀ q q', q ≠ q' → ¬ Nested cfg q q') :
    QueuesApart env cfg where
  exclusive p q q' hp hp' := exclusive_of_unnested hcfg hp hp'
  sweep w p q hp hq := eq_of_unnested hcfg hq (mem_filesBelow.mp hp).2.1 (.inl rfl)
  purge w sha reason actor p hp hgone := onlyIn_of_within hcfg (purge_within hp hgone)
  accept w sha reason actor r w' h := by
    obtain ⟨n, row, p, hn, hrow, hp, hin⟩ := accept_within h
    exact ⟨n, row, p, hn, hrow, hp, onlyIn_of_within hcfg hin⟩
  reject w sha reason actor r w' h p hp := by
    rcases reject_within h p hp with hin | hin
    · exact .inl (onlyIn_of_within hcfg hin)
    · exact .inr (onlyIn_of_within hcfg hin)

theorem not_nested_of_queuesApart (h : QueuesApart env cfg) {q q' : QueueRoot} (hne : q ≠ q') :
    ¬ Nested cfg q q' := by
  rintro ⟨hpre, hroot⟩
  have hself : withinRoot (cfg.root q') (cfg.root q') = true := by simp [withinRoot]
  by_cases hnil : cfg.root q = []
  · -- the trash is the root directory, and sweeps any file of the other queue
    have htrash : q = .trash := hroot.resolve_right fun hroot => hroot hnil
    subst htrash
    have hq' : cfg.root q' ≠ [] := fun hq' => hne (cfg.root_injective (hnil.trans hq'.symm))
    let p : Path := cfg.root q' ++ ["x"]
    have hsweep : p ∈ filesBelow (sampleWorld [(p, [])] Registry.empty).fs cfg.trashPath := by
      rw [show cfg.trashPath = [] from hnil, mem_filesBelow]
      exact ⟨⟨[], Table.get_put_self _ _ _⟩, List.nil_prefix, by simp [p]⟩
    have hin : withinRoot p (cfg.root q') = true :=
      withinRoot_of_prefix hq' (List.prefix_append _ _)
    exact hne (h.sweep _ p q' hsweep hin).symm
  · have hin : withinRoot (cfg.root q') (cfg.root q) = true :=
      withinRoot_of_prefix hnil hpre
    exact hne (h.exclusive _ q q' hin hself)

/-- For every configuration that the check lets through, the queues are apart
exactly when no root contains another one. -/
theorem queues_apart_iff {R : Type} [Zero R] [LT R] [DecidableLT R] (core : CoreSection R)
    (h : validateCore core = []) (env : Env) :
    QueuesApart env (core.config h) ↔ ∀ q q', q ≠ q' → ¬ Nested (core.config h) q q' :=
  ⟨fun hq _ _ hne => not_nested_of_queuesApart hq hne, queuesApart_of_unnested env⟩

/-- A `[core]` section with the given roots. -/
def defaultSection (pending accepted rejected trash : Path) : CoreSection Rat :=
  ⟨2, 720, 200, 3300, 3, "exact_stem", "photo_first", "nearest_capture_time", "strict", 0.05,
    0.20, 20, 3, 10, 10, 300, 1, 20, 5, 300, sampleTemplate, sampleTemplate, pending, accepted,
    rejected, trash⟩

/-- The trash inside the pending root is let through; the files of the trash are
then pending ones. -/
theorem nested_roots_let_through :
    ∃ h : validateCore (defaultSection ["lib"] ["acc"] ["rej"] ["lib", "trash"]) = [],
      ¬ QueuesApart sampleEnv (CoreSection.config _ h) := by
  refine ⟨by decide +kernel, fun hq => ?_⟩
  have h := hq.exclusive ["lib", "trash", "a.jpg"] .pending .trash (by decide +kernel)
    (by decide +kernel)
  cases h

theorem siblings_apart :
    ∃ h : validateCore (defaultSection ["lib", "pending"] ["lib", "accepted"] ["lib", "rejected"]
        ["lib", "trash"]) = [],
      QueuesApart sampleEnv (CoreSection.config _ h) := by
  refine ⟨by decide +kernel, (queues_apart_iff _ _ _).mpr fun q q' hne => ?_⟩
  rintro ⟨hpre, -⟩
  revert hpre hne
  cases q <;> cases q' <;> decide +kernel

end Nightfall
