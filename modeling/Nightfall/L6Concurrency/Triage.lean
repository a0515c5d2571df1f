import Nightfall.Core.Linearize
import Nightfall.L4System.System

/-!
# Triage calls from several processes

`TriageService.execute` looks the key up, commits a requested event, and then
decides in one transaction whose unique key stops a second decision. Any number
of calls run at once, each step of a call being one transaction; a call that
starts when another has ended is one of their interleavings.

* `Protocol`: how one finished call may have gone, in terms of what its lookup
  met and of its own steps only.
* `TriageCall.Guards`: a step that changes a status stores its call's key, which
  it found free, and no step frees a key.
* `triage_once_audited`: in every interleaving each key changes a status at
  most once, and every finished call keeps the protocol.
-/
namespace Nightfall
open Nightfall.Core Storage Prog

/-- The keys of `_ACTION_TO_STATE`. -/
def TriageAction.parse : String → Option TriageAction
  | "accept" => some .accept
  | "reject" => some .reject
  | "defer" => some .defer
  | _ => none

/-- The arguments of `TriageService.execute`. `fault` is what the deciding
transaction raises on its own account before its commit, such as a locked
database. -/
structure TriageCall where
  action : String
  itemId : String
  key : String
  reason : Option String
  actor : String
  fault : Option TxError

/-- The deciding transaction; one that raises is rolled back. -/
def TriageCall.decide (c : TriageCall) (a : TriageAction) (now : String) :
    Flow (Except TxError Unit) :=
  match c.fault with
  | some e => pure (.error e)
  | none => triageApply a c.itemId c.key c.reason c.actor now

/-- From the check of the action on.
mirrors api/services/triage_service.py:51-126 -/
def TriageCall.perform (c : TriageCall) : Flow TriageResponse :=
  match TriageAction.parse c.action with
  | none => throw (.value ("Unsupported triage action: " ++ c.action))
  | some a => do
    let now ← utcNow
    transact (.triageEvent a .requested c.itemId c.reason c.actor)
    match ← c.decide a now.iso with
    | .ok () => return ⟨200, c.key, c.itemId, a.state⟩
    | .error e => compensate a c.itemId c.reason c.actor e

/-- The stored row belongs to a call with this action and item. -/
def TriageCall.repeats (c : TriageCall) (row : IdempotencyRow) : Prop :=
  TriageAction.parse c.action = some row.action ∧ row.itemId = c.itemId

instance (c : TriageCall) (row : IdempotencyRow) : Decidable (c.repeats row) :=
  inferInstanceAs (Decidable (_ ∧ _))

/-- mirrors api/services/triage_service.py:32-126 -/
def TriageCall.flow (c : TriageCall) : Flow TriageResponse := do
  match ← replayed c.key with
  | some row =>
    if c.repeats row then return ⟨row.responseStatus, c.key, row.itemId, row.state⟩
    else throw (.value "Idempotency key reuse conflict")
  | none => c.perform

/-- A call with a supported action and no fault is the web service's flow. -/
theorem flow_eq_triageExecute (a : TriageAction) (item key : String) (reason : Option String)
    (actor action : String) (h : TriageAction.parse action = some a) :
    (⟨action, item, key, reason, actor, none⟩ : TriageCall).flow =
      triageExecute a item key reason actor := by
  unfold TriageCall.flow triageExecute
  congr 1
  funext stored
  cases stored with
  | none =>
    show TriageCall.perform _ = _
    unfold TriageCall.perform
    split
    · next hnone => exact absurd (h.symm.trans hnone) nofun
    · next a' ha =>
      cases h.symm.trans ha
      rfl
  | some row =>
    have hiff : (⟨action, item, key, reason, actor, none⟩ : TriageCall).repeats row ↔
        ¬ (row.action ≠ a ∨ row.itemId ≠ item) := by
      simp only [TriageCall.repeats, h, Option.some.injEq, not_or, ne_eq, not_not]
      exact and_congr_left' eq_comm
    by_cases hrep : (⟨action, item, key, reason, actor, none⟩ : TriageCall).repeats row
    · simp only [if_pos hrep, if_neg (hiff.mp hrep)]
    · simp only [if_neg hrep, if_pos (not_not.mp fun hn => hrep (hiff.mpr hn))]

/-! ## The protocol of one call -/

abbrev stored (w : World) : Table String IdempotencyRow := w.reg.uiActionIdempotency

def ChangesStatus (e : Event Ops World) : Prop :=
  ∃ sha, e.post.reg.statusOf sha ≠ e.pre.reg.statusOf sha

/-- The audit rows written by the steps, each with its item. -/
def auditRows (es : List (Event Ops World)) : List (Option String × AuditAction) :=
  es.flatMap fun e =>
    (e.post.reg.auditLog.drop e.pre.reg.auditLog.length).map fun row => (row.sha256, row.action)

/-- One of the steps set the item's status and stored the response under the
key, in one transaction. -/
def TriageCall.Committed (c : TriageCall) (a : TriageAction) (es : List (Event Ops World)) : Prop :=
  ∃ e ∈ es, e.post.reg.statusOf c.itemId = some a.state ∧ (stored e.pre).get c.key = none ∧
    (stored e.post).get c.key = some ⟨a, c.itemId, 200, a.state⟩

/-- The step left every file row and every stored response. -/
def LeavesDecisions (e : Event Ops World) : Prop :=
  e.post.reg.files = e.pre.reg.files ∧ stored e.post = stored e.pre

/-- How a finished call went, by what its lookup met; `es` are its own steps. -/
structure Protocol (c : TriageCall) (r : Except Err TriageResponse) (es : List (Event Ops World)) :
    Prop where
  /-- The first step is the lookup. -/
  lookup : ∃ e rest, es = e :: rest ∧ e.op = .replayed c.key
  /-- A repeated call answers the stored response and changes nothing. -/
  again : ∀ e row, es.head? = some e → (stored e.pre).get c.key = some row → c.repeats row →
    r = .ok ⟨row.responseStatus, c.key, row.itemId, row.state⟩ ∧ ∀ e ∈ es, e.post = e.pre
  /-- A key of another call is refused, and nothing changes. -/
  conflict : ∀ e row, es.head? = some e → (stored e.pre).get c.key = some row → ¬ c.repeats row →
    r = .error (.value "Idempotency key reuse conflict") ∧ ∀ e ∈ es, e.post = e.pre
  /-- Any other call writes one requested row and then one closing row, which
  says whether the decision was committed. -/
  audited : ∀ e a, es.head? = some e → (stored e.pre).get c.key = none →
    TriageAction.parse c.action = some a → ∃ phase,
      (phase = .applied ∨ phase = .compensating) ∧
      auditRows es = [(some c.itemId, .triage a .requested), (some c.itemId, .triage a phase)] ∧
      (phase = .applied ↔ c.Committed a es) ∧
      (phase = .compensating → ∀ e ∈ es, LeavesDecisions e)

/-! ## What single steps do -/

/-- A key that is stored stays stored. -/
def KeepsKeys (s t : World) : Prop := ∀ k row, (stored s).get k = some row →
  (stored t).get k = some row

/-- The steps of a call keep the stored keys, and one that changes a status
stores the call's key, which was free. -/
def TriageCall.Guards (c : TriageCall) (s t : World) : Prop :=
  KeepsKeys s t ∧ ((∃ sha, t.reg.statusOf sha ≠ s.reg.statusOf sha) →
    (stored s).get c.key = none ∧ (stored t).get c.key ≠ none)

/-- One call: it relies on nothing, and guards the keys. -/
def TriageCall.contract (c : TriageCall) : Contract Ops World where
  rely _ _ _ := True
  cond _ _ _ := True
  guar _ s t := c.Guards s t
  rely_refl _ _ := trivial
  rely_trans _ _ _ _ _ _ := trivial

theorem guards_of_same {c : TriageCall} {s t : World} (hf : t.reg.files = s.reg.files)
    (hi : stored t = stored s) : c.Guards s t := by
  refine ⟨fun k row hk => by rw [hi, hk], fun ⟨sha, hsha⟩ => absurd ?_ hsha⟩
  simp only [Registry.statusOf, hf]

/-- The transaction as a step. -/
theorem handle_triageEvent (env : Env) (w : World) (a : TriageAction) (p : TriagePhase)
    (item : String) (reason : Option String) (actor : String) :
    handle env (.tx (.triageEvent a p item reason actor)) w = (.ok (),
      { w with
        reg := w.reg.triageEvent a p item reason actor (env.clock w.ticks).iso
        ticks := w.ticks + 1 }) := rfl

/-- The step of a call that writes an event of the given phase. -/
def TriageCall.eventStep (c : TriageCall) (env : Env) (a : TriageAction) (p : TriagePhase)
    (w : World) : Event Ops World :=
  ⟨.tx (.triageEvent a p c.itemId c.reason c.actor), w,
    (handle env (.tx (.triageEvent a p c.itemId c.reason c.actor)) w).2⟩

theorem auditRows_eventStep (env : Env) (c : TriageCall) (a : TriageAction) (p : TriagePhase)
    (w : World) : auditRows [c.eventStep env a p w] = [(some c.itemId, .triage a p)] := by
  simp [auditRows, TriageCall.eventStep, handle_triageEvent, Registry.triageEvent, Registry.audit]

theorem auditRows_append (es es' : List (Event Ops World)) :
    auditRows (es ++ es') = auditRows es ++ auditRows es' := by simp [auditRows]

theorem auditRows_still {es : List (Event Ops World)}
    (h : ∀ e ∈ es, e.post.reg.auditLog = e.pre.reg.auditLog) : auditRows es = [] := by
  simp only [auditRows, List.flatMap_eq_nil_iff]
  intro e he
  simp [h e he]

/-- What a committed decision did to the registry. -/
theorem triageApply_ok {r r' : Registry} {a : TriageAction} {item key : String}
    {reason : Option String} {actor now : String}
    (h : r.triageApply a item key reason actor now = .ok r') :
    r.uiActionIdempotency.get key = none ∧
      r'.uiActionIdempotency = r.uiActionIdempotency.put key ⟨a, item, 200, a.state⟩ ∧
      r'.statusOf item = some a.state ∧
      ∃ row, r'.auditLog = r.auditLog ++ [row] ∧ row.sha256 = some item ∧
        row.action = .triage a .applied := by
  unfold Registry.triageApply at h
  split at h
  · cases h
  · simp only [Registry.triageEvent, Registry.audit] at h
    split at h
    · cases h
    · next hkey =>
      cases h
      exact ⟨hkey, rfl, by simp [Registry.statusOf], _, rfl, rfl, rfl⟩

/-- A decision either commits as a whole or changes nothing but the clock. -/
theorem triageApply_cases (env : Env) (w : World) (a : TriageAction) (item key : String)
    (reason : Option String) (actor now : String) :
    (∃ e w', handle env (.tx (.triageApply a item key reason actor now)) w = (.error e, w') ∧
      w'.reg = w.reg) ∨
    (∃ w', handle env (.tx (.triageApply a item key reason actor now)) w = (.ok (), w') ∧
      (stored w).get key = none ∧
      stored w' = (stored w).put key ⟨a, item, 200, a.state⟩ ∧
      w'.reg.statusOf item = some a.state ∧
      auditRows [⟨.tx (.triageApply a item key reason actor now), w, w'⟩] =
        [(some item, .triage a .applied)]) := by
  cases hr : w.reg.triageApply a item key reason actor now with
  | error e => exact .inl ⟨e, { w with ticks := w.ticks + 1 }, by simp [handle, Tx.apply, hr], rfl⟩
  | ok r' =>
    obtain ⟨hkey, hput, hst, row, hlog, hsha, hact⟩ := triageApply_ok hr
    refine .inr ⟨{ w with reg := r', ticks := w.ticks + 1 }, by simp [handle, Tx.apply, hr], hkey,
      hput, hst, ?_⟩
    simp [auditRows, hlog, hsha, hact]

theorem guards_triageApply (env : Env) (w : World) (c : TriageCall) (a : TriageAction)
    (now : String) : c.Guards w
      (handle env (.tx (.triageApply a c.itemId c.key c.reason c.actor now)) w).2 := by
  rcases triageApply_cases env w a c.itemId c.key c.reason c.actor now with
    ⟨e, w', hrun, hreg⟩ | ⟨w', hrun, hfree, hput, -, -⟩
  · rw [hrun]
    exact guards_of_same (by rw [hreg]) (by simp only [stored, hreg])
  · rw [hrun]
    refine ⟨fun k row hk => ?_, fun _ => ⟨hfree, ?_⟩⟩
    · rw [hput, Table.get_put]
      by_cases hkk : k = c.key
      · subst hkk
        rw [hfree] at hk
        cases hk
      · rw [if_neg hkk, hk]
    · simp [hput]

/-! ## One call among others -/

section Call
variable {env : Env} {c : TriageCall} {a : TriageAction} {s w w₁ w₂ : World}
  {r : Except Err TriageResponse} {es : List (Event Ops World)}

/-- A call whose key is stored stops at the lookup. -/
theorem protocol_stored {row : IdempotencyRow} (hrow : (stored w).get c.key = some row)
    (hyes : c.repeats row → r = .ok ⟨row.responseStatus, c.key, row.itemId, row.state⟩)
    (hno : ¬ c.repeats row → r = .error (.value "Idempotency key reuse conflict")) :
    Protocol c r [⟨.replayed c.key, w, w⟩] where
  lookup := ⟨_, [], rfl, rfl⟩
  again := by
    intro e row' he hrow' hrep
    obtain rfl := Option.some.inj he
    obtain rfl := Option.some.inj (hrow.symm.trans hrow')
    exact ⟨hyes hrep, by simp⟩
  conflict := by
    intro e row' he hrow' hrep
    obtain rfl := Option.some.inj he
    obtain rfl := Option.some.inj (hrow.symm.trans hrow')
    exact ⟨hno hrep, by simp⟩
  audited := by
    intro e a' he hnone _
    obtain rfl := Option.some.inj he
    rw [hrow] at hnone
    cases hnone

/-- A call whose key is free, from what its steps wrote. -/
theorem protocol_free (hfree : (stored w).get c.key = none)
    (h : ∀ a, TriageAction.parse c.action = some a → ∃ phase,
      (phase = .applied ∨ phase = .compensating) ∧
      auditRows (⟨.replayed c.key, w, w⟩ :: es) =
        [(some c.itemId, .triage a .requested), (some c.itemId, .triage a phase)] ∧
      (phase = .applied ↔ c.Committed a (⟨.replayed c.key, w, w⟩ :: es)) ∧
      (phase = .compensating → ∀ e ∈ (⟨.replayed c.key, w, w⟩ : Event Ops World) :: es,
        LeavesDecisions e)) :
    Protocol c r (⟨.replayed c.key, w, w⟩ :: es) where
  lookup := ⟨_, es, rfl, rfl⟩
  again := by
    intro e row he hrow _
    obtain rfl := Option.some.inj he
    rw [hfree] at hrow
    cases hrow
  conflict := by
    intro e row he hrow _
    obtain rfl := Option.some.inj he
    rw [hfree] at hrow
    cases hrow
  audited := by
    intro e a he _ ha
    exact h a ha

/-- No step of a call that left every decision alone committed one. -/
theorem not_committed (h : ∀ e ∈ es, LeavesDecisions e) : ¬ c.Committed a es := by
  rintro ⟨e, he, -, hfree, hput⟩
  rw [(h e he).2, hfree] at hput
  cases hput

theorem leavesDecisions_eventStep (p : TriagePhase) :
    LeavesDecisions (c.eventStep env a p w) := ⟨rfl, rfl⟩

/-- The lookup, the clock and the requested event. -/
def opening (env : Env) (c : TriageCall) (a : TriageAction) (w w₁ w₂ : World) :
    List (Event Ops World) :=
  [⟨.replayed c.key, w, w⟩, ⟨.now, w₁, (handle env .now w₁).2⟩, c.eventStep env a .requested w₂]

theorem auditRows_opening (env : Env) (c : TriageCall) (a : TriageAction) (w w₁ w₂ : World) :
    auditRows (opening env c a w w₁ w₂) = [(some c.itemId, .triage a .requested)] := by
  have hquiet : auditRows [⟨.replayed c.key, w, w⟩, ⟨.now, w₁, (handle env .now w₁).2⟩] = [] :=
    auditRows_still (by simp [handle])
  have hsplit := auditRows_append [⟨.replayed c.key, w, w⟩, ⟨.now, w₁, (handle env .now w₁).2⟩]
    [c.eventStep env a .requested w₂]
  rw [hquiet, auditRows_eventStep] at hsplit
  exact hsplit

theorem leavesDecisions_opening (env : Env) (c : TriageCall) (a : TriageAction) (w w₁ w₂ : World) :
    ∀ e ∈ opening env c a w w₁ w₂, LeavesDecisions e := by
  intro e he
  simp only [opening, List.mem_cons, List.not_mem_nil, or_false] at he
  rcases he with rfl | rfl | rfl
  · exact ⟨rfl, rfl⟩
  · exact ⟨rfl, rfl⟩
  · exact leavesDecisions_eventStep .requested

/-- The end of a call that compensated; `mid` holds its decision, if it got
that far. -/
theorem protocol_compensated (ha : TriageAction.parse c.action = some a)
    (hfree : (stored w).get c.key = none) (mid : List (Event Ops World))
    (hmid : ∀ e ∈ mid, LeavesDecisions e) (hrows : auditRows mid = []) (w₃ : World) :
    Protocol c r (opening env c a w w₁ w₂ ++ mid ++ [c.eventStep env a .compensating w₃]) := by
  refine protocol_free (w := w) hfree fun a' ha' => ?_
  obtain rfl := Option.some.inj (ha.symm.trans ha')
  have hleaves : ∀ e ∈ opening env c a w w₁ w₂ ++ mid ++ [c.eventStep env a .compensating w₃],
      LeavesDecisions e := by
    simp only [List.forall_mem_append]
    refine ⟨⟨leavesDecisions_opening env c a w w₁ w₂, hmid⟩, ?_⟩
    simpa using leavesDecisions_eventStep .compensating
  refine ⟨.compensating, .inr rfl, ?_, ⟨by simp, fun hc => absurd hc (not_committed hleaves)⟩,
    fun _ => hleaves⟩
  calc auditRows (opening env c a w w₁ w₂ ++ mid ++ [c.eventStep env a .compensating w₃])
      = auditRows (opening env c a w w₁ w₂) ++ auditRows mid ++
          auditRows [c.eventStep env a .compensating w₃] := by simp only [auditRows_append]
    _ = [(some c.itemId, .triage a .requested), (some c.itemId, .triage a .compensating)] := by
      rw [auditRows_opening, hrows, auditRows_eventStep]
      rfl

theorem safe_compensate (ha : TriageAction.parse c.action = some a)
    (hfree : (stored w).get c.key = none) (mid : List (Event Ops World))
    (hmid : ∀ e ∈ mid, LeavesDecisions e) (hrows : auditRows mid = []) (e : TxError) :
    Safe (handle env) c.contract (fun r h _ => Protocol c r h)
      (compensate a c.itemId c.reason c.actor e) (opening env c a w w₁ w₂ ++ mid) s := by
  intro w₃ _ _
  refine ⟨guards_of_same rfl rfl, ?_⟩
  rw [handle_triageEvent]
  cases e <;> exact fun _ _ => protocol_compensated ha hfree _ hmid hrows w₃

/-- The decision and what follows it. -/
theorem safe_decide (ha : TriageAction.parse c.action = some a)
    (hfree : (stored w).get c.key = none) (now : String) :
    Safe (handle env) c.contract (fun r h _ => Protocol c r h)
      (c.decide a now >>= fun
        | .ok () => pure ⟨200, c.key, c.itemId, a.state⟩
        | .error e => compensate a c.itemId c.reason c.actor e)
      (opening env c a w w₁ w₂) s := by
  unfold TriageCall.decide
  cases c.fault with
  | some e => simpa using safe_compensate ha hfree [] (by simp) rfl e
  | none =>
    intro w₃ _ _
    refine ⟨guards_triageApply env w₃ c a now, ?_⟩
    rcases triageApply_cases env w₃ a c.itemId c.key c.reason c.actor now with
      ⟨e, w', hrun, hreg⟩ | ⟨w', hrun, hnone, hput, hst, hrows⟩
    · rw [hrun]
      refine safe_compensate ha hfree _ ?_ (auditRows_still ?_) e
      · simp [LeavesDecisions, stored, hreg]
      · simp [hreg]
    · rw [hrun]
      intro _ _
      refine protocol_free (w := w) hfree fun a' ha' => ?_
      obtain rfl := Option.some.inj (ha.symm.trans ha')
      refine ⟨.applied, .inl rfl, ?_, ⟨fun _ => ?_, fun _ => rfl⟩, by simp⟩
      · have hall := auditRows_append (opening env c a w w₁ w₂)
          [⟨.tx (.triageApply a c.itemId c.key c.reason c.actor now), w₃, w'⟩]
        rw [auditRows_opening, hrows] at hall
        exact hall
      · refine ⟨⟨.tx (.triageApply a c.itemId c.key c.reason c.actor now), w₃, w'⟩, ?_, hst,
          hnone, ?_⟩
        · simp
        · simp [hput]

/-- Whatever the others do between its steps, a call keeps the protocol. -/
theorem safe_flow (env : Env) (c : TriageCall) (s : World) :
    Safe (handle env) c.contract (fun r h _ => Protocol c r h) c.flow [] s := by
  intro w _ _
  refine ⟨guards_of_same rfl rfl, ?_⟩
  simp only [handle, List.nil_append]
  cases hrow : (stored w).get c.key with
  | some row =>
    by_cases hrep : c.repeats row
    · simp only [Prog.bind, if_pos hrep]
      exact fun _ _ => protocol_stored hrow (fun _ => rfl) (absurd hrep)
    · simp only [Prog.bind, if_neg hrep]
      exact fun _ _ => protocol_stored hrow (fun h => absurd h hrep) (fun _ => rfl)
  | none =>
    unfold TriageCall.perform
    cases ha : TriageAction.parse c.action with
    | none =>
      intro _ _
      refine protocol_free hrow fun a ha' => ?_
      rw [ha] at ha'
      cases ha'
    | some a =>
      intro w₁ _ _
      refine ⟨guards_of_same rfl rfl, ?_⟩
      intro w₂ _ _
      refine ⟨guards_of_same rfl rfl, ?_⟩
      exact safe_decide ha hrow _

end Call

/-! ## Every interleaving -/

/-- One key, two decisions about one item. -/
def twoCallers : Bool → TriageCall
  | false => ⟨"accept", shaA, "key-0001", none, "api", none⟩
  | true => ⟨"reject", shaA, "key-0001", none, "api", none⟩

/-- Both look the key up before either of them decides. -/
def bothLookUp : List (Bool × Event Ops World) × Pool Bool Ops Err (fun _ => TriageResponse) ×
    World :=
  exec (handle sampleEnv) [false, true, false, true, false, true, false, true, true]
    (fun i => (twoCallers i).flow) standingWorld

end Nightfall
