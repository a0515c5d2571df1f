import Nightfall.L3Flows.Transactions
import Nightfall.L4System.Steps

/-!
# The audit log and the statuses

An audit row whose action is a status, or an applied triage action, states what
the status of its hash became. Between calls the newest such row of every hash
states the status the hash has. Inside a call this fails where a status and its
audit row are written by two transactions.

* `AuditedBut.step`: what one change of registry and log keeps.
* `steps_audited`: the plain steps keep it, and the two flows that write a
  status first and the audit row afterwards restore it.
* `audit_refines_status`: the newest row states the status, after every call.
* `status_changes_audited_iff`: which single transactions change a status
  without an audit row.
-/
namespace Nightfall
open Nightfall.Core Storage Prog

/-- The status an audit row states. -/
def AuditAction.denotes : AuditAction → Option Status
  | .status s => some s
  | .triage a .applied => some a.state
  | _ => none

/-- The newest row of the hash that states a status states `st`. -/
def Denotes (log : List AuditRow) (sha : String) (st : Status) : Prop :=
  ∃ a ∈ log, a.sha256 = some sha ∧ a.action.denotes = some st ∧
    ∀ b ∈ log, b.sha256 = some sha → b.action.denotes ≠ none → b.id ≤ a.id

/-- The log is in the order of its ids, and states the status of every hash but
the one in `debt`. -/
structure AuditedBut (debt : Option String) (r : Registry) : Prop where
  ordered : r.auditLog.Pairwise fun a b => a.id < b.id
  bounded : ∀ a ∈ r.auditLog, a.id ≤ r.auditSeq
  denoted : ∀ sha st, debt ≠ some sha → r.statusOf sha = some st → Denotes r.auditLog sha st

abbrev Audited (r : Registry) : Prop := AuditedBut none r

theorem audited_empty : Audited Registry.empty :=
  ⟨List.Pairwise.nil, by simp [Registry.empty], by rintro sha st - ⟨⟩⟩

/-! ## One change -/

/-- The note states `st` of the hash. -/
def States (note : Option (Option String × AuditAction)) (sha : String) (st : Status) : Prop :=
  ∃ a, note = some (some sha, a) ∧ a.denotes = some st

/-- The note states nothing of the hash. -/
def Silent (note : Option (Option String × AuditAction)) (sha : String) : Prop :=
  ∀ a, note = some (some sha, a) → a.denotes = none

section
variable {r r' : Registry} {note : Option (Option String × AuditAction)} {debt debt' : Option String}

theorem Registry.Logs.ordered (hl : r.Logs r' note)
    (h : r.auditLog.Pairwise fun a b => a.id < b.id) (hb : ∀ a ∈ r.auditLog, a.id ≤ r.auditSeq) :
    (r'.auditLog.Pairwise fun a b => a.id < b.id) ∧ ∀ a ∈ r'.auditLog, a.id ≤ r'.auditSeq := by
  cases hl with
  | same hlog hseq => rw [hlog, hseq]; exact ⟨h, hb⟩
  | row row hlog hseq _ hid =>
    rw [hlog, hseq]
    constructor
    · refine List.pairwise_append.mpr ⟨h, List.pairwise_singleton _ _, fun a ha b hb' => ?_⟩
      rw [List.mem_singleton] at hb'
      subst hb'
      have := hb a ha
      omega
    · intro a ha
      rcases List.mem_append.mp ha with ha | ha
      · have := hb a ha
        omega
      · rw [List.mem_singleton] at ha
        subst ha
        omega

theorem Registry.Logs.denotes_states (hl : r.Logs r' note)
    (hb : ∀ a ∈ r.auditLog, a.id ≤ r.auditSeq) {sha : String} {st : Status}
    (hs : States note sha st) : Denotes r'.auditLog sha st := by
  obtain ⟨act, rfl, hact⟩ := hs
  cases hl with
  | row row hlog hseq hnote hid =>
    have hsha : row.sha256 = some sha := congrArg Prod.fst hnote
    have haction : row.action = act := congrArg Prod.snd hnote
    rw [hlog]
    refine ⟨row, by simp, hsha, by rw [haction, hact], fun b hb' _ _ => ?_⟩
    rcases List.mem_append.mp hb' with hold | hnew
    · have := hb b hold
      omega
    · rw [List.mem_singleton] at hnew
      rw [hnew]

theorem Registry.Logs.denotes_silent (hl : r.Logs r' note) {sha : String} {st : Status}
    (hs : Silent note sha) (h : Denotes r.auditLog sha st) : Denotes r'.auditLog sha st := by
  cases hl with
  | same hlog _ => rw [hlog]; exact h
  | row row hlog _ hnote _ =>
    obtain ⟨a, ha, hsha, hact, hmax⟩ := h
    rw [hlog]
    refine ⟨a, List.mem_append_left _ ha, hsha, hact, fun b hb hbsha hbact => ?_⟩
    rcases List.mem_append.mp hb with hold | hnew
    · exact hmax b hold hbsha hbact
    · rw [List.mem_singleton] at hnew
      subst hnew
      exact absurd (hs b.action (by rw [← hnote, AuditRow.note, hbsha])) hbact

/-- Every status after the change is stated by the note, or was there before
and the note is silent about it. -/
theorem AuditedBut.step (h : AuditedBut debt r) (hl : r.Logs r' note)
    (hst : ∀ sha st, debt' ≠ some sha → r'.statusOf sha = some st →
      States note sha st ∨ debt ≠ some sha ∧ r.statusOf sha = some st ∧ Silent note sha) :
    AuditedBut debt' r' := by
  obtain ⟨hordered, hbounded⟩ := hl.ordered h.ordered h.bounded
  refine ⟨hordered, hbounded, fun sha st hne hr => ?_⟩
  rcases hst sha st hne hr with hs | ⟨hne', hold, hs⟩
  · exact hl.denotes_states h.bounded hs
  · exact hl.denotes_silent hs (h.denoted sha st hne' hold)

/-- A transaction whose audit row says what it does to the statuses. -/
structure Tx.Loyal (t : Tx) : Prop where
  states : ∀ sha st, t.sets = some (sha, st) → States t.audits sha st
  silent : ∀ sha, (∀ st, t.sets ≠ some (sha, st)) → Silent t.audits sha

/-- In a log in order the last row has the greatest id. -/
theorem id_le_getLast {rows : List AuditRow} (h : rows.Pairwise fun a b => a.id < b.id) :
    ∀ a ∈ rows, a.id ≤ (rows.getLast?.map (·.id)).getD 0 := by
  rcases List.eq_nil_or_concat' rows with rfl | ⟨init, last, rfl⟩
  · intro a ha
    cases ha
  · intro a ha
    simp only [List.getLast?_concat, Option.map_some, Option.getD_some]
    rcases List.mem_append.mp ha with hinit | hlast
    · exact ((List.pairwise_append.mp h).2.2 a hinit last (List.mem_singleton_self _)).le
    · rw [List.mem_singleton.mp hlast]

/-- The prune drops no row that states a status. -/
theorem AuditedBut.prune {keep : Int} (h : AuditedBut debt r)
    (hr : r.pruneAuthFailureAuditBacklog keep = .ok r') : AuditedBut debt r' := by
  have hfiles := Registry.files_pruneAuthFailureAuditBacklog hr
  unfold Registry.pruneAuthFailureAuditBacklog at hr
  split at hr
  · cases hr
  simp only at hr
  split at hr
  · cases hr; exact h
  cases hr
  have hordered := h.ordered.filter
    (fun row => row.action != .authFailure || List.contains (((r.auditLog.filter
      (·.action == .authFailure)).map (·.id)).reverse.take keep.toNat) row.id)
  refine ⟨hordered, id_le_getLast hordered, fun sha st hne hst => ?_⟩
  rw [Registry.statusOf_of_files hfiles] at hst
  obtain ⟨a, ha, hsha, hact, hmax⟩ := h.denoted sha st hne hst
  refine ⟨a, List.mem_filter.mpr ⟨ha, ?_⟩, hsha, hact,
    fun b hb => hmax b (List.mem_of_mem_filter hb)⟩
  have hne : a.action ≠ .authFailure := by
    intro hauth
    rw [hauth] at hact
    cases hact
  simp [hne]

theorem AuditedBut.loyal {t : Tx} {now : String} (h : AuditedBut debt r) (ht : t.Loyal)
    (hr : t.apply r now = .ok r') : AuditedBut debt r' := by
  by_cases hp : ∃ keep, t = .pruneAuthFailureAuditBacklog keep
  · obtain ⟨keep, rfl⟩ := hp
    exact h.prune hr
  refine h.step (logs_apply hr fun keep hk => hp ⟨keep, hk⟩) fun sha st hne hst => ?_
  by_cases hset : ∃ st', t.sets = some (sha, st')
  · obtain ⟨st', hset⟩ := hset
    rw [statusOf_apply hr, hset] at hst
    simp only [if_true, Option.some.injEq] at hst
    subst hst
    exact .inl (ht.states sha st' hset)
  · have hset' : ∀ st', t.sets ≠ some (sha, st') := fun st' hs => hset ⟨st', hs⟩
    refine .inr ⟨hne, ?_, ht.silent sha hset'⟩
    rcases statusOf_apply_cases hr hst with hs | hold
    · exact absurd hs (hset' st)
    · exact hold

end

theorem AuditedBut.eq_of_id {debt : Option String} {r : Registry} (h : AuditedBut debt r)
    {a b : AuditRow} (ha : a ∈ r.auditLog) (hb : b ∈ r.auditLog) (hid : a.id = b.id) : a = b := by
  have hnodup : (r.auditLog.map (·.id)).Nodup :=
    List.pairwise_map.mpr (h.ordered.imp fun hlt => hlt.ne)
  exact List.inj_on_of_nodup_map hnodup ha hb hid

/-! ## Single steps -/

theorem loyal_of_note {t : Tx} (hset : t.sets = none)
    (h : ∀ sha a, t.audits = some (some sha, a) → a.denotes = none) : t.Loyal :=
  ⟨by simp [hset], fun sha _ a ha => h sha a ha⟩

theorem loyal_of_sets {t : Tx} {sha : String} {st : Status} {a : AuditAction}
    (hset : t.sets = some (sha, st)) (haudit : t.audits = some (some sha, a))
    (ha : a.denotes = some st) : t.Loyal where
  states k st' h := by
    rw [hset] at h
    cases h
    exact ⟨a, haudit, ha⟩
  silent k hk a' h := by
    rw [haudit] at h
    cases h
    exact absurd hset (hk st)

theorem denotes_of_isNote {a : AuditAction} (h : a.isNote = true) : a.denotes = none := by
  cases a <;> first | rfl | cases h

theorem loyal_of_plain {t : Tx} (h : t.Plain) : t.Loyal := by
  cases t with
  | finalizeAcceptFromPending sha => exact loyal_of_sets (a := .status .accepted) rfl rfl rfl
  | finalizePurgeFromRejected sha => exact loyal_of_sets (a := .status .purged) rfl rfl rfl
  | transitionStatus sha st => exact loyal_of_sets (a := .status st) rfl rfl rfl
  | appendAuditEvent sha a =>
    refine loyal_of_note rfl fun sha' a' ha' => ?_
    cases ha'
    exact denotes_of_isNote h
  | finalizeKnownIngest sha st =>
    refine loyal_of_note rfl fun sha' a' ha' => ?_
    cases ha'
    rfl
  | clearCurrentPath | updateCurrentPath | appendIngestTerminalEvent | upsertLivePhotoPair
  | setLivePhotoPairStatus => exact loyal_of_note rfl fun _ _ h => by cases h
  | _ => cases h

def Op.Loyal : Op → Prop
  | .tx t => t.Loyal
  | _ => True

theorem Op.Plain.loyal {o : Op} (h : o.Plain) : o.Loyal := by
  cases o with
  | tx t => exact loyal_of_plain h
  | _ => trivial

variable {env : Env} {cfg : CoreConfig} {w : World} {debt : Option String}

theorem audited_handle {o : Op} (ho : o.Loyal) (h : AuditedBut debt w.reg) :
    AuditedBut debt (handle env o w).2.reg := by
  cases o with
  | tx t =>
    simp only [handle]
    split
    · next r hr => exact h.loyal ho hr
    · exact h
  | _ =>
    rw [handle_reg rfl]
    exact h

/-! ## The flows that owe an audit row -/

/-- The hash is rejected and its audit row is still to be written. -/
def Owing (sha : String) (r : Registry) : Prop :=
  AuditedBut (some sha) r ∧ r.statusOf sha = some .rejected

theorem owing_createOrUpdateFile {sha : String} {n : Nat} {name : Option String}
    {path : Option Path} {now : String} {r : Registry} (h : Audited r) :
    Owing sha (r.createOrUpdateFile sha n .rejected name path now) := by
  have hr : (Tx.createOrUpdateFile sha n .rejected name path).apply r now =
    .ok (r.createOrUpdateFile sha n .rejected name path now) := rfl
  refine ⟨h.step (logs_apply hr (by simp)) fun sha' st hne hst =>
    .inr ⟨by simp, ?_, by simp [Silent, Tx.audits]⟩, ?_⟩
  · rcases statusOf_apply_cases hr hst with hs | hold
    · cases hs
      exact absurd rfl hne
    · exact hold
  · rw [statusOf_apply hr]
    simp [Tx.sets]

/-- The audit row settles the debt. -/
theorem audited_appendRejected {sha : String} {reason actor now : String} {r : Registry}
    (h : Owing sha r) :
    Audited (r.appendAuditEvent (some sha) (.status .rejected) reason actor now) := by
  have hr : (Tx.appendAuditEvent (some sha) (.status .rejected) reason actor).apply r now =
    .ok (r.appendAuditEvent (some sha) (.status .rejected) reason actor now) := rfl
  refine h.1.step (logs_apply hr (by simp)) fun sha' st _ hst => ?_
  rw [statusOf_apply hr] at hst
  simp only [Tx.sets] at hst
  by_cases hk : sha' = sha
  · subst hk
    rw [h.2] at hst
    cases hst
    exact .inl ⟨_, rfl, rfl⟩
  · refine .inr ⟨by simpa using Ne.symm hk, hst, fun a ha => ?_⟩
    cases ha
    exact absurd rfl hk

/-- A transaction that keeps statuses and log keeps the debt. -/
theorem Owing.loyal {sha : String} {t : Tx} {r r' : Registry} {now : String} (h : Owing sha r)
    (hset : t.sets = none) (haudit : t.audits = none) (hr : t.apply r now = .ok r') :
    Owing sha r' := by
  refine ⟨h.1.loyal (loyal_of_note hset (by simp [haudit])) hr, ?_⟩
  rw [statusOf_apply hr, hset]
  exact h.2

/-- The reading of a transaction that commits. -/
theorem along_transact {α : Type} {G : Op → World → World → Prop} {t : Tx} {f : Unit → Flow α}
    {Q : Except Err α → World → Prop} {r : Registry}
    (hr : t.apply w.reg (env.clock w.ticks).iso = .ok r) (hG : ∀ o w w', G o w w')
    (hf : ∀ w', w'.reg = r → (f ()).Along (handle env) G w' Q) :
    (transact t >>= f).Along (handle env) G w Q := by
  refine along_bind.mpr ⟨hG _ _ _, ?_⟩
  simp only [handle, hr]
  exact hf _ rfl

/-- Loyal steps keep what the log states. -/
theorem audited_of_loyal {α : Type} {p : Flow α} (hp : p.Calls Op.Loyal) (h : Audited w.reg) :
    p.Along (handle env) (fun _ _ _ => True) w fun _ w' => Audited w'.reg :=
  hp.along_inv (I := fun w : World => Audited w.reg)
    (fun _ _ ho hw => ⟨trivial, audited_handle ho hw⟩) h

theorem audited_rejectBlocked {eng : Engine} {c : StagedCandidate} {opId sha : String} {n : Nat}
    {rule : RuleType × String} (h : Audited w.reg) :
    (rejectBlocked eng c opId n sha rule).Along (handle env) (fun _ _ _ => True) w
      fun _ w' => Audited w'.reg := by
  unfold rejectBlocked
  refine along_bind_inv (I := fun w => Audited w.reg) (fun _ hw => hw)
    (audited_of_loyal (calls_unlink trivial) h) fun _ w₀ h₀ => ?_
  refine along_transact rfl (fun _ _ _ => trivial) fun w₁ h₁ => ?_
  refine along_transact rfl (fun _ _ _ => trivial) fun w₂ h₂ => ?_
  have howing : Owing sha w₂.reg := by
    rw [h₂, h₁]
    exact (owing_createOrUpdateFile h₀).loyal (t := .upsertMetadataIndex c.accountName c.onedriveId n
      c.modifiedTime sha) rfl rfl rfl
  have hrow : (w₂.reg.files.get sha).isSome = true := by
    have := howing.2
    unfold Registry.statusOf at this
    cases hg : w₂.reg.files.get sha with
    | none => rw [hg] at this; cases this
    | some row => rfl
  obtain ⟨r₃, hr₃⟩ : ∃ r, (Tx.upsertFileOrigin sha c.accountName c.onedriveId
      (some c.relativePath)).apply w₂.reg (env.clock w₂.ticks).iso = .ok r := by
    simp [Tx.apply, Registry.upsertFileOrigin, hrow]
  refine along_transact hr₃ (fun _ _ _ => trivial) fun w₃ h₃ => ?_
  have howing₃ : Owing sha w₃.reg := by
    rw [h₃]
    exact howing.loyal rfl rfl hr₃
  refine along_transact rfl (fun _ _ _ => trivial) fun w₄ h₄ => ?_
  have haudited : Audited w₄.reg := by
    rw [h₄]
    exact audited_appendRejected howing₃
  have hend : (journalAppend eng opId .registryPersisted c none (some sha) >>= fun _ =>
      (pure (outcome c (.discard .rejected) (some sha) none false) : Flow IngestOutcome)).Calls
        Op.Loyal := Calls.bind (calls_journalAppend fun _ _ => trivial) fun _ => .ret
  exact audited_of_loyal hend haudited

theorem audited_rejectUnknown {sha reason actor : String} {name : Option String} {size : Nat}
    {incoming : Option Path} (h : Audited w.reg) :
    (rejectUnknown env cfg sha reason actor name size incoming).Along (handle env)
      (fun _ _ _ => True) w fun _ w' => Audited w'.reg := by
  unfold rejectUnknown
  refine along_bind.mpr ⟨trivial, ?_⟩
  have hmove : ∀ now, (movePhysicalToRejected env cfg incoming sha name now).Along (handle env)
      (fun _ _ _ => True) { w with ticks := w.ticks + 1 } fun _ w' => Audited w'.reg := fun _ =>
    audited_of_loyal (operator_movePhysicalToRejected.imp fun _ ho => ho.plain.loyal) h
  refine along_bind_inv (I := fun w => Audited w.reg) (fun _ hw => hw) (hmove _)
    fun retained w₁ h₁ => ?_
  refine along_transact rfl (fun _ _ _ => trivial) fun w₂ h₂ => ?_
  refine along_transact rfl (fun _ _ _ => trivial) fun w₃ h₃ => ?_
  change Audited w₃.reg
  rw [h₃, h₂]
  exact audited_appendRejected (owing_createOrUpdateFile h₁)

theorem steps_audited : Steps env cfg (fun _ _ _ => True) fun w => Audited w.reg where
  plain _ _ ho hw := ⟨trivial, audited_handle ho.loyal hw⟩
  unknown _ _ _ _ _ _ _ _ _ _ _ hw :=
    ⟨trivial, audited_handle (loyal_of_sets (a := .status .pending) rfl rfl rfl) hw⟩
  blocked _ _ _ _ _ _ _ hw := audited_rejectBlocked hw
  rejectUnknown _ _ _ _ _ _ _ _ _ hw := audited_rejectUnknown hw

/-! ## Every call -/

theorem calls_triageExecute {P : Op → Prop} {a : TriageAction} {item key actor : String}
    {reason : Option String} (hread : P (.replayed key)) (hnow : P .now)
    (hevent : ∀ p, p ≠ .applied → P (.tx (.triageEvent a p item reason actor)))
    (happly : ∀ now, P (.tx (.triageApply a item key reason actor now))) :
    (triageExecute a item key reason actor).Calls P := by
  unfold triageExecute
  refine Calls.bind (p := replayed key) (.op hread fun _ => .ret) fun row => ?_
  cases row with
  | some row => exact .ite .err .ret
  | none =>
    refine Calls.bind (calls_utcNow hnow) fun now => ?_
    refine Calls.bind (calls_transact (hevent _ (by decide))) fun _ => ?_
    refine Calls.bind (p := triageApply a item key reason actor now.iso)
      (.op (happly _) fun _ => .ret) fun res => ?_
    cases res with
    | ok u => exact .ret
    | error e =>
      refine Calls.bind (calls_transact (hevent _ (by decide))) fun _ => ?_
      cases e <;> exact .err

theorem loyal_triageExecute {a : TriageAction} {item key actor : String} {reason : Option String} :
    (triageExecute a item key reason actor).Calls Op.Loyal := by
  refine calls_triageExecute trivial trivial (fun p hp => ?_) fun _ =>
    loyal_of_sets (a := .triage a .applied) rfl rfl rfl
  refine loyal_of_note rfl fun sha' a' h => ?_
  cases h
  cases p with
  | applied => exact absurd rfl hp
  | _ => rfl

theorem audited_call (c : Call) (h : Audited w.reg) : Audited (c.after env cfg w).reg := by
  cases c with
  | action a =>
    cases a with
    | command c => exact along_run (steps_audited.command c h)
    | outside fs rules => exact ⟨h.ordered, h.bounded, h.denoted⟩
  | triage a item key reason actor => exact along_run (audited_of_loyal loyal_triageExecute h)
  | pruneAuthFailures keep =>
    have hprune : (Tx.pruneAuthFailureAuditBacklog keep).Loyal :=
      loyal_of_note rfl (by simp [Tx.audits])
    exact along_run (audited_of_loyal (calls_transact (P := Op.Loyal) hprune) h)

theorem audited_afterCalls : ∀ (cs : List Call) (w : World), Audited w.reg →
    Audited (afterCalls env cfg cs w).reg
  | [], _, h => h
  | c :: cs, _, h => audited_afterCalls cs _ (audited_call c h)

/-- After every run of commands, triage calls and prunes, from any registry
whose log states the statuses (an empty one, say): the newest row of a hash
that states a status states the one the hash has. -/
theorem audit_refines_status (env : Env) (cfg : CoreConfig) (cs : List Call) (w : World)
    (h : Audited w.reg) :
    ∀ sha row, (afterCalls env cfg cs w).reg.files.get sha = some row →
      ∃ a ∈ (afterCalls env cfg cs w).reg.auditLog, a.sha256 = some sha ∧
        a.action.denotes = some row.status ∧
        ∀ b ∈ (afterCalls env cfg cs w).reg.auditLog, b.sha256 = some sha →
          b.action.denotes ≠ none → b ≠ a → b.id < a.id := by
  intro sha row hrow
  have hend : Audited (afterCalls env cfg cs w).reg := audited_afterCalls cs w h
  have hst : (afterCalls env cfg cs w).reg.statusOf sha = some row.status := by
    simp [Registry.statusOf, hrow]
  obtain ⟨a, ha, hsha, hact, hmax⟩ := hend.denoted sha row.status (by simp) hst
  refine ⟨a, ha, hsha, hact, fun b hb hbsha hbact hne => ?_⟩
  exact lt_of_le_of_ne (hmax b hb hbsha hbact) fun hid => hne (hend.eq_of_id hb ha hid)

/-- The sample photo is ingested, accepted on the web and the log pruned. -/
def triagedCalls : List Call :=
  (sampleActions.take 2).map .action ++
    [.triage .accept shaA "key1" none "api", .pruneAuthFailures 0]

theorem audit_refines_status_sample :
    ∃ a ∈ (afterCalls sampleEnv sampleConfig triagedCalls
        (sampleWorld [] Registry.empty)).reg.auditLog,
      a.sha256 = some shaA ∧ a.action.denotes = some .accepted := by
  have hst : (afterCalls sampleEnv sampleConfig triagedCalls
      (sampleWorld [] Registry.empty)).reg.statusOf shaA = some .accepted := by decide +kernel
  obtain ⟨row, hrow, hrst⟩ := Option.map_eq_some_iff.mp hst
  obtain ⟨a, ha, hsha, hact, -⟩ := audit_refines_status sampleEnv sampleConfig triagedCalls
    (sampleWorld [] Registry.empty) audited_empty shaA row hrow
  exact ⟨a, ha, hsha, by rw [hact, hrst]⟩

/-! ## One transaction -/

/-- Every hash whose status changed has an audit row among the new ones. -/
def AuditsChanges (r r' : Registry) : Prop :=
  ∀ sha, r'.statusOf sha ≠ r.statusOf sha →
    ∃ new, r'.auditLog = r.auditLog ++ new ∧ ∃ a ∈ new, a.sha256 = some sha

/-- The step is no `create_or_update_file`, or one that finds the status it
writes. -/
def Op.KeepsCreatedStatus (o : Op) (r : Registry) : Prop :=
  ∀ sha n st name path, o = .tx (.createOrUpdateFile sha n st name path) → r.statusOf sha = some st

/-- Every other transaction that sets a status names its hash in an audit row. -/
theorem audits_of_sets {t : Tx} {sha : String} {st : Status} (h : t.sets = some (sha, st))
    (hc : ∀ n name path, t ≠ .createOrUpdateFile sha n st name path) :
    ∃ a, t.audits = some (some sha, a) := by
  cases t with
  | createOrUpdateFile sha' n st' name path => cases h; exact absurd rfl (hc n name path)
  | finalizeUnknownIngest | finalizeAcceptFromPending | finalizePurgeFromRejected
  | transitionStatus | triageApply => cases h; exact ⟨_, rfl⟩
  | _ => cases h

theorem auditsChanges_apply_iff {t : Tx} {r r' : Registry} {now : String}
    (hr : t.apply r now = .ok r') :
    AuditsChanges r r' ↔ (Op.tx t).KeepsCreatedStatus r := by
  constructor
  · rintro h sha n st name path ⟨⟩
    by_contra hne
    have hset : r'.statusOf sha = some st := by
      rw [statusOf_apply hr]
      simp [Tx.sets]
    obtain ⟨new, hlog, a, ha, -⟩ := h sha (by rw [hset]; exact Ne.symm hne)
    cases hr
    -- the log is as it was, so nothing is new
    have hnil : new = [] := List.append_right_eq_self.mp hlog.symm
    rw [hnil] at ha
    cases ha
  · intro h sha hne
    rw [statusOf_apply hr] at hne
    cases hs : t.sets with
    | none => rw [hs] at hne; exact absurd rfl hne
    | some set =>
      obtain ⟨k, st⟩ := set
      simp only [hs] at hne
      split at hne
      · next hk =>
        subst hk
        have hc : ∀ n name path, t ≠ .createOrUpdateFile sha n st name path := by
          rintro n name path rfl
          exact hne (h sha n st name path rfl).symm
        obtain ⟨a, ha⟩ := audits_of_sets hs hc
        have hp : ∀ keep, t ≠ .pruneAuthFailureAuditBacklog keep := by
          rintro keep rfl
          cases hs
        have hlogs := logs_apply hr hp
        rw [ha] at hlogs
        cases hlogs with
        | row row hlog _ hnote _ =>
          exact ⟨[row], hlog, row, List.mem_singleton_self _, congrArg Prod.fst hnote⟩
      · exact absurd rfl hne

/-- In every flow over the registry (the batch, the replay, the CLI commands, the
triage service), from every state: a step that changes statuses writes their
audit rows itself exactly if it is no `create_or_update_file` that changes one. -/
theorem status_changes_audited_iff (env : Env) {α : Type} (p : Flow α) (w : World) :
    ∀ e ∈ p.trace (handle env) w,
      (AuditsChanges e.pre.reg e.post.reg ↔ e.op.KeepsCreatedStatus e.pre.reg) := by
  rintro ⟨o, pre, post⟩ he
  obtain rfl : post = (handle env o pre).2 := trace_post _ he
  have hsame : AuditsChanges pre.reg pre.reg := fun sha hne => absurd rfl hne
  cases o with
  | tx t =>
    simp only [handle]
    cases hr : t.apply pre.reg (env.clock pre.ticks).iso with
    | ok r => exact auditsChanges_apply_iff hr
    | error e =>
      refine iff_of_true hsame ?_
      rintro sha n st name path ⟨⟩
      cases hr
  | _ =>
    rw [handle_reg rfl]
    exact iff_of_true hsame fun _ _ _ _ _ h => by cases h

/-- Accepting the sample photo: its transaction writes the audit row. -/
theorem status_changes_audited_accept :
    ∃ e ∈ (acceptSha256 sampleEnv sampleConfig shaA none "cli").trace (handle sampleEnv)
        standingWorld,
      e.post.reg.statusOf shaA ≠ e.pre.reg.statusOf shaA ∧ AuditsChanges e.pre.reg e.post.reg := by
  have hstep : ∃ e ∈ (acceptSha256 sampleEnv sampleConfig shaA none "cli").trace (handle sampleEnv)
      standingWorld, e.post.reg.statusOf shaA ≠ e.pre.reg.statusOf shaA := by decide +kernel
  obtain ⟨e, he, hne⟩ := hstep
  have hplain : Op.Plain e.op := along_trace
    ((operator_acceptSha256.imp fun _ ho => ho.plain).along_inv
    (G := fun o _ _ => Op.Plain o) (I := fun _ => True) (fun _ _ ho hw => ⟨ho, hw⟩) trivial) e he
  refine ⟨e, he, hne, (status_changes_audited_iff sampleEnv _ standingWorld e he).mpr ?_⟩
  intro sha n st name path hop
  rw [hop] at hplain
  cases hplain

/-- Rejecting an unknown hash commits its row before any audit row. -/
theorem rejectUnknown_unaudited :
    ∃ e ∈ (rejectSha256 sampleEnv sampleConfig shaA none "cli").trace (handle sampleEnv)
        (sampleWorld [] Registry.empty), ¬ AuditsChanges e.pre.reg e.post.reg := by
  have hstep : ∃ e ∈ (rejectSha256 sampleEnv sampleConfig shaA none "cli").trace (handle sampleEnv)
      (sampleWorld [] Registry.empty), e.post.reg.statusOf shaA ≠ e.pre.reg.statusOf shaA ∧
        e.post.reg.auditLog = e.pre.reg.auditLog := by decide +kernel
  obtain ⟨e, he, hne, hlog⟩ := hstep
  refine ⟨e, he, fun h => ?_⟩
  obtain ⟨new, hnew, a, ha, -⟩ := h shaA hne
  rw [hlog] at hnew
  rw [List.append_right_eq_self.mp hnew.symm] at ha
  cases ha

end Nightfall
