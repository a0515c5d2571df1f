import Nightfall.L3Flows.ThreadPool
import Nightfall.L4System.System
import Nightfall.L5Recovery.Replay

/-!
# Replay after batches that returned (`domain/ingest.py`)

`replay_interrupted_operations` takes every operation without a
`registry_persisted` record for interrupted. Only three of the ways in which
`_process_one` returns write that record: the staged file has to be there, pass
the size checks and miss the prefilter.

* `Closed`: every note is followed by the `registry_persisted` note of its
  operation; what a rotation leaves of a closed list is closed.
* `safe_processOne_checks`: a call whose checks all pass ends its notes so,
  whatever other threads do.
* `CleanRun`: batches on one or more threads and outside changes in between.
* `replay_noop`: the replay after such a run changes nothing but the journal.
-/
namespace Nightfall
open Nightfall.Core Storage Prog

/-! ## Notes -/

/-- What the replay looks at in a record: the operation and the phase. -/
abbrev Note := String × JournalPhase

/-- Every note has the last note of its operation at or behind it. -/
def Closed : List Note → Prop
  | [] => True
  | x :: l => (x.1, .registryPersisted) ∈ x :: l ∧ Closed l

/-- The notes of one operation, complete. -/
def Complete (l : List Note) : Prop :=
  ∃ id front, l = front ++ [(id, .registryPersisted)] ∧ ∀ x ∈ front, x.1 = id

theorem Closed.append {l l' : List Note} (h : Closed l) (h' : Closed l') : Closed (l ++ l') := by
  induction l with
  | nil => exact h'
  | cons x l ih =>
    have hlast : (x.1, JournalPhase.registryPersisted) ∈ (x :: l) ++ l' :=
      List.mem_append_left _ h.1
    exact ⟨hlast, ih h.2⟩

theorem Closed.suffix {l l' : List Note} (h : Closed l) (hs : l' <:+ l) : Closed l' := by
  induction l with
  | nil => rw [List.suffix_nil.mp hs]; trivial
  | cons x l ih =>
    rcases List.suffix_cons_iff.mp hs with rfl | hs
    · exact h
    · exact ih h.2 hs

theorem Closed.last {l : List Note} {x : Note} (h : Closed l) (hx : x ∈ l) :
    (x.1, .registryPersisted) ∈ l := by
  induction l with
  | nil => cases hx
  | cons y l ih =>
    rcases List.mem_cons.mp hx with rfl | hx
    · exact h.1
    · exact List.mem_cons_of_mem _ (ih h.2 hx)

theorem Complete.mem {l : List Note} {x : Note} (h : Complete l) (hx : x ∈ l) :
    (x.1, .registryPersisted) ∈ l := by
  obtain ⟨id, front, rfl, hid⟩ := h
  have hx1 : x.1 = id := by
    rcases List.mem_append.mp hx with hx | hx
    · exact hid x hx
    · rw [List.mem_singleton.mp hx]
  rw [hx1]
  simp

/-- What is left of a complete list. -/
theorem Complete.tail {l : List Note} {x : Note} (h : Complete (x :: l)) :
    l = [] ∨ Complete l := by
  obtain ⟨id, front, heq, hid⟩ := h
  cases front with
  | nil =>
    left
    exact (List.cons.inj heq).2
  | cons y front =>
    right
    exact ⟨id, front, (List.cons.inj heq).2, fun z hz => hid z (List.mem_cons_of_mem _ hz)⟩

/-- The note an operation leaves. -/
def Op.note : Op → Option Note
  | .journalAppend _ rec => some (pyStrip rec.opId, rec.phase)
  | _ => none

def noted (h : List (Event Ops World)) : List Note := h.filterMap (·.op.note)

@[simp] theorem noted_append (h h' : List (Event Ops World)) :
    noted (h ++ h') = noted h ++ noted h' := List.filterMap_append

/-- The step leaves the journal alone. -/
def Op.Silent (o : Op) : Prop := o.writesJournal = false

theorem note_of_silent {o : Op} (h : o.Silent) : o.note = none := by
  cases o with
  | journalAppend m rec => cases h
  | _ => rfl

/-- Calls that are complete one by one, in any interleaving. -/
theorem closed_of_own {ι : Type} [DecidableEq ι] : ∀ {t : List (ι × Event Ops World)},
    (∀ i, noted (own i t) = [] ∨ Complete (noted (own i t))) → Closed (noted (t.map (·.2)))
  | [], _ => trivial
  | (i, e) :: t, h => by
    have hi := h i
    rw [own_cons_self] at hi
    have hrest : ∀ j, j ≠ i → noted (own j t) = [] ∨ Complete (noted (own j t)) := by
      intro j hj
      have := h j
      rwa [own_cons_ne hj.symm] at this
    cases hn : e.op.note with
    | none =>
      simp only [noted, List.map_cons, List.filterMap_cons, hn] at hi ⊢
      refine closed_of_own fun j => ?_
      by_cases hj : j = i
      · subst hj; exact hi
      · exact hrest j hj
    | some x =>
      simp only [noted, List.map_cons, List.filterMap_cons, hn] at hi ⊢
      have hc : Complete (x :: noted (own i t)) := hi.resolve_left (by simp)
      refine ⟨?_, closed_of_own fun j => ?_⟩
      · -- the own last note is among those of all
        have hmem := hc.mem List.mem_cons_self
        rcases List.mem_cons.mp hmem with heq | hmem
        · rw [← heq]; exact List.mem_cons_self
        · refine List.mem_cons_of_mem _ ?_
          obtain ⟨e', he', hnote⟩ := List.mem_filterMap.mp hmem
          exact List.mem_filterMap.mpr ⟨e', List.mem_map_of_mem (mem_own.mp he'), hnote⟩
      · by_cases hj : j = i
        · subst hj; exact hc.tail
        · exact hrest j hj

/-! ## The journal behind the notes -/

/-- The notes the replay can read. -/
def recorded (j : Journal) : List Note := j.readAll.map fun r => (r.opId, r.phase)

/-- The step keeps the journal or appends a record whose id is not blank. -/
def Op.Notes : Op → Prop
  | .journalAppend _ rec => pyStrip rec.opId ≠ ""
  | .journalClear => False
  | _ => True

theorem notes_of_silent {o : Op} (h : o.Silent) : o.Notes := by
  cases o with
  | journalAppend m rec => cases h
  | journalClear => cases h
  | _ => trivial

section Recorded
variable {env : Env} {w w' : World}

theorem recorded_handle {o : Op} (h : o.Notes) :
    recorded (handle env o w).2.journal <:+ recorded w.journal ++ o.note.toList := by
  cases hj : o.writesJournal with
  | false =>
    rw [handle_journal hj, note_of_silent hj]
    simp
  | true =>
    cases o with
    | journalAppend m rec =>
      rcases Journal.readAll_append w.journal env.lineBytes m
        { rec with ts := (env.clock w.ticks).iso } h with hr | hr
      · simp only [recorded, handle, hr, List.map_append]
        exact List.suffix_refl _
      · simp only [recorded, handle, hr]
        exact List.suffix_append _ _
    | journalClear => exact h.elim
    | _ => cases hj

/-- What can be read after a run stands at the end of what was there and what
the run noted. -/
theorem recorded_run {ι : Type} [DecidableEq ι] {α : ι → Type} {P P' : Pool ι Ops Err α}
    {t : List (ι × Event Ops World)} (hrun : Run (handle env) P w t P' w')
    (hnotes : ∀ e ∈ t, e.2.op.Notes) :
    recorded w'.journal <:+ recorded w.journal ++ noted (t.map (·.2)) := by
  induction hrun with
  | refl P s => simp [noted]
  | @step _ _ s _ t i o k _ rest ih =>
    have hstep : recorded (handle env o s).2.journal <:+ recorded s.journal ++ o.note.toList :=
      recorded_handle (hnotes _ List.mem_cons_self)
    refine (ih fun e he => hnotes e (List.mem_cons_of_mem _ he)).trans ?_
    have hcons : noted (((i, (⟨o, s, (handle env o s).2⟩ : Event Ops World)) :: t).map (·.2)) =
        o.note.toList ++ noted (t.map (·.2)) := by
      simp only [noted, List.map_cons, List.filterMap_cons]
      cases o.note <;> rfl
    rw [hcons, ← List.append_assoc]
    obtain ⟨front, hfront⟩ := hstep
    exact ⟨front, by rw [← hfront, List.append_assoc]⟩

/-- A program that never writes the journal. -/
theorem journal_of_silent {α : Type} {p : Flow α} {r : Except Err α} (hp : p.Calls Op.Silent)
    (hrun : p.run (handle env) w = (r, w')) : w'.journal = w.journal := by
  have hsilent : p.Wp (handle env) w fun _ t => t.journal = w.journal :=
    hp.wp (R := fun s t : World => t.journal = s.journal) (fun _ => rfl)
      (fun _ _ _ h h' => h'.trans h) (fun _ _ ho => handle_journal ho) fun _ _ h => h
  have hend := wp_iff.mp hsilent
  rwa [hrun] at hend

end Recorded

/-! ## One call -/

/-- What the three checks of `_process_one` have to find: the staged file, a size
they let through, no row of the same metadata. -/
def Op.Settles (ps : IngestParams) (c : StagedCandidate) : Op → World → Prop
  | .pathExists p, w => p = c.stagingPath → (w.fs.get p).isSome
  | .statSize p, w => p = c.stagingPath → ∀ b, w.fs.get p = some b → Admitted ps c b.length
  | .prefilterStatus _ _ _ _, w => prefiltered c w = none
  | _, _ => True

/-- The checks are among the first five steps of a call; other threads may do
anything in between. -/
def checking (ps : IngestParams) (c : StagedCandidate) : Contract Ops World where
  rely _ _ _ := True
  cond h o s := h.length < 5 → o.Settles ps c s
  guar o _ _ := o.Notes
  rely_refl _ _ := trivial
  rely_trans _ _ _ _ _ _ := trivial

/-- A call that returns has completed its notes. -/
def Completes (r : Except Err IngestOutcome) (h : List (Event Ops World)) (_ : World) : Prop :=
  ∀ out, r = .ok out → Complete (noted h)

section Call
variable {env : Env} {m : Nat} {ps : IngestParams} {c : StagedCandidate} {opId : String}
  {h : List (Event Ops World)} {s : World}

/-- Steps that write no journal. -/
theorem safe_silent {α : Type} {p : Flow α}
    {Q : Except Err α → List (Event Ops World) → World → Prop}
    (hp : p.Calls Op.Silent)
    (hQ : ∀ r h' t, noted h' = [] → Q r (h ++ h') t) :
    Safe (handle env) (checking ps c) Q p h s := by
  refine safe_calls (R := fun _ _ => True) (fun _ _ _ _ _ => trivial) (fun _ _ _ _ => trivial)
    (fun o _ ho => ⟨notes_of_silent ho, trivial⟩) hp fun r h' t _ hh => hQ r h' t ?_
  refine List.filterMap_eq_nil_iff.mpr fun e he => ?_
  exact note_of_silent (hh e he).1

theorem safe_note {phase : JournalPhase} {d : Option Path} {sha : Option String}
    {Q : Except Err Unit → List (Event Ops World) → World → Prop} (hid : pyStrip opId ≠ "")
    (hQ : ∀ e t, e.op.note = some (pyStrip opId, phase) → Q (.ok ()) (h ++ [e]) t) :
    Safe (handle env) (checking ps c) Q (journalAppend ⟨some m⟩ opId phase c d sha) h s := by
  intro s₁ _ _
  exact ⟨hid, fun s₂ _ => hQ _ s₂ rfl⟩

/-- The last note of a call. -/
theorem safe_persisted {d : Option Path} {sha : Option String} {out : IngestOutcome}
    (hid : pyStrip opId ≠ "") (hown : ∀ x ∈ noted h, x.1 = pyStrip opId) :
    Safe (handle env) (checking ps c) Completes
      (journalAppend ⟨some m⟩ opId .registryPersisted c d sha >>= fun _ =>
        (pure out : Flow IngestOutcome)) h s := by
  refine safe_bind (safe_note hid fun e t he => ?_)
  intro s₁ _ out' _
  have hnote : noted [e] = [(pyStrip opId, .registryPersisted)] := by
    simp [noted, he]
  exact ⟨pyStrip opId, noted h, by rw [noted_append, hnote], hown⟩

/-- A step that raises leaves nothing to show. -/
theorem completes_error {α : Type} {f : α → Flow IngestOutcome} {e : Err} :
    thenSafe (handle env) (checking ps c) f Completes (.error e) h s := by
  intro s₁ _ out hout
  cases hout

/-- A silent stretch in front of the rest of a call. -/
theorem safe_silent_bind {α : Type} {p : Flow α} {f : α → Flow IngestOutcome}
    (hp : p.Calls Op.Silent)
    (hown : ∀ x ∈ noted h, x.1 = pyStrip opId)
    (hf : ∀ a h' t, (∀ x ∈ noted h', x.1 = pyStrip opId) →
      Safe (handle env) (checking ps c) Completes (f a) h' t) :
    Safe (handle env) (checking ps c) Completes (p >>= f) h s := by
  refine safe_bind (safe_silent hp fun r h' t hh => ?_)
  cases r with
  | error e => exact completes_error
  | ok a =>
    refine hf a _ t ?_
    rw [noted_append, hh, List.append_nil]
    exact hown

theorem safe_rejectBlocked_checks {n : Nat} {sha : String} {rule : RuleType × String}
    (hid : pyStrip opId ≠ "") (hown : ∀ x ∈ noted h, x.1 = pyStrip opId) :
    Safe (handle env) (checking ps c) Completes
      (rejectBlocked ⟨some m⟩ c opId n sha rule) h s := by
  unfold rejectBlocked
  refine safe_silent_bind (calls_unlink rfl) hown fun _ h₁ s₁ hown₁ => ?_
  refine safe_silent_bind (calls_transact rfl) hown₁ fun _ h₂ s₂ hown₂ => ?_
  refine safe_silent_bind (calls_transact rfl) hown₂ fun _ h₃ s₃ hown₃ => ?_
  refine safe_silent_bind (calls_transact rfl) hown₃ fun _ h₄ s₄ hown₄ => ?_
  refine safe_silent_bind (calls_transact rfl) hown₄ fun _ h₅ s₅ hown₅ => ?_
  exact safe_persisted hid hown₅

theorem safe_discardKnown_checks {sha : String} {record : FileRecord} (hid : pyStrip opId ≠ "")
    (hown : ∀ x ∈ noted h, x.1 = pyStrip opId) :
    Safe (handle env) (checking ps c) Completes (discardKnown ⟨some m⟩ c opId sha record) h s := by
  unfold discardKnown
  refine safe_silent_bind (calls_statSize rfl) hown fun _ h₁ s₁ hown₁ => ?_
  refine safe_silent_bind (calls_unlink rfl) hown₁ fun _ h₂ s₂ hown₂ => ?_
  refine safe_silent_bind (calls_transact rfl) hown₂ fun _ h₃ s₃ hown₃ => ?_
  exact safe_persisted hid hown₃

/-- One note more of the same operation. -/
theorem own_snoc {e : Event Ops World} {phase : JournalPhase}
    (hown : ∀ x ∈ noted h, x.1 = pyStrip opId) (he : e.op.note = some (pyStrip opId, phase)) :
    ∀ x ∈ noted (h ++ [e]), x.1 = pyStrip opId := by
  intro x hx
  rw [noted_append] at hx
  rcases List.mem_append.mp hx with hx | hx
  · exact hown x hx
  · have hxe : x = (pyStrip opId, phase) := by simpa [noted, he] using hx
    rw [hxe]

theorem own_skip {e : Event Ops World} (hown : ∀ x ∈ noted h, x.1 = pyStrip opId)
    (he : e.op.note = none) : ∀ x ∈ noted (h ++ [e]), x.1 = pyStrip opId := by
  have hnone : noted [e] = [] := by simp [noted, he]
  rw [noted_append, hnone, List.append_nil]
  exact hown

theorem safe_ingestUnknown_checks {sha : String} (hid : pyStrip opId ≠ "")
    (hown : ∀ x ∈ noted h, x.1 = pyStrip opId) :
    Safe (handle env) (checking ps c) Completes
      (ingestUnknown env ⟨some m⟩ ps c opId sha) h s := by
  unfold ingestUnknown
  refine safe_silent_bind (calls_renderRelativePath rfl) hown fun _ h₁ s₁ hown₁ => ?_
  refine safe_silent_bind (calls_choose fun _ => rfl) hown₁ fun d h₂ s₂ hown₂ => ?_
  refine safe_silent_bind (calls_commit fun _ _ ho => ho) hown₂ fun _ h₃ s₃ hown₃ => ?_
  refine safe_bind (safe_note hid fun e t he => ?_)
  refine safe_silent_bind (calls_statSize rfl) (own_snoc hown₃ he) fun _ h₄ s₄ hown₄ => ?_
  refine safe_silent_bind (calls_transact rfl) hown₄ fun _ h₅ s₅ hown₅ => ?_
  exact safe_persisted hid hown₅

theorem safe_decideByHash_checks {n : Nat} (hid : pyStrip opId ≠ "")
    (hown : ∀ x ∈ noted h, x.1 = pyStrip opId) :
    Safe (handle env) (checking ps c) Completes
      (decideByHash env ⟨some m⟩ ps c opId n) h s := by
  unfold decideByHash
  refine safe_silent_bind (calls_sha256File rfl) hown fun sha h₁ s₁ hown₁ => ?_
  refine safe_bind (safe_note hid fun e s₂ he => ?_)
  have hrules : (matchBlockRule env c.originalFilename).Calls Op.Silent :=
    Calls.bind (.op rfl fun _ => .ret) fun _ => .ret
  refine safe_silent_bind hrules (own_snoc hown₁ he) fun rule h₃ s₃ hown₃ => ?_
  cases rule with
  | some rule => exact safe_rejectBlocked_checks hid hown₃
  | none =>
    refine safe_silent_bind (calls_getFile rfl) hown₃ fun row h₄ s₄ hown₄ => ?_
    cases row with
    | none => exact safe_ingestUnknown_checks hid hown₄
    | some record => exact safe_discardKnown_checks hid hown₄

/-- Behind the size checks only the prefilter can still end a call without its
last note. -/
theorem safe_decideStaged_checks {n : Nat} (hid : pyStrip opId ≠ "")
    (hown : ∀ x ∈ noted h, x.1 = pyStrip opId) (hlen : h.length < 5) :
    Safe (handle env) (checking ps c) Completes
      (decideStaged env ⟨some m⟩ ps c opId n) h s := by
  unfold decideStaged
  refine safe_bind fun s₁ _ hpre => ⟨trivial, fun s₂ _ => ?_⟩
  have hmiss : prefiltered c s₁ = none := hpre hlen
  simp only [handle, show s₁.reg.prefilterStatus c.accountName c.onedriveId c.sizeBytes
    c.modifiedTime = none from hmiss, thenSafe_ok]
  exact safe_decideByHash_checks hid (own_skip hown rfl)

/-- Whatever the other threads do: a call that returns and whose checks passed
has completed its notes. -/
theorem safe_processOne_checks (s : World) :
    Safe (handle env) (checking ps c) Completes (processOne env ⟨some m⟩ ps c) [] s := by
  unfold processOne
  refine safe_bind fun s₁ _ _ => ⟨trivial, fun s₂ _ => ?_⟩
  have hid := opId_ne_empty c (env.uuid s₁.draws)
  refine safe_bind (safe_note hid fun e t he => ?_)
  have hown := own_snoc (h := [⟨.uuid4, s₁, (handle env .uuid4 s₁).2⟩]) (by simp [noted, Op.note]) he
  -- the first check
  refine safe_bind fun s₃ _ hfound => ⟨trivial, fun s₄ _ => ?_⟩
  have hsome : (s₃.fs.get c.stagingPath).isSome = true := hfound (by simp) rfl
  simp only [handle, hsome, thenSafe_ok, if_true]
  -- the second
  refine safe_bind fun s₅ _ hsize => ⟨trivial, ?_⟩
  simp only [handle]
  cases hb : s₅.fs.get c.stagingPath with
  | none => exact fun s₆ _ => completes_error
  | some b =>
    have hadm : Admitted ps c b.length := hsize (by simp) rfl b hb
    intro s₆ _
    simp only [thenSafe_ok, hadm.1, Bool.false_eq_true, if_false,
      if_neg (hadm.not_zero .reject (by decide)), if_neg (hadm.not_zero .quarantine (by decide))]
    exact safe_decideStaged_checks hid (own_skip (own_skip hown rfl) rfl) (by simp)

end Call

/-! ## One batch -/

/-- The staged file is there when the call starts, its size passes and no row
has the same metadata. -/
def Settles (ps : IngestParams) (c : StagedCandidate) (w : World) : Prop :=
  ∃ b, w.fs.get c.stagingPath = some b ∧ Admitted ps c b.length ∧ prefiltered c w = none

/-- Every candidate settles at its turn. -/
def SettlesAll (env : Env) (eng : Engine) (ps : IngestParams) :
    List (Nat × StagedCandidate) → World → Prop
  | [], _ => True
  | (_, c) :: cs, w => Settles ps c w ∧
      SettlesAll env eng ps cs ((processOne env eng ps c).run (handle env) w).2

/-- The checks of every call of a pool pass, where each call makes them. -/
def PoolSettles (ps : IngestParams) (cs : List (Nat × StagedCandidate))
    (t : List (Fin cs.length × Event Ops World)) : Prop :=
  ∀ i, ∀ e ∈ (own i t).take 5, e.op.Settles ps (cs.get i).2 e.pre

section Batch
variable {env : Env} {m : Nat} {ps : IngestParams} {c : StagedCandidate} {w w' : World}

theorem condsFrom_of_take : ∀ {t h : List (Event Ops World)},
    (∀ e ∈ t.take (5 - h.length), e.op.Settles ps c e.pre) → CondsFrom (checking ps c) h t
  | [], _, _ => trivial
  | e :: t, h, ht => by
    refine ⟨fun hlen => ?_, condsFrom_of_take fun e' he' => ?_⟩
    · have hpos : 5 - h.length = (4 - h.length) + 1 := by omega
      rw [hpos, List.take_succ_cons] at ht
      exact ht e List.mem_cons_self
    · rw [List.length_append, List.length_singleton] at he'
      by_cases hlen : h.length < 5
      · have hpos : 5 - h.length = (5 - (h.length + 1)) + 1 := by omega
        rw [hpos, List.take_succ_cons] at ht
        exact ht e' (List.mem_cons_of_mem _ he')
      · have hzero : 5 - (h.length + 1) = 0 := by omega
        rw [hzero, List.take_zero] at he'
        cases he'

/-- The notes of a party whose checks pass and which returned, and that it noted
nothing amiss. -/
theorem completes_own {ι : Type} [DecidableEq ι] {P P' : Pool ι Ops Err fun _ => IngestOutcome}
    {t : List (ι × Event Ops World)} {i : ι} {out : IngestOutcome}
    (hrun : Run (handle env) P w t P' w') (hP : P i = processOne env ⟨some m⟩ ps c)
    (hout : (P' i).result = some (.ok out))
    (hset : ∀ e ∈ (own i t).take 5, e.op.Settles ps c e.pre) :
    (∀ e ∈ own i t, e.op.Notes) ∧ Complete (noted (own i t)) := by
  have hmeets : Meets (checking ps c) i [] t :=
    meets_of_condsFrom (fun _ _ _ => trivial) (condsFrom_of_take hset)
  obtain ⟨hguar, hsafe⟩ := safe_run (Q := Completes) hrun (by rw [hP]; exact safe_processOne_checks w)
    hmeets
  exact ⟨hguar, hsafe.result hout out rfl⟩

theorem closed_pooled {cs : List (Nat × StagedCandidate)}
    {t : List (Fin cs.length × Event Ops World)} {outs : Fin cs.length → IngestOutcome}
    (hpool : Pooled env ⟨some m⟩ ps cs w t (fun i => .ok (outs i)) w') (hset : PoolSettles ps cs t)
    (hclosed : Closed (recorded w.journal)) : Closed (recorded w'.journal) := by
  obtain ⟨P', hrun, hres⟩ := hpool.ran
  have hown := fun i => completes_own hrun rfl (hres i) (hset i)
  refine (hclosed.append (closed_of_own fun i => .inr (hown i).2)).suffix
    (recorded_run hrun fun e he => ?_)
  exact (hown e.1).1 e.2 (mem_own.mpr he)

/-- Alone, a call makes its checks in the state it starts in. -/
theorem settles_trace (h : Settles ps c w) :
    ∀ e ∈ ((processOne env ⟨some m⟩ ps c).trace (handle env) w).take 5,
      e.op.Settles ps c e.pre := by
  obtain ⟨b, hb, hadm, hmiss⟩ := h
  have hsize : ∀ b', w.fs.get c.stagingPath = some b' → Admitted ps c b'.length := by
    intro b' hb'
    rw [hb] at hb'
    cases hb'
    exact hadm
  simp only [processOne, uuid4, journalAppend, pathExists, statSize, op_bind, ret_bind, trace,
    handle, hb, Option.isSome_some, if_true, Option.map_some, hadm.1, Bool.false_eq_true, if_false,
    if_neg (hadm.not_zero .reject (by decide)), if_neg (hadm.not_zero .quarantine (by decide)),
    decideStaged, prefilterStatus, List.take_succ_cons, List.take_zero, List.forall_mem_cons]
  exact ⟨trivial, trivial, fun _ => by simp [hb], fun _ => hsize, hmiss, by simp⟩

theorem own_unit (h : List (Event Ops World)) : own () (h.map ((), ·)) = h := by
  induction h with
  | nil => rfl
  | cons e h ih => rw [List.map_cons, own_cons_self, ih]

theorem result_ended {α : Type} (r : Except Err α) :
    (Prog.ended r : Flow α).result = some r := by
  cases r <;> rfl

theorem closed_processOne {out : IngestOutcome}
    (hrun : (processOne env ⟨some m⟩ ps c).run (handle env) w = (.ok out, w'))
    (hset : Settles ps c w) (hclosed : Closed (recorded w.journal)) :
    Closed (recorded w'.journal) := by
  have halone := run_alone (handle env) (processOne env ⟨some m⟩ ps c) w
  rw [hrun] at halone
  have hown := completes_own (i := ()) halone rfl (result_ended _)
    (by rw [own_unit]; exact settles_trace hset)
  refine (hclosed.append (closed_of_own fun _ => .inr hown.2)).suffix
    (recorded_run halone fun e he => ?_)
  exact hown.1 e.2 (mem_own.mpr he)

theorem closed_processAll : ∀ {cs : List (Nat × StagedCandidate)}
    {outs : List (Nat × StagedCandidate × IngestOutcome)} {w w' : World},
    (processAll env ⟨some m⟩ ps cs).run (handle env) w = (.ok outs, w') →
    SettlesAll env ⟨some m⟩ ps cs w → Closed (recorded w.journal) → Closed (recorded w'.journal)
  | [], _, w, w', hrun, _, hclosed => by
    cases hrun
    exact hclosed
  | (i, c) :: cs, outs, w, w', hrun, hset, hclosed => by
    obtain ⟨out, w₁, hone, hrest⟩ := run_bind_ok hrun
    obtain ⟨outs', w₂, hall, hend⟩ := run_bind_ok hrest
    cases hend
    have hset' : SettlesAll env ⟨some m⟩ ps cs w₁ := by
      have := hset.2
      rwa [hone] at this
    exact closed_processAll hall hset' (closed_processOne hone hset.1 hclosed)

theorem silent_finishBatch {bp : BatchParams} {batchRunId : String}
    {outs : Except Err (List (Nat × StagedCandidate × IngestOutcome))} :
    (finishBatch env bp batchRunId outs).Calls Op.Silent := by
  unfold finishBatch
  cases outs with
  | error e => exact .err
  | ok outs =>
    have hrecord : ∀ l, (recordOutcomes env bp.livePhotoHeuristics batchRunId 0 [] ∅ l).Calls
        Op.Silent := fun l =>
      calls_recordOutcomes (P := Op.Silent) rfl (fun _ _ _ _ _ => rfl)
        (fun _ _ _ _ _ _ _ _ => rfl) l 0 [] ∅
    exact (hrecord _).bind fun _ => .ret

end Batch

/-! ## Whole runs -/

/-- The states that batches with a journal reach, all of which returned and in
each of which every candidate settled. Between two batches anything but the
journal may change. -/
inductive CleanRun (env : Env) : World → Prop
  | start {w : World} (hj : w.journal.readAll = []) : CleanRun env w
  | outside {w w' : World} (h : CleanRun env w) (hj : w'.journal = w.journal) : CleanRun env w'
  | batch {w w' : World} {m : Nat} {bp : BatchParams} {cs : List StagedCandidate}
      {r : IngestBatchResult} (h : CleanRun env w)
      (hrun : (processBatch env ⟨some m⟩ bp cs).run (handle env) w = (.ok r, w'))
      (hset : ∀ start w₁, (prepareBatch env bp 1 cs).run (handle env) w = (.ok start, w₁) →
        SettlesAll env ⟨some m⟩ (bp.ingest start.1) (scheduled bp.sizeAwareScheduling cs) w₁) :
      CleanRun env w'
  | pooled {w w₁ w₂ w' : World} {m : Nat} {bp : BatchParams} {workerCount : Int}
      {cs : List StagedCandidate} {start : ZeroBytePolicy × String}
      {t : List (Fin (scheduled bp.sizeAwareScheduling cs).length × Event Ops World)}
      {outs : Fin (scheduled bp.sizeAwareScheduling cs).length → IngestOutcome}
      {r : IngestBatchResult} (h : CleanRun env w)
      (hstart : (prepareBatch env bp workerCount cs).run (handle env) w = (.ok start, w₁))
      (hpool : Pooled env ⟨some m⟩ (bp.ingest start.1) (scheduled bp.sizeAwareScheduling cs) w₁ t
        (fun i => .ok (outs i)) w₂)
      (hset : PoolSettles (bp.ingest start.1) (scheduled bp.sizeAwareScheduling cs) t)
      (hend : (finishBatch env bp start.2 (gathered _ fun i => .ok (outs i))).run (handle env) w₂ =
        (.ok r, w')) : CleanRun env w'

theorem CleanRun.closed {env : Env} {w : World} (h : CleanRun env w) :
    Closed (recorded w.journal) := by
  induction h with
  | start hj => rw [recorded, hj]; trivial
  | outside _ hj ih => rw [hj]; exact ih
  | @batch w w' m bp cs r _ hrun hset ih =>
    rw [processBatch_eq] at hrun
    obtain ⟨start, w₁, hstart, hrest⟩ := run_bind_ok hrun
    obtain ⟨outs, w₂, hall, hend⟩ := run_bind_ok hrest
    have hbefore : w₁.journal = w.journal := journal_of_silent (calls_prepareBatch rfl) hstart
    rw [journal_of_silent silent_finishBatch hend]
    exact closed_processAll hall (hset start w₁ hstart) (by rw [hbefore]; exact ih)
  | @pooled w w₁ w₂ w' m bp workerCount cs start t outs r _ hstart hpool hset hend ih =>
    have hbefore : w₁.journal = w.journal := journal_of_silent (calls_prepareBatch rfl) hstart
    rw [journal_of_silent silent_finishBatch hend]
    exact closed_pooled hpool hset (by rw [hbefore]; exact ih)

theorem replayOps_closed : ∀ {ops : List (String × List JournalRecord)} {acc : ReplayResult},
    ops.filter interrupted = [] → replayOps ops acc = .ret acc
  | [], _, _ => rfl
  | (opId, recs) :: rest, acc, h => by
    have hop : interrupted (opId, recs) = false := by
      cases hop : interrupted (opId, recs) with
      | false => rfl
      | true => simp [hop] at h
    have hrest : rest.filter interrupted = [] := by
      simpa [hop] using h
    unfold replayOps
    cases hlast : recs.getLast? with
    | none => exact replayOps_closed hrest
    | some latest =>
      have hdone : recs.any (·.phase == .registryPersisted) = true := by
        have hne : recs.isEmpty = false := by
          cases recs with
          | nil => cases hlast
          | cons r rs => rfl
        simpa [interrupted, hne] using hop
      simp only [hdone, if_true]
      exact replayOps_closed hrest

/-- Nothing in a closed journal is interrupted. -/
theorem interrupted_closed {recs : List JournalRecord}
    (h : Closed (recs.map fun r => (r.opId, r.phase))) :
    (Journal.byOp recs).filter interrupted = [] := by
  rw [← List.map_eq_nil_iff (f := (·.1)), List.eq_nil_iff_forall_not_mem]
  intro id hid
  obtain ⟨⟨r, hr, hrid⟩, hno⟩ := mem_interrupted.mp hid
  obtain ⟨r', hr', heq⟩ := List.mem_map.mp (h.last (List.mem_map_of_mem hr))
  obtain ⟨hid', hphase⟩ := Prod.mk.inj heq
  exact hno r' hr' (hid'.trans hrid) hphase

/-- After any such run the replay reports nothing interrupted, and it changes
neither a file nor the registry. -/
theorem replay_noop (env : Env) (m : Nat) (w : World) (h : CleanRun env w) :
    (replayInterruptedOperations ⟨some m⟩).run (handle env) w =
      (.ok ⟨0, 0, 0, []⟩, { w with journal := w.journal.clear }) := by
  have hops : replayOps (Journal.byOp w.journal.readAll) ⟨0, 0, 0, []⟩ = .ret ⟨0, 0, 0, []⟩ :=
    replayOps_closed (interrupted_closed h.closed)
  show (replayOps (Journal.byOp w.journal.readAll) ⟨0, 0, 0, []⟩ >>= fun result =>
    journalClear >>= fun _ => pure result).run (handle env) w = _
  rw [hops]
  rfl

/-! ## An empty file -/

def emptyRejected : BatchParams := { sampleBatch with zeroBytePolicy := "reject" }

/-- The world after a batch that deleted an empty file and after a photo was
staged under the same path. -/
def restagedWorld : World :=
  let w := ((processBatch sampleEnv ⟨some 5242880⟩ emptyRejected
    [sampleCandidate "id1" ["staging", "x"]]).run (handle sampleEnv)
    (sampleWorld [(["staging", "x"], [])] Registry.empty)).2
  { w with fs := w.fs.put ["staging", "x"] [97] }

/-- The batch returns, and the replay behind it deletes the photo. -/
theorem restaged_removed :
    ((processBatch sampleEnv ⟨some 5242880⟩ emptyRejected
      [sampleCandidate "id1" ["staging", "x"]]).run (handle sampleEnv)
      (sampleWorld [(["staging", "x"], [])] Registry.empty)).1.toOption.isSome = true ∧
    ((replayInterruptedOperations ⟨some 5242880⟩).run (handle sampleEnv) restagedWorld).1 =
      .ok ⟨1, 0, 1, ["alice:id1:123456789abc"]⟩ ∧
    restagedWorld.fs.get ["staging", "x"] = some [97] ∧
    ((replayInterruptedOperations ⟨some 5242880⟩).run (handle sampleEnv) restagedWorld).2.fs.get
      ["staging", "x"] = none := by
  decide +kernel

/-- A photo that was ingested. -/
def cleanWorld : World :=
  ((processBatch sampleEnv ⟨some 5242880⟩ sampleBatch [sampleCandidate "id1" ["staging", "x"]]).run
    (handle sampleEnv) (sampleWorld [(["staging", "x"], [97])] Registry.empty)).2

theorem cleanWorld_noop : (replayInterruptedOperations ⟨some 5242880⟩).run (handle sampleEnv)
    cleanWorld = (.ok ⟨0, 0, 0, []⟩, { cleanWorld with journal := cleanWorld.journal.clear }) := by
  have hres : ((processBatch sampleEnv ⟨some 5242880⟩ sampleBatch
      [sampleCandidate "id1" ["staging", "x"]]).run (handle sampleEnv)
      (sampleWorld [(["staging", "x"], [97])] Registry.empty)).1 = .ok (batchResult
        [outcome (sampleCandidate "id1" ["staging", "x"]) .pending (some shaA)
          (some ["lib", "pending", "2024", "01", "IMG.JPG"]) false]) := by decide +kernel
  refine replay_noop sampleEnv 5242880 cleanWorld (.batch (.start (by decide +kernel))
    (run_of_result hres) fun start w₁ hstart => ?_)
  have hpolicy : ((prepareBatch sampleEnv sampleBatch 1
      [sampleCandidate "id1" ["staging", "x"]]).run (handle sampleEnv)
      (sampleWorld [(["staging", "x"], [97])] Registry.empty)).1.toOption.map (·.1) =
        some .allow := by decide +kernel
  have hw₁ : ((prepareBatch sampleEnv sampleBatch 1
      [sampleCandidate "id1" ["staging", "x"]]).run (handle sampleEnv)
      (sampleWorld [(["staging", "x"], [97])] Registry.empty)).2 = w₁ := by rw [hstart]
  rw [hstart] at hpolicy
  have hallow : start.1 = .allow := Option.some.inj hpolicy
  rw [hallow]
  subst hw₁
  refine ⟨⟨[97], ?_, ?_, ?_⟩, trivial⟩
  · decide +kernel
  · decide +kernel
  · decide +kernel

end Nightfall
