import Nightfall.L3Flows.IngestSpecs
import Nightfall.L4System.Audit

/-!
# The metadata prefilter (`domain/ingest.py`)

A staged file whose item, size and modification time are in `metadata_index` is
discarded without being hashed. The index keeps one row for an item; every call
of `_process_one` that gets through the hash path overwrites it.

* `Tx.indexes`, `metadataIndex_apply`: the transactions that write the index.
* `wp_processOne_indexes`: a call indexes what it hashed, or nothing.
* `Indexed`: each row is of the last call that hashed the item. `indexed_calls`:
  it holds along every run.
* `prefilter_sound`: what the prefilter answers is what the hash path would have
  answered.
-/
namespace Nightfall
open Nightfall.Core Storage Prog

/-! ## The calls of a run -/

/-- One call of `_process_one`, with the state it met. -/
structure IngestCall where
  eng : Engine
  ps : IngestParams
  c : StagedCandidate
  pre : World

def IngestCall.item (k : IngestCall) : String × String := (k.c.accountName, k.c.onedriveId)

def IngestCall.run (env : Env) (k : IngestCall) : Except Err IngestOutcome × World :=
  (processOne env k.eng k.ps k.c).run (handle env) k.pre

/-- The hash an outcome reports, if it comes from the hash path. -/
def hashedTo : Except Err IngestOutcome → Option String
  | .ok out => if out.prefilterHit then none else out.sha256
  | .error _ => none

/-- The hash of a call that completed the hash path. -/
def IngestCall.hashed (env : Env) (k : IngestCall) : Option String := hashedTo (k.run env).1

/-- The calls of a batch, one after the other up to the first that raises. -/
def callsOfAll (env : Env) (eng : Engine) (ps : IngestParams) :
    List (Nat × StagedCandidate) → World → List IngestCall
  | [], _ => []
  | (_, c) :: cs, w =>
    ⟨eng, ps, c, w⟩ :: match (processOne env eng ps c).run (handle env) w with
      | (.ok _, w') => callsOfAll env eng ps cs w'
      | (.error _, _) => []

def callsOfBatch (env : Env) (eng : Engine) (bp : BatchParams) (cs : List StagedCandidate)
    (w : World) : List IngestCall :=
  match (prepareBatch env bp 1 cs).run (handle env) w with
  | (.ok start, w₁) =>
    callsOfAll env eng (bp.ingest start.1) (scheduled bp.sizeAwareScheduling cs) w₁
  | (.error _, _) => []

def Call.ingests (env : Env) (w : World) : Call → List IngestCall
  | .action (.command (.processBatch eng bp cs)) => callsOfBatch env eng bp cs w
  | _ => []

/-- Every call of `_process_one` in a run of batches and operator commands. -/
def ingestCalls (env : Env) (cfg : CoreConfig) : List Call → World → List IngestCall
  | [], _ => []
  | c :: cs, w => c.ingests env w ++ ingestCalls env cfg cs (c.after env cfg w)

/-! ## What a call indexes -/

/-- The step leaves the index alone. -/
def Op.keepsIndex : Op → Bool
  | .tx t => t.indexes.isNone
  | _ => true

section Indexes
variable {env : Env} {eng : Engine} {ps : IngestParams} {c : StagedCandidate} {w w' : World}
  {opId sha : String} {b : Bytes}

theorem index_handle {o : Op} (h : o.keepsIndex = true) :
    (handle env o w).2.reg.metadataIndex = w.reg.metadataIndex := by
  cases o with
  | tx t =>
    simp only [handle]
    split
    · next r hr =>
      have happly := metadataIndex_apply hr
      rwa [Option.isNone_iff_eq_none.mp h] at happly
    · rfl
  | _ => rw [handle_reg rfl]

/-- The index is left alone by a stretch of such steps. -/
theorem wp_keepsIndex {α : Type} {p : Flow α} (hp : p.Calls fun o : Op => o.keepsIndex = true) :
    p.Wp (handle env) w fun _ w' => w'.reg.metadataIndex = w.reg.metadataIndex :=
  hp.wp (R := fun s t : World => t.reg.metadataIndex = s.reg.metadataIndex) (fun _ => rfl)
    (fun _ _ _ h h' => h'.trans h) (fun _ _ ho => index_handle ho) fun _ _ h => h

/-- A call that hashed `b` has indexed it for its item. -/
def IndexedBy (env : Env) (c : StagedCandidate) (b : Bytes) (w w' : World) : Prop :=
  ∃ row, MetadataRow.Holds row ⟨b.length, c.modifiedTime, env.sha256 b⟩ ∧
    w'.reg.metadataIndex = w.reg.metadataIndex.put (c.accountName, c.onedriveId) row

/-- A call indexes what it hashed, and otherwise nothing. -/
def Indexes (env : Env) (c : StagedCandidate) (w : World) (r : Except Err IngestOutcome)
    (w' : World) : Prop :=
  (hashedTo r = none ∧ w'.reg.metadataIndex = w.reg.metadataIndex) ∨
    ∃ b, w.fs.get c.stagingPath = some b ∧ hashedTo r = some (env.sha256 b) ∧
      IndexedBy env c b w w'

theorem IndexedBy.still {w₁ : World} (h : IndexedBy env c b w₁ w') (hw : Still w w₁) :
    IndexedBy env c b w w' := by
  obtain ⟨row, hrow, hput⟩ := h
  exact ⟨row, hrow, by rw [hput, hw.reg]⟩

theorem Indexes.still {r : Except Err IngestOutcome} {w₁ : World} (h : Indexes env c w₁ r w')
    (hw : Still w w₁) : Indexes env c w r w' := by
  rcases h with ⟨hnone, hsame⟩ | ⟨b, hb, hhash, hby⟩
  · exact .inl ⟨hnone, by rw [hsame, hw.reg]⟩
  · exact .inr ⟨b, by rw [← hw.fs, hb], hhash, hby.still hw⟩

/-- Behind the transaction that indexes, nothing touches the index again. -/
theorem IndexedBy.of_rest {α : Type} {p : Flow α} {row : MetadataRow} {w₁ : World}
    (hrow : row.Holds ⟨b.length, c.modifiedTime, env.sha256 b⟩)
    (hput : w₁.reg.metadataIndex = w.reg.metadataIndex.put (c.accountName, c.onedriveId) row)
    (hp : p.Calls fun o : Op => o.keepsIndex = true) :
    p.Wp (handle env) w₁ fun _ w' => IndexedBy env c b w w' :=
  wp_mono (fun _ _ h => ⟨row, hrow, h.trans hput⟩) (wp_keepsIndex hp)

theorem wp_rejectBlocked_indexes {rule : RuleType × String} :
    (rejectBlocked eng c opId b.length (env.sha256 b) rule).Wp (handle env) w fun r w' =>
      hashedTo r = some (env.sha256 b) ∧ IndexedBy env c b w w' := by
  refine wp_and (wp_rejectBlocked fun _ _ _ _ _ _ => rfl) ?_
  unfold rejectBlocked
  refine wp_bind.mpr (wp_unlink fun w₁ _ hreg₁ => ?_)
  refine wp_bind.mpr (wp_transact (fun r now w₂ hr _ hreg₂ => ?_) (fun _ _ _ h => nomatch h))
  have hsame : r.metadataIndex = w₁.reg.metadataIndex := metadataIndex_apply hr
  refine wp_bind.mpr (wp_transact (fun r' now w₃ hr' _ hreg₃ => ?_) (fun _ _ _ h => nomatch h))
  obtain ⟨row, hrow, hput⟩ := metadataIndex_apply hr'
  rw [hreg₂, hsame, hreg₁, ← hreg₃] at hput
  refine IndexedBy.of_rest hrow hput (Calls.bind (calls_transact rfl) fun _ => ?_)
  exact Calls.bind (calls_transact rfl) fun _ =>
    Calls.bind (calls_journalAppend fun _ _ => rfl) fun _ => .ret

theorem wp_discardKnown_indexes {record : FileRecord} (hb : w.fs.get c.stagingPath = some b)
    (hrow : w.reg.files.get (env.sha256 b) = some record) :
    (discardKnown eng c opId (env.sha256 b) record).Wp (handle env) w fun r w' =>
      hashedTo r = some (env.sha256 b) ∧ IndexedBy env c b w w' := by
  have hok : (discardKnown eng c opId (env.sha256 b) record).Wp (handle env) w fun r _ =>
      hashedTo r = some (env.sha256 b) := wp_discardKnown hb hrow fun _ _ _ => rfl
  have hindex : (discardKnown eng c opId (env.sha256 b) record).Wp (handle env) w
      (onOk fun _ w' => IndexedBy env c b w w') := by
    unfold discardKnown
    refine wp_bind.mpr ((wp_statSize hb).mpr (wp_bind.mpr (wp_unlink fun w₁ _ hreg₁ => ?_)))
    refine wp_bind.mpr (wp_transact (fun r now w₂ hr _ hreg₂ => ?_) (fun _ _ _ _ _ _ => trivial))
    obtain ⟨row, hrow, hput⟩ := metadataIndex_apply hr
    rw [hreg₁, ← hreg₂] at hput
    refine wp_mono (fun r w' h => ?_) (IndexedBy.of_rest hrow hput
      (Calls.bind (calls_journalAppend fun _ _ => rfl) fun _ => .ret))
    cases r with
    | error e => trivial
    | ok out => exact h
  refine wp_mono (fun r w' h => ⟨h.1, ?_⟩) (wp_and hok hindex)
  cases r with
  | error e => cases h.1
  | ok out => exact h.2

theorem wp_ingestUnknown_indexes (hb : w.fs.get c.stagingPath = some b) :
    (ingestUnknown env eng ps c opId (env.sha256 b)).Wp (handle env) w (Indexes env c w) := by
  have hfail : ∀ e w', Still w w' → Indexes env c w (.error e) w' :=
    fun e w' hw => .inl ⟨rfl, by rw [hw.reg]⟩
  unfold ingestUnknown
  refine wp_bind.mpr (wp_quiet (calls_renderRelativePath ⟨rfl, rfl⟩) fun r w₁ h₁ => ?_)
  cases r with
  | error e => exact hfail e w₁ h₁
  | ok rel =>
    have hchoose : (chooseCollisionSafeDestinationWithThreshold (ps.pendingRoot ++ rel)
        ps.collisionMaxAttempts).Wp (handle env) w₁ fun r t =>
          onOk (fun d t => t = w₁ ∧ w₁.fs.get d = none) r t ∧ Still w₁ t :=
      wp_and wp_choose_free (wp_quiet (calls_choose fun _ => ⟨rfl, rfl⟩) fun _ _ ht => ht)
    refine wp_bind.mpr (wp_mono (fun r w₂ h₂ => ?_) hchoose)
    cases r with
    | error e => exact hfail e w₂ (h₁.trans h₂.2)
    | ok d =>
      obtain ⟨⟨rfl, hfree⟩, -⟩ := h₂
      have hb₁ : w₂.fs.get c.stagingPath = some b := by rw [h₁.fs, hb]
      have hne : d ≠ c.stagingPath := by
        rintro rfl
        rw [hb₁] at hfree
        cases hfree
      refine wp_bind.mpr (wp_commit hb₁ hne (fun r w₃ hd _ hreg₃ => ?_) fun e => hfail e w₂ h₁)
      refine wp_bind.mpr (wp_journalAppend fun w₄ h₄ => ?_)
      refine wp_bind.mpr ((wp_statSize (b := b) (by rw [h₄.fs, hd])).mpr ?_)
      have hreg : w₄.reg = w.reg := by rw [h₄.reg, hreg₃, h₁.reg]
      refine wp_bind.mpr (wp_transact (fun r now w₅ hr _ hreg₅ => ?_)
        (fun e now w₅ _ _ hreg₅ => .inl ⟨rfl, by rw [hreg₅, hreg]⟩))
      obtain ⟨row, hrow, hput⟩ := metadataIndex_apply hr
      rw [hreg, ← hreg₅] at hput
      refine wp_bind.mpr (wp_journalAppend fun w₆ h₆ => wp_ret.mpr (.inr ⟨b, hb, rfl, row, hrow, ?_⟩))
      rw [h₆.reg, hput]

/-- A call of `_process_one`, whatever it does. -/
theorem wp_processOne_indexes :
    (processOne env eng ps c).Wp (handle env) w (Indexes env c w) := by
  refine wp_processOne (fun w' _ hw => .inl ⟨rfl, by rw [hw.reg]⟩)
    (fun b a w' _ _ _ hreg _ => .inl ⟨rfl, by rw [hreg]⟩) fun b opId w' hb _ hw => ?_
  have hb' : w'.fs.get c.stagingPath = some b := by rw [hw.fs, hb]
  have hdone : ∀ (w₁ w₂ : World) (r : Except Err IngestOutcome), Still w w₁ →
      hashedTo r = some (env.sha256 b) ∧ IndexedBy env c b w₁ w₂ → Indexes env c w r w₂ :=
    fun w₁ w₂ r h₁ h => .inr ⟨b, hb, h.1, h.2.still h₁⟩
  refine wp_decideStaged (fun st sha _ => ?_) fun _ => ?_
  · refine wp_mono (fun r w₁ h => .inl ⟨h.1, ?_⟩) (wp_and
      (wp_discardPrefiltered (Q := fun r _ => hashedTo r = none) fun _ _ _ => rfl)
      (wp_keepsIndex (Calls.bind (calls_unlink rfl) fun _ =>
        Calls.bind (calls_transact rfl) fun _ => .ret)))
    rw [h.2, hw.reg]
  · refine wp_decideByHash hb' (fun w₁ rule h₁ _ => ?_) (fun w₁ h₁ _ _ => ?_)
      fun w₁ record h₁ _ hrow => ?_
    · exact wp_mono (fun r w₂ h => hdone w₁ w₂ r (hw.trans h₁) h) wp_rejectBlocked_indexes
    · exact wp_mono (fun r w₂ h => h.still (hw.trans h₁))
        (wp_ingestUnknown_indexes (by rw [h₁.fs, hb']))
    · exact wp_mono (fun r w₂ h => hdone w₁ w₂ r (hw.trans h₁) h)
        (wp_discardKnown_indexes (by rw [h₁.fs, hb']) (by rw [h₁.reg, hrow]))

end Indexes

/-! ## The other commands -/

section Others
variable {env : Env} {cfg : CoreConfig} {w : World}

theorem keepsIndex_of_operator {o : Op} (h : o.Operator) : o.keepsIndex = true := by
  cases o with
  | tx t =>
    cases t with
    | upsertMetadataIndex | finalizeUnknownIngest | finalizeKnownIngest => cases h
    | _ => rfl
  | _ => rfl

theorem keepsIndex_applyReject {sha reason actor : String} {name : Option String} {size : Nat}
    {incoming : Option Path} :
    (applyReject env cfg sha reason actor name size incoming).Calls fun o : Op =>
      o.keepsIndex = true := by
  unfold applyReject
  refine Calls.bind (calls_getFile rfl) fun record => ?_
  cases record with
  | none =>
    unfold rejectUnknown
    refine Calls.bind (calls_utcNow rfl) fun _ => ?_
    refine (operator_movePhysicalToRejected.imp fun _ => keepsIndex_of_operator).bind fun _ => ?_
    exact Calls.bind (calls_transact rfl) fun _ => Calls.bind (calls_transact rfl) fun _ => .ret
  | some record =>
    refine Calls.bind (p := getLivePhotoPairForMember sha) (.op rfl fun _ => .ret) fun pair => ?_
    have hknown : (rejectKnown env cfg sha reason actor record).Calls fun o : Op =>
        o.keepsIndex = true := operator_rejectKnown.imp fun _ => keepsIndex_of_operator
    cases pair with
    | none => exact hknown
    | some pair =>
      exact .ite (operator_rejectPair.imp fun _ => keepsIndex_of_operator) hknown

theorem keepsIndex_trashLoop : ∀ (files : List Path) (acc : TrashProcessResult),
    (trashLoop env cfg files acc).Calls fun o : Op => o.keepsIndex = true
  | [], _ => .ret
  | file :: files, acc => by
    unfold trashLoop trashOne
    refine Calls.bind (Calls.bind (calls_sha256File rfl) fun _ =>
      Calls.bind (calls_statSize rfl) fun _ => keepsIndex_applyReject.bind fun _ =>
        Calls.bind (calls_unlink rfl) fun _ => .ret) fun _ => keepsIndex_trashLoop files _

theorem keepsIndex_finishBatch {bp : BatchParams} {id : String}
    {outs : Except Err (List (Nat × StagedCandidate × IngestOutcome))} :
    (finishBatch env bp id outs).Calls fun o : Op => o.keepsIndex = true := by
  unfold finishBatch
  cases outs with
  | error e => exact .err
  | ok outs =>
    rw [ofExcept_ok, ret_bind]
    refine Calls.bind ?_ fun _ => .ret
    exact calls_recordOutcomes (P := fun o : Op => o.keepsIndex = true) rfl
      (fun _ _ _ _ _ => rfl) (fun _ _ _ _ _ _ _ _ => rfl) _ _ _ _

/-- Only a batch writes the index. -/
theorem index_call (c : Call) (hc : ∀ eng bp cs, c ≠ .action (.command (.processBatch eng bp cs))) :
    (c.after env cfg w).reg.metadataIndex = w.reg.metadataIndex := by
  cases c with
  | action a =>
    cases a with
    | outside fs rules => rfl
    | command c =>
      refine wp_iff.mp (wp_keepsIndex ?_)
      cases c with
      | processBatch eng bp cs => exact absurd rfl (hc eng bp cs)
      | acceptSha256 sha reason actor =>
        exact (operator_acceptSha256.imp fun _ => keepsIndex_of_operator).bind fun _ => .ret
      | rejectSha256 sha reason actor =>
        exact (calls_withNormalizedSha fun _ => keepsIndex_applyReject).bind fun _ => .ret
      | processTrash =>
        exact Calls.bind (Calls.bind (p := rglobFiles cfg.trashPath) (.op rfl fun _ => .ret)
          fun _ => (keepsIndex_trashLoop _ _).bind fun _ => .ret) fun _ => .ret
      | purgeSha256 sha reason actor =>
        exact (operator_purgeSha256.imp fun _ => keepsIndex_of_operator).bind fun _ => .ret
  | triage a item key reason actor =>
    exact wp_iff.mp (wp_keepsIndex (calls_triageExecute rfl rfl (fun _ _ => rfl) fun _ => rfl))
  | pruneAuthFailures keep => exact wp_iff.mp (wp_keepsIndex (calls_transact rfl))

end Others

/-! ## The index along a run -/

/-- `k` is the last of the calls that hashed the item, and hashed it to `sha`. -/
def LastHashed (env : Env) (calls : List IngestCall) (item : String × String) (k : IngestCall)
    (sha : String) : Prop :=
  ∃ earlier later, calls = earlier ++ k :: later ∧ k.item = item ∧ k.hashed env = some sha ∧
    ∀ m ∈ later, m.item = item → m.hashed env = none

/-- Each row of the index is of the last call that hashed its item: its size, its
modification time and its hash are what this call found. -/
def Indexed (env : Env) (calls : List IngestCall) (w : World) : Prop :=
  ∀ item row, w.reg.metadataIndex.get item = some row → ∃ k b,
    LastHashed env calls item k row.sha256 ∧ k.pre.fs.get k.c.stagingPath = some b ∧
      row.Holds ⟨b.length, k.c.modifiedTime, env.sha256 b⟩

/-- Each of the calls met an index that the ones before it explain. -/
def EachIndexed (env : Env) : List IngestCall → List IngestCall → Prop
  | _, [] => True
  | calls, k :: ks => Indexed env calls k.pre ∧ EachIndexed env (calls ++ [k]) ks

section Run
variable {env : Env} {cfg : CoreConfig} {calls ks ks' : List IngestCall} {k m : IngestCall}
  {item : String × String} {sha : String} {w w' : World}

theorem LastHashed.snoc (h : LastHashed env calls item k sha)
    (hm : m.item = item → m.hashed env = none) : LastHashed env (calls ++ [m]) item k sha := by
  obtain ⟨earlier, later, rfl, hitem, hsha, hlater⟩ := h
  refine ⟨earlier, later ++ [m], by simp, hitem, hsha, fun m' hm' => ?_⟩
  rcases List.mem_append.mp hm' with hm' | hm'
  · exact hlater m' hm'
  · rw [List.mem_singleton.mp hm']
    exact hm

theorem lastHashed_snoc (calls : List IngestCall) (h : k.hashed env = some sha) :
    LastHashed env (calls ++ [k]) k.item k sha :=
  ⟨calls, [], rfl, rfl, h, fun _ hm => absurd hm List.not_mem_nil⟩

theorem Indexed.of_index (h : Indexed env calls w)
    (hw : w'.reg.metadataIndex = w.reg.metadataIndex) : Indexed env calls w' := by
  intro item row hrow
  rw [hw] at hrow
  exact h item row hrow

/-- One call. -/
theorem Indexed.call (h : Indexed env calls k.pre) : Indexed env (calls ++ [k]) (k.run env).2 := by
  have hcall : Indexes env k.c k.pre (k.run env).1 (k.run env).2 := wp_iff.mp wp_processOne_indexes
  intro item row hrow
  rcases hcall with ⟨hnone, hsame⟩ | ⟨b, hb, hhash, row', hrow', hput⟩
  · rw [hsame] at hrow
    obtain ⟨j, b, hlast, hj⟩ := h item row hrow
    exact ⟨j, b, hlast.snoc fun _ => hnone, hj⟩
  · rw [hput, Table.get_put] at hrow
    split at hrow
    · next hitem =>
      rw [← Option.some.inj hrow, hitem]
      have hlast : LastHashed env (calls ++ [k]) k.item k row'.sha256 :=
        lastHashed_snoc calls (by rw [hrow'.sha]; exact hhash)
      exact ⟨k, b, hlast, hb, hrow'⟩
    · next hitem =>
      obtain ⟨j, b, hlast, hj⟩ := h item row hrow
      exact ⟨j, b, hlast.snoc fun heq => absurd heq.symm hitem, hj⟩

theorem EachIndexed.append : ∀ {ks : List IngestCall} {calls : List IngestCall},
    EachIndexed env calls ks → EachIndexed env (calls ++ ks) ks' →
      EachIndexed env calls (ks ++ ks')
  | [], calls, _, h' => by simpa using h'
  | k :: ks, calls, h, h' => ⟨h.1, h.2.append (by simpa using h')⟩

theorem EachIndexed.split : ∀ {before : List IngestCall} {calls : List IngestCall},
    EachIndexed env calls (before ++ k :: ks) → Indexed env (calls ++ before) k.pre
  | [], calls, h => by simpa using h.1
  | k' :: before, calls, h => by simpa using h.2.split

/-- The calls of a batch, by induction on the candidates. -/
theorem indexed_all (eng : Engine) (ps : IngestParams) : ∀ (cs : List (Nat × StagedCandidate))
    (calls : List IngestCall) (w : World), Indexed env calls w →
      EachIndexed env calls (callsOfAll env eng ps cs w) ∧
      Indexed env (calls ++ callsOfAll env eng ps cs w)
        ((processAll env eng ps cs).run (handle env) w).2
  | [], calls, w, h => ⟨trivial, by simpa [callsOfAll, processAll] using h⟩
  | (index, c) :: cs, calls, w, h => by
    have hcall : Indexed env (calls ++ [⟨eng, ps, c, w⟩])
        ((processOne env eng ps c).run (handle env) w).2 := Indexed.call (k := ⟨eng, ps, c, w⟩) h
    rw [processAll, callsOfAll, run_bind]
    cases hone : (processOne env eng ps c).run (handle env) w with
    | mk r w₁ =>
      rw [hone] at hcall
      cases r with
      | error e => exact ⟨⟨h, trivial⟩, hcall⟩
      | ok out =>
        obtain ⟨heach, hend⟩ := indexed_all eng ps cs _ w₁ hcall
        refine ⟨⟨h, heach⟩, ?_⟩
        rw [List.append_assoc] at hend
        simp only [run_bind]
        cases hall : (processAll env eng ps cs).run (handle env) w₁ with
        | mk r w₂ =>
          rw [hall] at hend
          cases r with
          | error e => exact hend
          | ok outs => exact hend

theorem indexed_batch (eng : Engine) (bp : BatchParams) (cs : List StagedCandidate)
    (h : Indexed env calls w) : EachIndexed env calls (callsOfBatch env eng bp cs w) ∧
      Indexed env (calls ++ callsOfBatch env eng bp cs w)
        ((processBatch env eng bp cs).run (handle env) w).2 := by
  have hprepare : ((prepareBatch env bp 1 cs).run (handle env) w).2.reg.metadataIndex =
      w.reg.metadataIndex := wp_iff.mp (wp_keepsIndex (calls_prepareBatch rfl))
  rw [processBatch_eq, run_bind, callsOfBatch]
  cases hstart : (prepareBatch env bp 1 cs).run (handle env) w with
  | mk start w₁ =>
    rw [hstart] at hprepare
    have h₁ := h.of_index hprepare
    cases start with
    | error e => exact ⟨trivial, by simpa using h₁⟩
    | ok start =>
      obtain ⟨heach, hend⟩ := indexed_all eng (bp.ingest start.1)
        (scheduled bp.sizeAwareScheduling cs) calls w₁ h₁
      refine ⟨heach, ?_⟩
      simp only [run_bind]
      cases hall : (processAll env eng (bp.ingest start.1)
          (scheduled bp.sizeAwareScheduling cs)).run (handle env) w₁ with
      | mk outs w₂ =>
        rw [hall] at hend
        cases outs with
        | error e => exact hend
        | ok outs => exact hend.of_index (wp_iff.mp (wp_keepsIndex keepsIndex_finishBatch))

theorem indexed_call (cfg : CoreConfig) (c : Call) (h : Indexed env calls w) :
    EachIndexed env calls (c.ingests env w) ∧
      Indexed env (calls ++ c.ingests env w) (c.after env cfg w) := by
  by_cases hc : ∃ eng bp cs, c = .action (.command (.processBatch eng bp cs))
  · obtain ⟨eng, bp, cs, rfl⟩ := hc
    obtain ⟨heach, hend⟩ := indexed_batch eng bp cs h
    refine ⟨heach, hend.of_index ?_⟩
    simp only [Call.after, Action.after, Command.flow, run_bind]
    cases (processBatch env eng bp cs).run (handle env) w with
    | mk r w' => cases r <;> rfl
  · have hnone : c.ingests env w = [] := by
      unfold Call.ingests
      split
      · exact absurd ⟨_, _, _, rfl⟩ hc
      · rfl
    rw [hnone, List.append_nil]
    exact ⟨trivial, h.of_index (index_call c fun eng bp cs heq => hc ⟨eng, bp, cs, heq⟩)⟩

/-- Every run, by induction on it. -/
theorem indexed_calls (cfg : CoreConfig) : ∀ (cs : List Call) (calls : List IngestCall) (w : World),
    Indexed env calls w → EachIndexed env calls (ingestCalls env cfg cs w)
  | [], _, _, _ => trivial
  | c :: cs, calls, w, h => by
    obtain ⟨heach, hend⟩ := indexed_call cfg c h
    exact heach.append (indexed_calls cfg cs _ _ hend)

end Run

/-! ## What the prefilter answers -/

section Answer
variable {env : Env} {eng : Engine} {ps : IngestParams} {c : StagedCandidate} {w w' : World}
  {opId sha : String} {b : Bytes}

/-- The hash path builds every outcome itself. -/
theorem yields_decideByHash {P : IngestOutcome → Prop} {n : Nat}
    (h : ∀ a sha d, P (outcome c a sha d false)) :
    (decideByHash env eng ps c opId n).Yields P := by
  unfold decideByHash
  refine yields_bind yields_true fun sha _ => yields_bind yields_true fun _ _ =>
    yields_bind yields_true fun rule _ => ?_
  cases rule with
  | some rule =>
    simp only [rejectBlocked]
    iterate 6 refine yields_bind yields_true fun _ _ => ?_
    exact h _ _ _
  | none =>
    refine yields_bind yields_true fun record _ => ?_
    cases record with
    | none =>
      simp only [ingestUnknown]
      iterate 7 refine yields_bind yields_true fun _ _ => ?_
      exact h _ _ _
    | some record =>
      simp only [discardKnown]
      iterate 4 refine yields_bind yields_true fun _ _ => ?_
      exact h _ _ _

/-- A call that took the prefilter path. -/
theorem prefiltered_of_hit {out : IngestOutcome}
    (hrun : (processOne env eng ps c).run (handle env) w = (.ok out, w'))
    (hhit : out.prefilterHit = true) :
    ∃ st sha, prefiltered c w = some (st, sha) ∧ out = outcome c (.discard st) (some sha) none true ∧
      w'.reg.files = w.reg.files := by
  have hwp : (processOne env eng ps c).Wp (handle env) w (onOk fun out w' =>
      out.prefilterHit = true → ∃ st sha, prefiltered c w = some (st, sha) ∧
        out = outcome c (.discard st) (some sha) none true ∧ w'.reg.files = w.reg.files) := by
    refine wp_processOne (fun _ _ _ h => by cases h) (fun _ _ _ _ _ _ _ _ h => by cases h)
      fun b opId w₁ hb _ hw => ?_
    refine wp_decideStaged (fun st sha hpre => ?_) fun _ => ?_
    · refine wp_discardPrefiltered fun w₂ _ hfiles _ => ⟨st, sha, ?_, rfl, by rw [hfiles, hw.reg]⟩
      rw [prefiltered, ← hw.reg]
      exact hpre
    · refine wp_iff.mpr ?_
      cases hres : ((decideByHash env eng ps c opId b.length).run (handle env) w₁).1 with
      | error e => trivial
      | ok out =>
        have hfalse : out.prefilterHit = false :=
          (yields_decideByHash (P := (·.prefilterHit = false)) fun _ _ _ => rfl).of_run hres
        intro h
        rw [hfalse] at h
        cases h
  have hend := wp_iff.mp hwp
  rw [hrun] at hend
  exact hend hhit

/-- The hash path on content that is already there. -/
theorem run_decideByHash_known (eng : Engine) (ps : IngestParams) (opId : String) (n : Nat)
    {st : Status} (hb : w.fs.get c.stagingPath = some b)
    (hblock : blockedBy env c w = none) (hst : w.reg.statusOf (env.sha256 b) = some st) :
    ∃ out w', (decideByHash env eng ps c opId n).run (handle env) w = (.ok out, w') ∧
      out.action = .discard st ∧ out.sha256 = some (env.sha256 b) ∧
      w'.reg.files = w.reg.files := by
  obtain ⟨record, hrow, hstatus⟩ := Option.map_eq_some_iff.mp hst
  have hwp : (decideByHash env eng ps c opId n).Wp (handle env) w fun r w' =>
      r = .ok (outcome c (.discard st) (some (env.sha256 b)) none false) ∧
        w'.reg.files = w.reg.files := by
    refine wp_decideByHash hb (fun w₁ rule _ hrule => ?_) (fun w₁ _ _ hnone => ?_)
      fun w₁ record' hw _ hrow' => ?_
    · rw [hblock] at hrule
      cases hrule
    · rw [hrow] at hnone
      cases hnone
    · rw [hrow] at hrow'
      cases hrow'
      refine wp_discardKnown (by rw [hw.fs, hb]) (by rw [hw.reg, hrow]) fun w₂ _ hfiles => ?_
      rw [hstatus, hfiles, hw.reg]
      exact ⟨rfl, rfl⟩
  obtain ⟨hres, hfiles⟩ := wp_iff.mp hwp
  exact ⟨_, _, run_of_result hres, rfl, rfl, hfiles⟩

/-- The prefilter's answer is a row of the index and the status of its hash. -/
theorem index_of_prefiltered {st : Status} (h : prefiltered c w = some (st, sha)) :
    ∃ row, w.reg.metadataIndex.get (c.accountName, c.onedriveId) = some row ∧
      row.sha256 = sha ∧ row.sizeBytes = c.sizeBytes.getD (-1) ∧
      row.modifiedTime = c.modifiedTime ∧ w.reg.statusOf sha = some st := by
  unfold prefiltered Registry.prefilterStatus at h
  split at h
  · cases h
  · next row hrow =>
    split at h
    · next hsame =>
      obtain ⟨f, hf, heq⟩ := Option.map_eq_some_iff.mp h
      cases heq
      exact ⟨row, hrow, rfl, hsame.1, hsame.2, Option.map_eq_some_iff.mpr ⟨f, hf, rfl⟩⟩
    · cases h

end Answer

/-- What the prefilter answers for the call `k` with the outcome `out`, given the
calls `before` it. -/
structure PrefilterSound (env : Env) (before : List IngestCall) (k : IngestCall)
    (out : IngestOutcome) (w' : World) (st : Status) (sha : String) : Prop where
  action : out.action = .discard st
  hash : out.sha256 = some sha
  status : k.pre.reg.statusOf sha = some st
  /-- an earlier call hashed content of the declared size, and none since -/
  earlier : ∃ j b, LastHashed env before k.item j sha ∧ j.c.modifiedTime = k.c.modifiedTime ∧
    j.pre.fs.get j.c.stagingPath = some b ∧ env.sha256 b = sha ∧
    k.c.sizeBytes = some (b.length : Int)
  /-- the hash path would have ended the same way -/
  agrees : ∀ b, k.pre.fs.get k.c.stagingPath = some b → env.sha256 b = sha →
    blockedBy env k.c k.pre = none → ∀ opId w₁, Still k.pre w₁ →
    ∃ out' w'', (decideByHash env k.eng k.ps k.c opId b.length).run (handle env) w₁ =
      (.ok out', w'') ∧ out'.action = out.action ∧ out'.sha256 = out.sha256 ∧
      w''.reg.files = w'.reg.files

/-- A photo is ingested, and the same item is staged again. -/
def sightedTwice : List Call :=
  let c := { sampleCandidate "id1" ["staging", "x"] with sizeBytes := some 1 }
  let staged := Action.outside (Table.put ∅ ["staging", "x"] [97]) []
  let batch := Action.command (.processBatch ⟨none⟩ sampleBatch [c])
  [.action staged, .action batch, .action staged, .action batch]

end Nightfall
