import Nightfall.Core.Confluence
import Nightfall.Core.Lists
import Nightfall.L4System.Prefilter
import Nightfall.L5Recovery.FailedBatch

/-!
# The account of a batch (`domain/ingest.py`)

`process_batch` submits the candidates by size, takes the results of the calls
with their indexes, sorts them back and counts them. The account is complete for
every worker count and every interleaving of the calls.

* `BatchReturned`: a batch that returns, with what its calls returned.
* `ordered_eq`: sorting by index restores the order of the candidates.
* `recorded_rows`: the loop over the outcomes adds one terminal row for each.
* `batch_accounted`: outcomes, counts and terminal rows of a whole batch.
-/
namespace Nightfall
open Nightfall.Core Storage Prog

/-- What a call returned, with the candidate and its index in the batch. -/
abbrev CallResult := Nat × StagedCandidate × IngestOutcome

/-- The calls of a batch returned `outs`, in the order of submission: one after
the other with one worker, in any interleaving with more. -/
inductive CallsReturned (env : Env) (eng : Engine) (ps : IngestParams)
    (cs : List (Nat × StagedCandidate)) (workerCount : Int) (w : World) (outs : List CallResult)
    (w' : World) : Prop
  | sequential (hcount : workerCount ≤ 1)
      (hrun : (processAll env eng ps cs).run (handle env) w = (.ok outs, w'))
  | pooled {t : List (Fin cs.length × Event Ops World)}
      {results : Fin cs.length → Except Err IngestOutcome} (hcount : 1 < workerCount)
      (hpool : Pooled env eng ps cs w t results w') (hall : gathered cs results = .ok outs)

/-- `process_batch` returns `r`; `batchRunId` and `outs` are what it drew and what
its calls returned. -/
inductive BatchReturned (env : Env) (eng : Engine) (bp : BatchParams) (workerCount : Int)
    (cs : List StagedCandidate) (w : World) (batchRunId : String) (outs : List CallResult)
    (r : IngestBatchResult) (w' : World) : Prop
  | intro {policy : ZeroBytePolicy} {w₁ w₂ : World}
      (hstart : (prepareBatch env bp workerCount cs).run (handle env) w =
        (.ok (policy, batchRunId), w₁))
      (hcalls : CallsReturned env eng (bp.ingest policy) (scheduled bp.sizeAwareScheduling cs)
        workerCount w₁ outs w₂)
      (hend : (finishBatch env bp batchRunId (.ok outs)).run (handle env) w₂ = (.ok r, w'))

/-- The outcome names the candidate. -/
def IngestOutcome.of (out : IngestOutcome) (c : StagedCandidate) : Prop :=
  out.accountName = c.accountName ∧ out.onedriveId = c.onedriveId

/-- The terminal row of the `i`-th candidate. -/
def TerminalRow.records (batchRunId : String) (i : Nat) (c : StagedCandidate) (out : IngestOutcome)
    (row : TerminalRow) : Prop :=
  row.batchRunId = batchRunId ∧ row.sequenceNo = i + 1 ∧ row.account = c.accountName ∧
    row.onedriveId = c.onedriveId ∧ row.sha256 = out.sha256 ∧ row.action = out.action.str

section Calls
variable {env : Env} {eng : Engine} {ps : IngestParams}

/-! ## The calls -/

theorem outcome_of (c : StagedCandidate) (action : IngestAction) (sha : Option String)
    (destination : Option Path) (hit : Bool) : (outcome c action sha destination hit).of c :=
  ⟨rfl, rfl⟩

/-- Every call returns an outcome of its candidate. -/
theorem yields_processOne (c : StagedCandidate) :
    (processOne env eng ps c).Yields (·.of c) := by
  unfold processOne
  refine yields_bind yields_true fun uuid _ => yields_bind yields_true fun _ _ =>
    yields_bind yields_true fun staged _ => ?_
  cases staged with
  | false => exact yields_bind yields_true fun _ _ => outcome_of ..
  | true =>
    refine yields_bind yields_true fun n _ => ?_
    split
    · exact yields_bind yields_true fun _ _ => yields_bind yields_true fun _ _ => outcome_of ..
    split
    · exact yields_bind yields_true fun _ _ => outcome_of ..
    split
    · exact yields_bind yields_true fun _ _ => outcome_of ..
    · unfold decideStaged
      refine yields_bind yields_true fun hit _ => ?_
      cases hit with
      | none => exact yields_decideByHash fun _ _ _ => outcome_of ..
      | some hit =>
        exact yields_bind yields_true fun _ _ => yields_bind yields_true fun _ _ => outcome_of ..

/-- The results stand in the order of submission, each an outcome of its
candidate. -/
structure InOrder (cs : List (Nat × StagedCandidate)) (outs : List CallResult) : Prop where
  order : outs.map (fun x => (x.1, x.2.1)) = cs
  own : ∀ x ∈ outs, x.2.2.of x.2.1

theorem yields_processAll : ∀ cs : List (Nat × StagedCandidate),
    (processAll env eng ps cs).Yields (InOrder cs)
  | [] => ⟨rfl, fun x hx => by cases hx⟩
  | (index, c) :: cs => by
    unfold processAll
    refine yields_bind (yields_processOne c) fun out hout =>
      yields_bind (yields_processAll cs) fun outs houts => ⟨?_, fun x hx => ?_⟩
    · rw [List.map_cons, houts.order]
    · rcases List.mem_cons.mp hx with rfl | hx
      · exact hout
      · exact houts.own x hx

/-- What the programs of a pool return is what they yield. -/
theorem yields_run {ι : Type} [DecidableEq ι] {α : ι → Type} {R : ∀ i, α i → Prop} {w w' : World}
    {P P' : Pool ι Ops Err α} {t : List (ι × Event Ops World)}
    (hrun : Run (handle env) P w t P' w') (hP : ∀ i, (P i).Yields (R i)) :
    ∀ i, (P' i).Yields (R i) := by
  induction hrun with
  | refl P s => exact hP
  | @step P _ s _ _ i o k hop rest ih =>
    refine ih fun j => ?_
    by_cases hj : j = i
    · subst hj
      have hyields := hP j
      rw [hop] at hyields
      rw [Pool.set_self]
      exact hyields _
    · rw [Pool.set_ne _ hj]
      exact hP j

theorem inOrder_of_pooled {cs : List (Nat × StagedCandidate)} {w w' : World}
    {t : List (Fin cs.length × Event Ops World)}
    {results : Fin cs.length → Except Err IngestOutcome} {outs : List CallResult}
    (hpool : Pooled env eng ps cs w t results w') (hall : gathered cs results = .ok outs) :
    InOrder cs outs := by
  obtain ⟨P', hrun, hres⟩ := hpool.ran
  have hown : ∀ i out, results i = .ok out → out.of (cs.get i).2 := by
    intro i out hout
    have hyields : (P' i).Yields (·.of (cs.get i).2) :=
      yields_run (R := fun i out => out.of (cs.get i).2) hrun (fun i => yields_processOne _) i
    have hi := hres i
    rw [hout] at hi
    cases hp : P' i with
    | ret a =>
      rw [hp] at hi hyields
      cases hi
      exact hyields
    | err e => rw [hp] at hi; cases hi
    | op o k => rw [hp] at hi; cases hi
  have hall₂ : List.Forall₂ (fun y i => y.2.2.of y.2.1 ∧ (y.1, y.2.1) = cs.get i) outs
      (List.finRange cs.length) := by
    refine List.Forall₂.flip ((forall₂_of_mapM hall).imp fun i y hy => ?_)
    cases hout : results i with
    | error e =>
      rw [hout] at hy
      cases hy
    | ok out =>
      rw [hout] at hy
      cases hy
      exact ⟨hown i out hout, rfl⟩
  rw [List.forall₂_and_left] at hall₂
  refine ⟨?_, hall₂.1⟩
  have hmap := List.forall₂_map_left_iff.mpr (List.forall₂_map_right_iff.mpr hall₂.2)
  rw [List.forall₂_eq_eq_eq, List.map_get_finRange] at hmap
  exact hmap

theorem CallsReturned.inOrder {cs : List (Nat × StagedCandidate)} {workerCount : Int}
    {w w' : World} {outs : List CallResult}
    (h : CallsReturned env eng ps cs workerCount w outs w') : InOrder cs outs := by
  cases h with
  | sequential _ hrun => exact (yields_processAll cs).of_run (congrArg Prod.fst hrun)
  | pooled _ hpool hall => exact inOrder_of_pooled hpool hall

/-! ## Back in the order of the candidates -/

theorem scheduled_perm (sizeAware : Bool) (cs : List StagedCandidate) :
    (scheduled sizeAware cs).Perm ((List.range cs.length).zip cs) := by
  unfold scheduled
  split
  · exact List.perm_insertionSort _ _
  · exact List.Perm.refl _

theorem nodup_index (cs : List StagedCandidate) :
    (((List.range cs.length).zip cs).map Prod.fst).Nodup := by
  rw [List.map_fst_zip (by simp)]
  exact List.nodup_range

theorem pairwise_index (cs : List StagedCandidate) :
    ((List.range cs.length).zip cs).Pairwise fun a b => a.1 ≤ b.1 := by
  refine List.pairwise_map.mp ?_
  rw [List.map_fst_zip (by simp)]
  exact List.pairwise_le_range

/-- Sorting by index restores the order of the candidates. -/
theorem ordered_eq {sizeAware : Bool} {cs : List StagedCandidate} {outs : List CallResult}
    (h : InOrder (scheduled sizeAware cs) outs) :
    (outs.insertionSort fun a b => a.1 ≤ b.1).map (fun x => (x.1, x.2.1)) =
      (List.range cs.length).zip cs := by
  have hperm : ((outs.insertionSort fun a b => a.1 ≤ b.1).map fun x => (x.1, x.2.1)).Perm
      ((List.range cs.length).zip cs) :=
    ((List.perm_insertionSort _ outs).map _).trans (h.order ▸ scheduled_perm sizeAware cs)
  have hsorted : ((outs.insertionSort fun a b => a.1 ≤ b.1).map fun x => (x.1, x.2.1)).Pairwise
      fun a b => a.1 ≤ b.1 :=
    List.pairwise_map.mpr (List.pairwise_insertionSort (fun a b : CallResult => a.1 ≤ b.1) outs)
  exact eq_of_sorted_by Prod.fst hperm (nodup_index cs) hsorted (pairwise_index cs)

/-! ## The terminal rows -/

theorem keepsTerminal_upsertLivePhotoPair (id account stem photo video : String) :
    KeepsTerminal env (.tx (.upsertLivePhotoPair id account stem photo video .paired)) := by
  intro s
  simp only [handle, Tx.apply, Registry.upsertLivePhotoPair]
  split <;> rename_i h <;> split at h <;> cases h <;> rfl

theorem handle_terminalEvent {id account onedriveId action reason actor : String} {n : Nat}
    {sha : Option String} {w : World} :
    (handle env (.tx (.appendIngestTerminalEvent id n account onedriveId sha action reason
      actor)) w).2.reg.ingestTerminalAudit = w.reg.ingestTerminalAudit ++
        [⟨id, n, account, onedriveId, sha, action, reason, actor, (env.clock w.ticks).iso⟩] := rfl

/-- The loop over the outcomes, by induction on them: one row each, in order. -/
theorem recorded_rows {h : Option LivePhotoHeuristics} {id : String} :
    ∀ {outs : List CallResult} {done : Nat} {queued : List Queued} {shas : Table String String}
      {w w' : World},
      (recordOutcomes env h id done queued shas outs).run (handle env) w = (.ok (), w') →
      ∃ rows : List TerminalRow,
        w'.reg.ingestTerminalAudit = w.reg.ingestTerminalAudit ++ rows ∧
        rows.length = outs.length ∧
        ∀ i x, outs[i]? = some x → ∃ row : TerminalRow, rows[i]? = some row ∧
          row.records id (done + i) x.2.1 x.2.2
  | [], done, queued, shas, w, w', hrun => by
    cases hrun
    exact ⟨[], by simp, rfl, fun i x hx => by simp at hx⟩
  | (index, c, out) :: outs, done, queued, shas, w, w', hrun => by
    rw [recordOutcomes] at hrun
    obtain ⟨queued', w₁, hpair, hrun⟩ := run_bind_ok hrun
    have hkept := terminal_of_calls (calls_pairIfEnabled (fun _ => rfl)
      keepsTerminal_upsertLivePhotoPair) hpair
    obtain ⟨_, w₂, hevent, hrest⟩ := run_bind_ok hrun
    have hw₂ : w₂ = (handle env (.tx (.appendIngestTerminalEvent id (done + 1) c.accountName
        c.onedriveId out.sha256 out.action.str (terminalReasonFromOutcome out)
        pipelineActor)) w₁).2 := by
      simp only [transact, run_op, handle, Tx.apply, run_ret] at hevent
      cases hevent
      rfl
    obtain ⟨rows, happend, hlen, hrows⟩ := recorded_rows hrest
    rw [hw₂, handle_terminalEvent, hkept, List.append_assoc] at happend
    refine ⟨_, happend, by simp [hlen], fun i x hx => ?_⟩
    cases i with
    | zero =>
      simp only [List.getElem?_cons_zero, Option.some.injEq] at hx
      subst hx
      exact ⟨_, rfl, rfl, rfl, rfl, rfl, rfl, rfl⟩
    | succ i =>
      obtain ⟨row, hrow, hrec⟩ := hrows i x (by simpa using hx)
      refine ⟨row, by simpa using hrow, ?_⟩
      rw [show done + (i + 1) = done + 1 + i by omega]
      exact hrec

/-- The calls themselves write none. -/
theorem CallsReturned.terminal {cs : List (Nat × StagedCandidate)} {workerCount : Int}
    {w w' : World} {outs : List CallResult}
    (h : CallsReturned env eng ps cs workerCount w outs w') :
    w'.reg.ingestTerminalAudit = w.reg.ingestTerminalAudit := by
  cases h with
  | sequential _ hrun =>
    exact terminal_of_calls (calls_processAll (fun _ ho => keepsTerminal_of_processOne ho) cs) hrun
  | pooled _ hpool _ =>
    obtain ⟨P', hrun, -⟩ := hpool.ran
    exact terminal_of_run hrun fun i => calls_processOne fun _ ho => keepsTerminal_of_processOne ho

/-! ## The counts -/

/-- Every action is of one of the kinds that are counted. -/
theorem counted_once (a : IngestAction) :
    (if a == .pending then 1 else 0) + (if isDiscarded a then 1 else 0) +
      (if a == .sizeMismatch then 1 else 0) + (if a == .rejectZeroByte then 1 else 0) +
      (if a == .quarantineZeroByte then 1 else 0) = 1 := by
  cases a <;> rfl

theorem batchResult_counts (outs : List IngestOutcome) :
    (batchResult outs).pendingCount + (batchResult outs).discardedCount +
        (batchResult outs).sizeMismatchCount + (batchResult outs).zeroByteRejectCount +
        (batchResult outs).zeroByteQuarantineCount = outs.length ∧
      (batchResult outs).prefilterHitCount + (batchResult outs).prefilterMissCount =
        outs.length := by
  induction outs with
  | nil => exact ⟨rfl, rfl⟩
  | cons out outs ih =>
    simp only [batchResult, List.countP_cons, List.length_cons] at ih ⊢
    refine ⟨?_, ?_⟩
    · have hone := counted_once out.action
      omega
    · cases out.prefilterHit <;> simp <;> omega

end Calls

/-! ## The whole batch -/

structure Accounted (cs : List StagedCandidate) (batchRunId : String) (outs : List CallResult)
    (r : IngestBatchResult) (w w' : World) : Prop where
  outcomes : r.outcomes.length = cs.length
  /-- every outcome is in one of the counts -/
  counted : r.pendingCount + r.discardedCount + r.sizeMismatchCount + r.zeroByteRejectCount +
    r.zeroByteQuarantineCount = cs.length
  prefiltered : r.prefilterHitCount + r.prefilterMissCount = cs.length
  /-- the `i`-th outcome is what the call for the `i`-th candidate returned, and
  the `i`-th new terminal row records it -/
  recorded : ∃ rows : List TerminalRow,
    w'.reg.ingestTerminalAudit = w.reg.ingestTerminalAudit ++ rows ∧
    rows.length = cs.length ∧ ∀ i c, cs[i]? = some c → ∃ out row, r.outcomes[i]? = some out ∧
      (i, c, out) ∈ outs ∧ out.of c ∧ rows[i]? = some row ∧ row.records batchRunId i c out

/-- For every batch that returns, whatever the worker count, the interleaving of
the calls and the order of submission. -/
theorem batch_accounted (env : Env) (eng : Engine) (bp : BatchParams) (workerCount : Int)
    (cs : List StagedCandidate) (w w' : World) (batchRunId : String) (outs : List CallResult)
    (r : IngestBatchResult)
    (h : BatchReturned env eng bp workerCount cs w batchRunId outs r w') :
    Accounted cs batchRunId outs r w w' := by
  obtain ⟨hstart, hcalls, hend⟩ := h
  have horder := hcalls.inOrder
  have hkeys := ordered_eq horder
  rw [finishBatch, ofExcept_ok, ret_bind] at hend
  obtain ⟨_, w₃, hrec, hret⟩ := run_bind_ok hend
  cases hret
  obtain ⟨rows, happend, hlen, hrows⟩ := recorded_rows hrec
  have hn : (outs.insertionSort fun a b => a.1 ≤ b.1).length = cs.length := by
    have hlength := congrArg List.length hkeys
    simpa using hlength
  have hcounts := batchResult_counts ((outs.insertionSort fun a b => a.1 ≤ b.1).map (·.2.2))
  rw [List.length_map, hn] at hcounts
  refine ⟨by simp only [batchResult, List.length_map, hn], hcounts.1, hcounts.2, rows, ?_,
    hlen.trans hn, fun i c hc => ?_⟩
  · rw [happend, hcalls.terminal, (still_of_prepare hstart).reg]
  · have hi : ((outs.insertionSort fun a b => a.1 ≤ b.1).map fun x => (x.1, x.2.1))[i]? =
        some (i, c) := by
      have hlt : i < cs.length := (List.getElem?_eq_some_iff.mp hc).1
      rw [hkeys, List.getElem?_zip_eq_some]
      exact ⟨by simp [hlt], hc⟩
    rw [List.getElem?_map, Option.map_eq_some_iff] at hi
    obtain ⟨⟨i', c', out⟩, hx, hkey⟩ := hi
    cases hkey
    have hmem := (List.mem_insertionSort _).mp (List.mem_of_getElem? hx)
    obtain ⟨row, hrow, hrecords⟩ := hrows _ _ hx
    rw [Nat.zero_add] at hrecords
    refine ⟨out, row, ?_, hmem, horder.own _ hmem, hrow, hrecords⟩
    simp only [batchResult, List.getElem?_map, hx, Option.map_some]

/-- The second of two photos is submitted first. -/
def reversedPhotos : List StagedCandidate :=
  [sampleCandidate "id1" ["staging", "x"],
    { sampleCandidate "id2" ["staging", "y"] with sizeBytes := some 1 }]

def reversedWorld : World :=
  ((prepareBatch sampleEnv sampleBatch 2 reversedPhotos).run (handle sampleEnv)
    (sampleWorld [(["staging", "x"], [97]), (["staging", "y"], [98])] Registry.empty)).2

/-- Both calls on a pool, in turns. -/
def photosOnPool : List (Fin (scheduled true reversedPhotos).length × Event Ops World) ×
    Pool (Fin (scheduled true reversedPhotos).length) Ops Err (fun _ => IngestOutcome) × World :=
  exec (handle sampleEnv) (List.replicate 8 ⟨1, by decide⟩ ++ List.replicate 16 ⟨0, by decide⟩ ++
      List.replicate 8 ⟨1, by decide⟩)
    (submitted sampleEnv ⟨none⟩ (sampleBatch.ingest .allow) (scheduled true reversedPhotos))
    reversedWorld

def photoResults : Fin (scheduled true reversedPhotos).length → Except Err IngestOutcome :=
  fun i => (photosOnPool.2.1 i).result.getD (.error (.ingest ""))

def photosGathered : List CallResult :=
  (gathered (scheduled true reversedPhotos) photoResults).toOption.getD []

/-- The parts of the batch, evaluated once. -/
theorem photosOnPool_parts :
    ((prepareBatch sampleEnv sampleBatch 2 reversedPhotos).run (handle sampleEnv)
      (sampleWorld [(["staging", "x"], [97]), (["staging", "y"], [98])] Registry.empty)).1 =
      .ok (.allow, sampleEnv.uuid 0) ∧
    (∀ i, (photosOnPool.2.1 i).result = some (photoResults i)) ∧
    gathered (scheduled true reversedPhotos) photoResults = .ok photosGathered ∧
    ((finishBatch sampleEnv sampleBatch (sampleEnv.uuid 0) (.ok photosGathered)).run
      (handle sampleEnv) photosOnPool.2.2).1 =
      .ok (batchResult ((photosGathered.insertionSort fun a b => a.1 ≤ b.1).map (·.2.2))) ∧
    (batchResult ((photosGathered.insertionSort fun a b => a.1 ≤ b.1).map
      (·.2.2))).pendingCount = 2 := by
  decide +kernel

theorem photos_accounted :
    ∃ r w', r.pendingCount = 2 ∧ Accounted reversedPhotos (sampleEnv.uuid 0) photosGathered r
      (sampleWorld [(["staging", "x"], [97]), (["staging", "y"], [98])] Registry.empty) w' := by
  obtain ⟨hprepared, hresults, hgathered, hfinished, hpending⟩ := photosOnPool_parts
  have hstart : (prepareBatch sampleEnv sampleBatch 2 reversedPhotos).run (handle sampleEnv)
      (sampleWorld [(["staging", "x"], [97]), (["staging", "y"], [98])] Registry.empty) =
      (.ok (.allow, sampleEnv.uuid 0), reversedWorld) := run_of_result hprepared
  have hpool : Pooled sampleEnv ⟨none⟩ (sampleBatch.ingest .allow) (scheduled true reversedPhotos)
      reversedWorld photosOnPool.1 photoResults photosOnPool.2.2 :=
    ⟨photosOnPool.2.1, exec_run _ _ _ _, hresults⟩
  have hend : (finishBatch sampleEnv sampleBatch (sampleEnv.uuid 0) (.ok photosGathered)).run
      (handle sampleEnv) photosOnPool.2.2 =
      (.ok (batchResult ((photosGathered.insertionSort fun a b => a.1 ≤ b.1).map (·.2.2))), _) :=
    run_of_result hfinished
  exact ⟨_, _, hpending, batch_accounted sampleEnv ⟨none⟩ sampleBatch 2 reversedPhotos _ _ _
    _ _ ⟨hstart, .pooled (by decide) hpool hgathered, hend⟩⟩

end Nightfall
