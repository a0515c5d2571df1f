import Nightfall.Core.Pool
import Nightfall.L3Flows.Batch

/-!
# The batch on a thread pool (`domain/ingest.py`)

With `worker_count > 1` the calls of `_process_one` are submitted to a
`ThreadPoolExecutor` and run at the same time; its `with` block waits for all of
them, also when one raises. Their results are then read in the order of
submission, so the first exception in that order is the batch's. What comes
before and behind the calls is the same for every worker count.

* `Pooled`: an interleaving of the calls in which all have finished. It lets any
  call move next, so it covers every number of threads.
* `processBatch_eq`: `processBatch` with the calls one after the other in the
  middle.
-/
namespace Nightfall
open Nightfall.Core Storage Prog

/-- The checks, the batch id and the pair queue.
mirrors src/nightfall_photo_ingress/domain/ingest.py:130-153 -/
def prepareBatch (env : Env) (bp : BatchParams) (workerCount : Int) (cs : List StagedCandidate) :
    Flow (ZeroBytePolicy × String) := do
  validateBatchContract env cs bp.inputSchemaVersion
  match ZeroBytePolicy.parse bp.zeroBytePolicy with
  | none => throw (.ingest ("Invalid zero_byte_policy: " ++ bp.zeroBytePolicy ++
      ". Expected one of allow/quarantine/reject"))
  | some policy =>
    if workerCount < 1 then throw (.ingest "worker_count must be >= 1")
    else if bp.collisionMaxAttempts < 1 then throw (.ingest "collision_max_attempts must be >= 1")
    else if lintStorageTemplate bp.storageTemplate ≠ [] then
      throw (.ingest ("Unsafe storage template detected: " ++
        ",".intercalate (lintStorageTemplate bp.storageTemplate)))
    else do
      let batchRunId ← uuid4
      enforceHeuristics bp.livePhotoHeuristics
      return (policy, batchRunId)

/-- One call for each candidate, in the order of submission. -/
def submitted (env : Env) (eng : Engine) (ps : IngestParams) (cs : List (Nat × StagedCandidate)) :
    Pool (Fin cs.length) Ops Err fun _ => IngestOutcome :=
  fun i => processOne env eng ps (cs.get i).2

/-- All calls ran from `w` to their ends, which left `w'`; `t` says who did what. -/
structure Pooled (env : Env) (eng : Engine) (ps : IngestParams) (cs : List (Nat × StagedCandidate))
    (w : World) (t : List (Fin cs.length × Event Ops World))
    (results : Fin cs.length → Except Err IngestOutcome) (w' : World) : Prop where
  ran : ∃ P', Run (handle env) (submitted env eng ps cs) w t P' w' ∧
    ∀ i, (P' i).result = some (results i)

/-- `[(index, candidate, future.result()) for ...]`. -/
def gathered (cs : List (Nat × StagedCandidate))
    (results : Fin cs.length → Except Err IngestOutcome) :
    Except Err (List (Nat × StagedCandidate × IngestOutcome)) :=
  (List.finRange cs.length).mapM fun i => do
    let out ← results i
    return ((cs.get i).1, (cs.get i).2, out)

/-- The pairing, the terminal events and the counts.
mirrors src/nightfall_photo_ingress/domain/ingest.py:199-271 -/
def finishBatch (env : Env) (bp : BatchParams) (batchRunId : String)
    (outs : Except Err (List (Nat × StagedCandidate × IngestOutcome))) : Flow IngestBatchResult := do
  let outs ← Prog.ofExcept outs
  let ordered := outs.insertionSort fun a b => a.1 ≤ b.1
  recordOutcomes env bp.livePhotoHeuristics batchRunId 0 [] ∅ ordered
  return batchResult (ordered.map (·.2.2))

/-- One worker. -/
theorem processBatch_eq (env : Env) (eng : Engine) (bp : BatchParams) (cs : List StagedCandidate) :
    processBatch env eng bp cs = prepareBatch env bp 1 cs >>= fun start =>
      processAll env eng (bp.ingest start.1) (scheduled bp.sizeAwareScheduling cs) >>= fun outs =>
        finishBatch env bp start.2 (.ok outs) := by
  unfold processBatch prepareBatch
  rw [Prog.bind_assoc]
  refine congrArg (validateBatchContract env cs bp.inputSchemaVersion >>= ·) (funext fun _ => ?_)
  cases ZeroBytePolicy.parse bp.zeroBytePolicy with
  | none => rfl
  | some policy =>
    have hone : ¬ (1 : Int) < 1 := by omega
    simp only [if_neg hone]
    split
    · rfl
    split
    · rfl
    · simp only [runBatch, Prog.bind_assoc, pure_eq, ret_bind]
      rfl

end Nightfall
