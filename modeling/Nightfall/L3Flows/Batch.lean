import Nightfall.L3Flows.Ingest

/-!
# The ingest batch and the journal replay (`domain/ingest.py`)

`processBatch` is `process_batch` with `worker_count = 1`: contract checks,
largest files first, every candidate through `processOne`, then pairing and the
terminal events in the order the candidates came in.
-/
namespace Nightfall
open Nightfall.Core Storage

structure BatchParams where
  pendingRoot : Path
  storageTemplate : String
  stagingOnSamePool : Bool
  inputSchemaVersion : Int
  preHashSizeVerify : Bool
  zeroBytePolicy : String
  quarantineDir : Option Path
  sizeAwareScheduling : Bool
  collisionMaxAttempts : Int
  livePhotoHeuristics : Option LivePhotoHeuristics

structure IngestBatchResult where
  outcomes : List IngestOutcome
  pendingCount : Nat
  discardedCount : Nat
  prefilterDiscardCount : Nat
  prefilterHitCount : Nat
  prefilterMissCount : Nat
  sizeMismatchCount : Nat
  zeroByteRejectCount : Nat
  zeroByteQuarantineCount : Nat
  deriving DecidableEq, Repr

/-! ## The contract of the input -/

def malformed (index : Nat) (msg : String) : Flow Unit :=
  throw (.ingest ("Malformed candidate[" ++ toString index ++ "]: " ++ msg))

/-- The checks on the candidate at `index`. -/
def validateCandidate (env : Env) (index : Nat) (c : StagedCandidate) : Flow Unit :=
  if pyStrip c.accountName = "" then malformed index "account_name is required"
  else if pyStrip c.onedriveId = "" then malformed index "onedrive_id is required"
  else if pyStrip c.originalFilename = "" then malformed index "original_filename is required"
  else if c.relativePath.toList.head? ≠ some '/' then
    malformed index ("relative_path must start with '/': " ++ c.relativePath)
  else if (env.fromisoformat (String.ofList
      (replaceAll c.modifiedTime.toList "Z".toList "+00:00".toList))).isNone then
    malformed index "modified_time is not valid ISO-8601"
  else if c.sizeBytes.any (· < 0) then malformed index "size_bytes must be >= 0"
  else pure ()

def validateCandidates (env : Env) : Nat → List StagedCandidate → Flow Unit
  | _, [] => pure ()
  | index, c :: cs => do
    validateCandidate env index c
    validateCandidates env (index + 1) cs

/-- mirrors src/nightfall_photo_ingress/domain/ingest.py:739-771 -/
def validateBatchContract (env : Env) (cs : List StagedCandidate) (version : Int) : Flow Unit :=
  if version ≠ 1 then
    throw (.ingest ("Incompatible ingest input schema version: got=" ++ toString version ++
      " expected=1"))
  else validateCandidates env 0 cs

/-! ## The batch -/

/-- Largest size first, ties in input order: the sort key is
`(size_bytes or -1, -index)`, descending. -/
def sizeFirst (a b : Nat × StagedCandidate) : Bool :=
  let sizeA := a.2.sizeBytes.getD (-1)
  let sizeB := b.2.sizeBytes.getD (-1)
  sizeB < sizeA || (sizeA == sizeB && a.1 ≤ b.1)

def scheduled (sizeAware : Bool) (cs : List StagedCandidate) : List (Nat × StagedCandidate) :=
  let indexed := (List.range cs.length).zip cs
  if sizeAware then indexed.insertionSort fun a b => sizeFirst a b else indexed

/-- The list comprehension over `_process_one`. -/
def processAll (env : Env) (eng : Engine) (ps : IngestParams) :
    List (Nat × StagedCandidate) → Flow (List (Nat × StagedCandidate × IngestOutcome))
  | [] => pure []
  | (index, c) :: cs => do
    let out ← processOne env eng ps c
    let outs ← processAll env eng ps cs
    return (index, c, out) :: outs

/-- mirrors src/nightfall_photo_ingress/domain/ingest.py:795-806 -/
def terminalReasonFromOutcome (out : IngestOutcome) : String :=
  if out.prefilterHit then "metadata_prefilter"
  else match out.action with
    | .pending => "unknown_hash"
    | .discard _ => "known_hash"
    | a => a.str

/-- Offer one candidate to the pair queue and record a pair that is complete. -/
def pairOutcome (env : Env) (h : LivePhotoHeuristics) (queued : List Queued)
    (shas : Table String String) (c : StagedCandidate) : Flow (List Queued) := do
  let result ← queueIngest env h queued
    ⟨c.accountName, c.onedriveId, c.originalFilename, c.modifiedTime⟩
  match result.1 with
  | none => pure result.2
  | some pair =>
    match shas.get pair.photoOnedriveId, shas.get pair.videoOnedriveId with
    | some photoSha, some videoSha => do
      transact (.upsertLivePhotoPair (livePhotoPairId env pair.account pair.stem photoSha videoSha)
        pair.account pair.stem photoSha videoSha .paired)
      pure result.2
    | _, _ => pure result.2

/-- The pairing step, when the batch was given heuristics. -/
def pairIfEnabled (env : Env) (h : Option LivePhotoHeuristics) (queued : List Queued)
    (shas : Table String String) (c : StagedCandidate) : Flow (List Queued) :=
  match h with
  | none => pure queued
  | some h => pairOutcome env h queued shas c

/-- `sha_by_onedrive_id[candidate.onedrive_id] = outcome.sha256`. -/
def noteSha (shas : Table String String) (c : StagedCandidate) (out : IngestOutcome) :
    Table String String :=
  match out.sha256 with
  | some sha => shas.put c.onedriveId sha
  | none => shas

/-- The loop over the ordered results; `done` rows have been written.
mirrors src/nightfall_photo_ingress/domain/ingest.py:204-246 -/
def recordOutcomes (env : Env) (h : Option LivePhotoHeuristics) (batchRunId : String) :
    Nat → List Queued → Table String String → List (Nat × StagedCandidate × IngestOutcome) →
      Flow Unit
  | _, _, _, [] => pure ()
  | done, queued, shas, (_, c, out) :: rest => do
    let shas := noteSha shas c out
    let queued ← pairIfEnabled env h queued shas c
    transact (.appendIngestTerminalEvent batchRunId (done + 1) c.accountName c.onedriveId
      out.sha256 out.action.str (terminalReasonFromOutcome out) pipelineActor)
    recordOutcomes env h batchRunId (done + 1) queued shas rest

def isDiscarded : IngestAction → Bool
  | .discard _ => true
  | .missingStaged => true
  | _ => false

def batchResult (outs : List IngestOutcome) : IngestBatchResult where
  outcomes := outs
  pendingCount := outs.countP (·.action == .pending)
  discardedCount := outs.countP fun o => isDiscarded o.action
  prefilterDiscardCount := outs.countP (·.prefilterHit)
  prefilterHitCount := outs.countP (·.prefilterHit)
  prefilterMissCount := outs.countP (!·.prefilterHit)
  sizeMismatchCount := outs.countP (·.action == .sizeMismatch)
  zeroByteRejectCount := outs.countP (·.action == .rejectZeroByte)
  zeroByteQuarantineCount := outs.countP (·.action == .quarantineZeroByte)

def BatchParams.ingest (bp : BatchParams) (policy : ZeroBytePolicy) : IngestParams where
  pendingRoot := bp.pendingRoot
  storageTemplate := bp.storageTemplate
  stagingOnSamePool := bp.stagingOnSamePool
  preHashSizeVerify := bp.preHashSizeVerify
  zeroBytePolicy := policy
  quarantineDir := bp.quarantineDir
  collisionMaxAttempts := bp.collisionMaxAttempts

/-- `DeferredPairQueue(heuristics)` checks the heuristics it is given. -/
def enforceHeuristics : Option LivePhotoHeuristics → Flow Unit
  | none => pure ()
  | some h => enforceV1Defaults h

/-- The part of the batch behind the parameter checks. -/
def runBatch (env : Env) (eng : Engine) (bp : BatchParams) (policy : ZeroBytePolicy)
    (cs : List StagedCandidate) : Flow IngestBatchResult := do
  let batchRunId ← uuid4
  enforceHeuristics bp.livePhotoHeuristics
  let outs ← processAll env eng (bp.ingest policy) (scheduled bp.sizeAwareScheduling cs)
  let ordered := outs.insertionSort fun a b => a.1 ≤ b.1
  recordOutcomes env bp.livePhotoHeuristics batchRunId 0 [] ∅ ordered
  return batchResult (ordered.map (·.2.2))

/-- mirrors src/nightfall_photo_ingress/domain/ingest.py:112-271 -/
def processBatch (env : Env) (eng : Engine) (bp : BatchParams) (cs : List StagedCandidate) :
    Flow IngestBatchResult := do
  validateBatchContract env cs bp.inputSchemaVersion
  match ZeroBytePolicy.parse bp.zeroBytePolicy with
  | none => throw (.ingest ("Invalid zero_byte_policy: " ++ bp.zeroBytePolicy ++
      ". Expected one of allow/quarantine/reject"))
  | some policy =>
    if bp.collisionMaxAttempts < 1 then throw (.ingest "collision_max_attempts must be >= 1")
    else if lintStorageTemplate bp.storageTemplate ≠ [] then
      throw (.ingest ("Unsafe storage template detected: " ++
        ",".intercalate (lintStorageTemplate bp.storageTemplate)))
    else runBatch env eng bp policy cs

/-! ## Recovery -/

structure ReplayResult where
  interruptedTotal : Nat
  quarantinedDestinations : Nat
  removedStaging : Nat
  unresolvedOpIds : List String
  deriving DecidableEq, Repr

/-- Move a destination that the journal knows of out of the way. -/
def quarantineDestination (destination : Option Path) : Flow Nat :=
  match destination with
  | none => pure 0
  | some d => do
    if ← pathExists d then do
      replaceFile d (d.addExt ".orphaned")
      return 1
    else return 0

def removeStaging (staging : Path) : Flow Nat := do
  if ← pathExists staging then do
    unlink staging
    return 1
  else return 0

def auditRecovery (opId : String) (sha : Option String) : Flow Unit :=
  match sha with
  | none => pure ()
  | some sha => do
    match ← getFile sha with
    | none => pure ()
    | some _ => transact (.appendAuditEvent (some sha) .recoveryInterruptedIngest
        ("journal_replay:" ++ opId) pipelineActor)

/-- The loop over `by_op.items()`.
mirrors src/nightfall_photo_ingress/domain/ingest.py:402-428 -/
def replayOps : List (String × List JournalRecord) → ReplayResult → Flow ReplayResult
  | [], acc => pure acc
  | (opId, recs) :: rest, acc =>
    match recs.getLast? with
    | none => replayOps rest acc
    | some latest =>
      if recs.any (·.phase == .registryPersisted) then replayOps rest acc
      else do
        let quarantined ← quarantineDestination latest.destinationPath
        let removed ← removeStaging latest.stagingPath
        auditRecovery opId latest.sha256
        replayOps rest
          ⟨acc.interruptedTotal + 1, acc.quarantinedDestinations + quarantined,
            acc.removedStaging + removed, acc.unresolvedOpIds ++ [opId]⟩

def journalReadAll : Flow (List JournalRecord) := .op .journalReadAll .ret

def journalClear : Flow Unit := .op .journalClear .ret

/-- mirrors src/nightfall_photo_ingress/domain/ingest.py:381-436 -/
def replayInterruptedOperations (eng : Engine) : Flow ReplayResult :=
  match eng.journalMaxBytes with
  | none => pure ⟨0, 0, 0, []⟩
  | some _ => do
    let records ← journalReadAll
    let result ← replayOps (Journal.byOp records) ⟨0, 0, 0, []⟩
    journalClear
    return result

end Nightfall
