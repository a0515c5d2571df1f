import Nightfall.L3Flows.LivePhoto

/-!
# The ingest decision engine (`domain/ingest.py`)

`processOne` takes one staged file through the checks, the metadata prefilter,
the hash, the block rules and the registry decision; `processBatch` is the
sequential batch (`worker_count = 1`) around it, with the pairing of live
photos and the terminal events; `replayInterruptedOperations` is the recovery
pass over the journal.
-/
namespace Nightfall
open Nightfall.Core Storage

structure StagedCandidate where
  accountName : String
  onedriveId : String
  originalFilename : String
  relativePath : String
  modifiedTime : String
  sizeBytes : Option Int
  stagingPath : Path
  deriving DecidableEq, Repr

/-- The values of `IngestOutcome.action`. -/
inductive IngestAction where
  | pending
  | discard (s : Status)
  | missingStaged
  | sizeMismatch
  | rejectZeroByte
  | quarantineZeroByte
  deriving DecidableEq, Repr

def IngestAction.str : IngestAction → String
  | .pending => "pending"
  | .discard s => "discard_" ++ s.str
  | .missingStaged => "missing_staged"
  | .sizeMismatch => "size_mismatch"
  | .rejectZeroByte => "reject_zero_byte"
  | .quarantineZeroByte => "quarantine_zero_byte"

structure IngestOutcome where
  accountName : String
  onedriveId : String
  action : IngestAction
  sha256 : Option String
  destinationPath : Option Path
  prefilterHit : Bool
  deriving DecidableEq, Repr

inductive ZeroBytePolicy where
  | allow
  | quarantine
  | reject
  deriving DecidableEq, Repr

def ZeroBytePolicy.parse : String → Option ZeroBytePolicy
  | "allow" => some .allow
  | "quarantine" => some .quarantine
  | "reject" => some .reject
  | _ => none

/-- `IngestDecisionEngine`: the bound of its journal, when it has one. -/
structure Engine where
  journalMaxBytes : Option Nat

/-- What `process_batch` passes to every `_process_one`. -/
structure IngestParams where
  pendingRoot : Path
  storageTemplate : String
  stagingOnSamePool : Bool
  preHashSizeVerify : Bool
  zeroBytePolicy : ZeroBytePolicy
  quarantineDir : Option Path
  collisionMaxAttempts : Int

/-- The text every actor field of the pipeline holds. -/
def pipelineActor : String := "ingest_pipeline"

def outcome (c : StagedCandidate) (action : IngestAction) (sha : Option String)
    (destination : Option Path) (prefilterHit : Bool) : IngestOutcome :=
  ⟨c.accountName, c.onedriveId, action, sha, destination, prefilterHit⟩

/-- mirrors src/nightfall_photo_ingress/domain/ingest.py:773-792 -/
def journalAppend (eng : Engine) (opId : String) (phase : JournalPhase) (c : StagedCandidate)
    (destination : Option Path) (sha : Option String) : Flow Unit :=
  match eng.journalMaxBytes with
  | none => pure ()
  | some maxBytes => .op (.journalAppend maxBytes
      ⟨opId, phase, "", c.accountName, c.onedriveId, c.stagingPath, destination, sha⟩) .ret

/-- mirrors src/nightfall_photo_ingress/domain/ingest.py:809-820 -/
def handleQuarantineOrDelete (path : Path) (quarantineDir : Option Path) (category : String) :
    Flow Unit :=
  match quarantineDir with
  | none => unlink path
  | some dir => do
    let target := dir ++ [category, path.name]
    if ← pathExists target then do
      let now ← utcNow
      let secs := now.stamp.micros.tdiv 1000000
      replaceFile path (target.withName (markedName target.name (toString secs)))
    else replaceFile path target

/-- mirrors src/nightfall_photo_ingress/domain/ingest.py:677-712 -/
def prefilterStatus (c : StagedCandidate) : Flow (Option (Status × String)) :=
  .op (.prefilterStatus c.accountName c.onedriveId c.sizeBytes c.modifiedTime) .ret

/-- Does one enabled rule match; an invalid regular expression does not. -/
def ruleMatches (env : Env) (filename : String) : RuleType × String → Bool
  | (.filename, pattern) => env.fnmatch filename pattern
  | (.regex, pattern) => (env.reSearch pattern filename).getD false

def enabledBlockRules : Flow (List (RuleType × String)) := .op .enabledBlockRules .ret

/-- mirrors src/nightfall_photo_ingress/domain/ingest.py:714-737 -/
def matchBlockRule (env : Env) (filename : String) : Flow (Option (RuleType × String)) := do
  let rows ← enabledBlockRules
  return rows.find? (ruleMatches env filename)

def getFile (sha : String) : Flow (Option FileRecord) := .op (.getFile sha) .ret

/-- The metadata prefilter hit: the staged file goes, only the audit log grows.
mirrors src/nightfall_photo_ingress/domain/ingest.py:525-540 -/
def discardPrefiltered (c : StagedCandidate) (st : Status) (sha : String) : Flow IngestOutcome := do
  unlink c.stagingPath
  transact (.appendAuditEvent (some sha) (.prefilter st) "metadata_index_match" pipelineActor)
  return outcome c (.discard st) (some sha) none true

/-- `f"block_rule:{rule_type}:{pattern}"`. -/
def blockReason (rule : RuleType × String) : String := "block_rule:" ++ rule.1.str ++ ":" ++ rule.2

/-- mirrors src/nightfall_photo_ingress/domain/ingest.py:551-593 -/
def rejectBlocked (eng : Engine) (c : StagedCandidate) (opId : String) (actualSize : Nat)
    (sha : String) (rule : RuleType × String) : Flow IngestOutcome := do
  unlink c.stagingPath
  transact (.createOrUpdateFile sha actualSize .rejected (some c.originalFilename) none)
  transact (.upsertMetadataIndex c.accountName c.onedriveId actualSize c.modifiedTime sha)
  transact (.upsertFileOrigin sha c.accountName c.onedriveId (some c.relativePath))
  transact (.appendAuditEvent (some sha) (.status .rejected) (blockReason rule)
    pipelineActor)
  journalAppend eng opId .registryPersisted c none (some sha)
  return outcome c (.discard .rejected) (some sha) none false

/-- mirrors src/nightfall_photo_ingress/domain/ingest.py:597-648 -/
def ingestUnknown (env : Env) (eng : Engine) (ps : IngestParams) (c : StagedCandidate)
    (opId sha : String) : Flow IngestOutcome := do
  let relative ← renderRelativePath env ps.storageTemplate sha c.originalFilename c.modifiedTime
  let destination ← chooseCollisionSafeDestinationWithThreshold (ps.pendingRoot ++ relative)
    ps.collisionMaxAttempts
  let _ ← commitStagingToAccepted c.stagingPath destination ps.stagingOnSamePool
    (some ps.pendingRoot)
  journalAppend eng opId .storageCommitted c (some destination) (some sha)
  let sizeBytes ← statSize destination
  transact (.finalizeUnknownIngest sha sizeBytes c.originalFilename destination c.accountName
    c.onedriveId c.relativePath c.modifiedTime pipelineActor)
  journalAppend eng opId .registryPersisted c (some destination) (some sha)
  return outcome c .pending (some sha) (some destination) false

/-- mirrors src/nightfall_photo_ingress/domain/ingest.py:650-675 -/
def discardKnown (eng : Engine) (c : StagedCandidate) (opId sha : String) (record : FileRecord) :
    Flow IngestOutcome := do
  let knownSize ← statSize c.stagingPath
  unlink c.stagingPath
  transact (.finalizeKnownIngest sha record.status c.accountName c.onedriveId c.relativePath
    c.modifiedTime knownSize pipelineActor)
  journalAppend eng opId .registryPersisted c none (some sha)
  return outcome c (.discard record.status) (some sha) none false

/-- From the hash on.
mirrors src/nightfall_photo_ingress/domain/ingest.py:542-675 -/
def decideByHash (env : Env) (eng : Engine) (ps : IngestParams) (c : StagedCandidate)
    (opId : String) (actualSize : Nat) : Flow IngestOutcome := do
  let sha ← sha256File c.stagingPath
  journalAppend eng opId .hashCompleted c none (some sha)
  match ← matchBlockRule env c.originalFilename with
  | some rule => rejectBlocked eng c opId actualSize sha rule
  | none =>
    match ← getFile sha with
    | none => ingestUnknown env eng ps c opId sha
    | some record => discardKnown eng c opId sha record

/-- The file is staged and passed the size checks.
mirrors src/nightfall_photo_ingress/domain/ingest.py:523-675 -/
def decideStaged (env : Env) (eng : Engine) (ps : IngestParams) (c : StagedCandidate)
    (opId : String) (actualSize : Nat) : Flow IngestOutcome := do
  match ← prefilterStatus c with
  | some (st, sha) => discardPrefiltered c st sha
  | none => decideByHash env eng ps c opId actualSize

/-- `pre_hash_size_verify and size_bytes is not None and size_bytes != actual_size`. -/
def sizeMismatch (ps : IngestParams) (c : StagedCandidate) (actualSize : Nat) : Bool :=
  ps.preHashSizeVerify && c.sizeBytes.isSome && c.sizeBytes != some (actualSize : Int)

/-- `uuid4().hex[:12]` behind the account and the item. -/
def opIdOf (c : StagedCandidate) (uuid : String) : String :=
  c.accountName ++ ":" ++ c.onedriveId ++ ":" ++ String.ofList (uuid.toList.take 12)

/-- mirrors src/nightfall_photo_ingress/domain/ingest.py:438-675 -/
def processOne (env : Env) (eng : Engine) (ps : IngestParams) (c : StagedCandidate) :
    Flow IngestOutcome := do
  let uuid ← uuid4
  let opId := opIdOf c uuid
  journalAppend eng opId .ingestStarted c none none
  if ← pathExists c.stagingPath then do
    let actualSize ← statSize c.stagingPath
    if sizeMismatch ps c actualSize then do
      journalAppend eng opId .sizeMismatch c none none
      handleQuarantineOrDelete c.stagingPath ps.quarantineDir "size_mismatch"
      return outcome c .sizeMismatch none none false
    else if actualSize = 0 ∧ ps.zeroBytePolicy = .reject then do
      unlink c.stagingPath
      return outcome c .rejectZeroByte none none false
    else if actualSize = 0 ∧ ps.zeroBytePolicy = .quarantine then do
      handleQuarantineOrDelete c.stagingPath ps.quarantineDir "zero_byte"
      return outcome c .quarantineZeroByte none none false
    else decideStaged env eng ps c opId actualSize
  else do
    journalAppend eng opId .missingStaged c none none
    return outcome c .missingStaged none none false

end Nightfall
