import Nightfall.Core.Table
import Nightfall.L1Storage.Names

/-!
# The registry tables and their transactions (`domain/registry.py`)

Each public method of `Registry` is one SQLite transaction, so it is a
function on the whole registry; one that can roll back returns `Except`. The
`CHECK` on `status` is the type `Status`, the primary keys are table keys, and
the foreign keys into `files` are tested where a row is inserted
(`PRAGMA foreign_keys = ON`). `now` is the ISO text `_utc_now()` returned.

Every method's effect on `files` is given by one `files_*` lemma; no other
module unfolds a method to learn what it does to a status or a path.
-/
namespace Nightfall
open Nightfall.Core Nightfall.Storage

/-- `ALLOWED_FILE_STATUSES`, the `CHECK` constraint of `files.status`. -/
inductive Status where
  | pending
  | accepted
  | rejected
  | purged
  deriving DecidableEq, Repr

def Status.str : Status → String
  | .pending => "pending"
  | .accepted => "accepted"
  | .rejected => "rejected"
  | .purged => "purged"

/-- The `CHECK` constraint of `live_photo_pairs.status`. -/
inductive PairStatus where
  | paired
  | of (s : Status)
  deriving DecidableEq, Repr

inductive TriageAction where
  | accept
  | reject
  | defer
  deriving DecidableEq, Repr

/-- The status a triage action writes. -/
def TriageAction.state : TriageAction → Status
  | .accept => .accepted
  | .reject => .rejected
  | .defer => .pending

inductive TriagePhase where
  | requested
  | applied
  | compensating
  deriving DecidableEq, Repr

/-- The values of `audit_log.action`. `auth_failure` is written by the token
check of the API and `sync_import` by the hash import of a library, neither of
which is modelled. -/
inductive AuditAction where
  | authFailure
  | syncImport
  | status (s : Status)
  | discard (s : Status)
  | prefilter (s : Status)
  | rejectNoopAlreadyRejected
  | recoveryInterruptedIngest
  | triage (a : TriageAction) (p : TriagePhase)
  deriving DecidableEq, Repr

/-- A row of `files` below its key. -/
structure FileRecord where
  sizeBytes : Nat
  status : Status
  originalFilename : Option String
  currentPath : Option Path
  firstSeenAt : String
  updatedAt : String
  deriving DecidableEq, Repr

/-- A row of `metadata_index` below its key. -/
structure MetadataRow where
  sizeBytes : Int
  modifiedTime : String
  sha256 : String
  createdAt : String
  updatedAt : String
  deriving DecidableEq, Repr

/-- A row of `file_origins` below its key. -/
structure OriginRow where
  sha256 : String
  pathHint : Option String
  firstSeenAt : String
  lastSeenAt : String
  deriving DecidableEq, Repr

structure AcceptedRow where
  sha256 : String
  account : String
  sourcePath : String
  acceptedAt : String
  deriving DecidableEq, Repr

structure AuditRow where
  id : Nat
  sha256 : Option String
  accountName : Option String
  action : AuditAction
  reason : Option String
  actor : String
  ts : String
  deriving DecidableEq, Repr

structure LivePhotoPairRecord where
  pairId : String
  account : String
  stem : String
  photoSha256 : String
  videoSha256 : String
  status : PairStatus
  createdAt : String
  updatedAt : String
  deriving DecidableEq, Repr

structure TerminalRow where
  batchRunId : String
  sequenceNo : Nat
  account : String
  onedriveId : String
  sha256 : Option String
  action : String
  reason : String
  actor : String
  ts : String
  deriving DecidableEq, Repr

inductive RuleType where
  | filename
  | regex
  deriving DecidableEq, Repr

def RuleType.str : RuleType → String
  | .filename => "filename"
  | .regex => "regex"

structure BlockRule where
  id : Nat
  ruleType : RuleType
  pattern : String
  enabled : Bool
  deriving DecidableEq, Repr

/-- A row of `ui_action_idempotency`: the stored response is `(status, state)`. -/
structure IdempotencyRow where
  action : TriageAction
  itemId : String
  responseStatus : Nat
  state : Status
  deriving DecidableEq, Repr

/-- A row of `external_hash_cache`. -/
structure ExternalHashRow where
  accountName : String
  sourceRelpath : Option String
  hashAlgo : String
  hashValue : String
  verifiedSha256 : Option String
  firstSeenAt : String
  updatedAt : String
  deriving DecidableEq, Repr

/-- The database. `auditSeq` is the `sqlite_sequence` entry of `audit_log`;
`livePhotoPairs` and `blockedRules` are in rowid order. -/
structure Registry where
  files : Table String FileRecord
  metadataIndex : Table (String × String) MetadataRow
  fileOrigins : Table (String × String) OriginRow
  acceptedRecords : List AcceptedRow
  auditLog : List AuditRow
  auditSeq : Nat
  livePhotoPairs : List LivePhotoPairRecord
  ingestTerminalAudit : List TerminalRow
  blockedRules : List BlockRule
  uiActionIdempotency : Table String IdempotencyRow
  externalHashCache : List ExternalHashRow

/-- A database as `initialize` leaves it. -/
def Registry.empty : Registry where
  files := ∅
  metadataIndex := ∅
  fileOrigins := ∅
  acceptedRecords := []
  auditLog := []
  auditSeq := 0
  livePhotoPairs := []
  ingestTerminalAudit := []
  blockedRules := []
  uiActionIdempotency := ∅
  externalHashCache := []

/-- Why a transaction rolled back. -/
inductive TxError where
  | registry (msg : String)
  | integrity
  | notFound
  deriving DecidableEq, Repr

namespace Registry

/-- `get_file`. -/
def getFile (r : Registry) (sha : String) : Option FileRecord := r.files.get sha

/-- The status of a sha, `none` when it has no row. -/
def statusOf (r : Registry) (sha : String) : Option Status := (r.files.get sha).map (·.status)

/-- One `INSERT INTO audit_log`. -/
def audit (r : Registry) (sha account : Option String) (action : AuditAction)
    (reason : Option String) (actor now : String) : Registry :=
  { r with
    auditLog := r.auditLog ++ [⟨r.auditSeq + 1, sha, account, action, reason, actor, now⟩]
    auditSeq := r.auditSeq + 1 }

/-- `append_audit_event`. -/
def appendAuditEvent (r : Registry) (sha : Option String) (action : AuditAction) (reason : String)
    (actor now : String) : Registry := r.audit sha none action (some reason) actor now

/-- The upsert shared by `create_or_update_file` and `finalize_unknown_ingest`:
a conflict keeps `first_seen_at` and, when the new name is null, the old one. -/
def upsertFile (r : Registry) (sha : String) (sizeBytes : Nat) (status : Status)
    (originalFilename : Option String) (currentPath : Option Path) (now : String) : Registry :=
  let row := match r.files.get sha with
    | none => ⟨sizeBytes, status, originalFilename, currentPath, now, now⟩
    | some old => ⟨sizeBytes, status, originalFilename.or old.originalFilename, currentPath,
        old.firstSeenAt, now⟩
  { r with files := r.files.put sha row }

/-- mirrors src/nightfall_photo_ingress/domain/registry.py:182-218 -/
def createOrUpdateFile (r : Registry) (sha : String) (sizeBytes : Nat) (status : Status)
    (originalFilename : Option String) (currentPath : Option Path) (now : String) : Registry :=
  r.upsertFile sha sizeBytes status originalFilename currentPath now

/-- mirrors src/nightfall_photo_ingress/domain/registry.py:220-254 -/
def upsertMetadataIndex (r : Registry) (account onedriveId : String) (sizeBytes : Nat)
    (modifiedTime sha now : String) : Registry :=
  let created := match r.metadataIndex.get (account, onedriveId) with
    | none => now
    | some old => old.createdAt
  { r with metadataIndex :=
      r.metadataIndex.put (account, onedriveId) ⟨sizeBytes, modifiedTime, sha, created, now⟩ }

/-- mirrors src/nightfall_photo_ingress/domain/registry.py:256-287 -/
def upsertFileOrigin (r : Registry) (sha account onedriveId : String) (pathHint : Option String)
    (now : String) : Except TxError Registry :=
  let first := match r.fileOrigins.get (account, onedriveId) with
    | none => now
    | some old => old.firstSeenAt
  if (r.files.get sha).isSome then
    .ok { r with fileOrigins := r.fileOrigins.put (account, onedriveId) ⟨sha, pathHint, first, now⟩ }
  else .error .integrity

/-- mirrors src/nightfall_photo_ingress/domain/registry.py:309-417 -/
def finalizeUnknownIngest (r : Registry) (sha : String) (sizeBytes : Nat) (originalFilename : String)
    (currentPath : Path) (account onedriveId sourcePath modifiedTime actor now : String) :
    Except TxError Registry := do
  let r := r.upsertFile sha sizeBytes .pending (some originalFilename) (some currentPath) now
  let r := r.upsertMetadataIndex account onedriveId sizeBytes modifiedTime sha now
  let r ← r.upsertFileOrigin sha account onedriveId (some sourcePath) now
  return r.audit (some sha) (some account) (.status .pending) (some "unknown_hash") actor now

/-- mirrors src/nightfall_photo_ingress/domain/registry.py:419-468 -/
def finalizeAcceptFromPending (r : Registry) (sha : String) (newPath : Path)
    (account sourcePath actor reason now : String) : Except TxError Registry :=
  match r.files.get sha with
  | none => .error (.registry ("Cannot accept missing sha256: " ++ sha))
  | some row =>
    if row.status ≠ .pending then
      .error (.registry ("Cannot accept file with status '" ++ row.status.str ++
        "': expected 'pending'"))
    else
      let row' := { row with status := .accepted, currentPath := some newPath, updatedAt := now }
      let r := { r with
        files := r.files.put sha row'
        acceptedRecords := r.acceptedRecords ++ [(⟨sha, account, sourcePath, now⟩ : AcceptedRow)] }
      .ok (r.audit (some sha) (some account) (.status .accepted) (some reason) actor now)

/-- mirrors src/nightfall_photo_ingress/domain/registry.py:503-567 -/
def finalizeKnownIngest (r : Registry) (sha : String) (knownStatus : Status)
    (account onedriveId sourcePath modifiedTime : String) (sizeBytes : Nat) (actor now : String) :
    Except TxError Registry := do
  let r := r.upsertMetadataIndex account onedriveId sizeBytes modifiedTime sha now
  let r ← r.upsertFileOrigin sha account onedriveId (some sourcePath) now
  return r.audit (some sha) (some account) (.discard knownStatus) (some "known_hash") actor now

/-- mirrors src/nightfall_photo_ingress/domain/registry.py:569-580 -/
def clearCurrentPath (r : Registry) (sha now : String) : Registry :=
  { r with files := r.files.modify sha fun row =>
      { row with currentPath := none, updatedAt := now } }

/-- mirrors src/nightfall_photo_ingress/domain/registry.py:582-593 -/
def updateCurrentPath (r : Registry) (sha : String) (newPath : Path) (now : String) : Registry :=
  { r with files := r.files.modify sha fun row =>
      { row with currentPath := some newPath, updatedAt := now } }

/-- mirrors src/nightfall_photo_ingress/domain/registry.py:595-634 -/
def finalizePurgeFromRejected (r : Registry) (sha reason actor now : String) :
    Except TxError Registry :=
  match r.files.get sha with
  | none => .error (.registry ("Cannot purge missing sha256: " ++ sha))
  | some row =>
    if row.status ≠ .rejected then
      .error (.registry ("Cannot purge sha256 with status '" ++ row.status.str ++
        "': expected 'rejected'"))
    else
      let row' := { row with status := .purged, currentPath := none, updatedAt := now }
      .ok (({ r with files := r.files.put sha row' }).audit (some sha) none (.status .purged)
        (some reason) actor now)

/-- mirrors src/nightfall_photo_ingress/domain/registry.py:636-667 -/
def transitionStatus (r : Registry) (sha : String) (newStatus : Status) (reason actor now : String) :
    Except TxError Registry :=
  match r.files.get sha with
  | none => .error (.registry ("Cannot transition missing sha256: " ++ sha))
  | some row =>
    let row' := { row with status := newStatus, updatedAt := now }
    .ok (({ r with files := r.files.put sha row' }).audit (some sha) none (.status newStatus)
      (some reason) actor now)

/-- mirrors src/nightfall_photo_ingress/domain/registry.py:695-740 -/
def appendIngestTerminalEvent (r : Registry) (batchRunId : String) (sequenceNo : Nat)
    (account onedriveId : String) (sha : Option String) (action reason actor now : String) :
    Registry :=
  { r with ingestTerminalAudit := r.ingestTerminalAudit ++
      [⟨batchRunId, sequenceNo, account, onedriveId, sha, action, reason, actor, now⟩] }

/-- The rows with a pair's id replaced, or the pair appended.
mirrors src/nightfall_photo_ingress/domain/registry.py:914-964 -/
def upsertLivePhotoPair (r : Registry) (pairId account stem photoSha videoSha : String)
    (status : PairStatus) (now : String) : Except TxError Registry :=
  if (r.files.get photoSha).isSome ∧ (r.files.get videoSha).isSome then
    let upd (row : LivePhotoPairRecord) : LivePhotoPairRecord :=
      if row.pairId = pairId then
        ⟨pairId, account, stem, photoSha, videoSha, status, row.createdAt, now⟩
      else row
    let rows := r.livePhotoPairs
    .ok { r with livePhotoPairs :=
      if rows.any (·.pairId = pairId) then rows.map upd
      else rows ++ [⟨pairId, account, stem, photoSha, videoSha, status, now, now⟩] }
  else .error .integrity

/-- `get_live_photo_pair`. -/
def getLivePhotoPair (r : Registry) (pairId : String) : Option LivePhotoPairRecord :=
  r.livePhotoPairs.find? (·.pairId = pairId)

/-- The first pair in rowid order (`LIMIT 1`).
mirrors src/nightfall_photo_ingress/domain/registry.py:993-1019 -/
def getLivePhotoPairForMember (r : Registry) (sha : String) : Option LivePhotoPairRecord :=
  r.livePhotoPairs.find? fun row => row.photoSha256 = sha ∨ row.videoSha256 = sha

/-- The last transaction of `apply_live_photo_pair_status`. -/
def setLivePhotoPairStatus (r : Registry) (pairId : String) (status : Status) (now : String) :
    Registry :=
  { r with livePhotoPairs := r.livePhotoPairs.map fun row =>
      if row.pairId = pairId then { row with status := .of status, updatedAt := now } else row }

structure AcceptContext where
  account : String
  sourcePath : String
  modifiedTime : String
  deriving DecidableEq, Repr

/-- The row with the greatest `last_seen_at`; ties are resolved by table order. -/
def latestOrigin (rows : List ((_ : String × String) × OriginRow)) :
    Option ((_ : String × String) × OriginRow) :=
  rows.foldl (fun best row => match best with
    | none => some row
    | some b => if b.2.lastSeenAt < row.2.lastSeenAt then some row else best) none

/-- mirrors src/nightfall_photo_ingress/domain/registry.py:470-501 -/
def getAcceptContext (r : Registry) (sha now : String) : Option AcceptContext :=
  match latestOrigin (r.fileOrigins.entries.filter fun row => row.2.sha256 = sha) with
  | none => none
  | some ⟨(account, onedriveId), row⟩ =>
    let modified := match r.metadataIndex.get (account, onedriveId) with
      | some m => if m.sha256 = sha ∧ m.modifiedTime ≠ "" then m.modifiedTime else now
      | none => now
    some ⟨account, row.pathHint.getD "/", modified⟩

/-- The join of `_prefilter_status`; the declared size `-1` stands for unknown.
mirrors src/nightfall_photo_ingress/domain/ingest.py:677-712 -/
def prefilterStatus (r : Registry) (account onedriveId : String) (sizeBytes : Option Int)
    (modifiedTime : String) : Option (Status × String) :=
  match r.metadataIndex.get (account, onedriveId) with
  | none => none
  | some m =>
    if m.sizeBytes = sizeBytes.getD (-1) ∧ m.modifiedTime = modifiedTime then
      (r.files.get m.sha256).map fun f => (f.status, m.sha256)
    else none

/-- `SELECT rule_type, pattern FROM blocked_rules WHERE enabled = 1 ORDER BY id`. -/
def enabledBlockRules (r : Registry) : List (RuleType × String) :=
  (r.blockedRules.filter (·.enabled)).map fun b => (b.ruleType, b.pattern)

/-- The rows a prune retains: all but the `auth_failure` rows before the latest
`keep` of them. -/
def retainedAudit (rows : List AuditRow) (keep : Nat) : List AuditRow :=
  let latest := (((rows.filter (·.action == .authFailure)).map (·.id)).reverse).take keep
  rows.filter fun row => row.action != .authFailure || latest.contains row.id

/-- The table is rebuilt from the retained rows, so its sequence restarts
behind the last of them.
mirrors src/nightfall_photo_ingress/domain/registry.py:119-180 -/
def pruneAuthFailureAuditBacklog (r : Registry) (keepLatest : Int) : Except TxError Registry :=
  if keepLatest < 0 then .error (.registry "keep_latest must be >= 0")
  else
    let keep := keepLatest.toNat
    if (r.auditLog.filter (·.action == .authFailure)).length - keep = 0 then .ok r
    else
      let rows := retainedAudit r.auditLog keep
      .ok { r with auditLog := rows, auditSeq := (rows.getLast?.map (·.id)).getD 0 }

/-! ## Imported hashes -/

/-- The row of an imported hash: no source account and no source path. -/
def hashImportRow (hash now : String) : ExternalHashRow :=
  ⟨"__hash_import__", none, "sha256", hash, some hash, now, now⟩

/-- The unique index of the rows without a source path has an entry for `hash`. -/
def hasHashImport (rows : List ExternalHashRow) (hash : String) : Bool :=
  rows.any fun row => row.accountName = "__hash_import__" ∧ row.sourceRelpath = none ∧
    row.hashAlgo = "sha256" ∧ row.hashValue = hash

/-- `INSERT OR IGNORE`. -/
def insertHashImport (now : String) (rows : List ExternalHashRow) (hash : String) :
    List ExternalHashRow :=
  if hasHashImport rows hash then rows else rows ++ [hashImportRow hash now]

/-- One chunk of `bulk_insert_hash_import`, which is one transaction: the
registry, the rows that are new, and the hashes that were there.
mirrors src/nightfall_photo_ingress/domain/registry.py:850-901 -/
def bulkInsertHashImport (r : Registry) (hashes : List String) (now : String) :
    Registry × Nat × Nat :=
  let rows := hashes.foldl (insertHashImport now) r.externalHashCache
  let imported := rows.length - r.externalHashCache.length
  ({ r with externalHashCache := rows }, imported, hashes.length - imported)

/-! ## Web triage (`api/services/triage_service.py`) -/

/-- `resolve_account_name`: the account that last wrote the sha's metadata,
else the one of its latest origin. -/
def resolveAccountName (r : Registry) (sha : String) : Option String :=
  let rows := r.metadataIndex.entries.filter fun row => row.2.sha256 = sha
  let best : Option ((_ : String × String) × MetadataRow) :=
    rows.foldl (fun best row => match best with
      | none => some row
      | some b => if b.2.updatedAt < row.2.updatedAt then some row else best) none
  let fromOrigin : Option String :=
    match latestOrigin (r.fileOrigins.entries.filter fun row => row.2.sha256 = sha) with
    | some ⟨(account, _), _⟩ => if account = "" then none else some account
    | none => none
  match best with
  | some ⟨(account, _), _⟩ => if account = "" then fromOrigin else some account
  | none => fromOrigin

/-- `write_triage_requested_event` and `write_triage_compensating_event`. -/
def triageEvent (r : Registry) (a : TriageAction) (p : TriagePhase) (itemId : String)
    (reason : Option String) (actor now : String) : Registry :=
  r.audit (some itemId) (r.resolveAccountName itemId) (.triage a p) reason actor now

/-- The `BEGIN ... commit` of `TriageService.execute`; a stored key violates
`UNIQUE (idempotency_key)`.
mirrors api/services/triage_service.py:66-106 -/
def triageApply (r : Registry) (a : TriageAction) (itemId key : String) (reason : Option String)
    (actor now : String) : Except TxError Registry :=
  match r.files.get itemId with
  | none => .error .notFound
  | some row =>
    let row' := { row with status := a.state, updatedAt := now }
    let r := { r with files := r.files.put itemId row' }
    let r := r.triageEvent a .applied itemId reason actor now
    match r.uiActionIdempotency.get key with
    | some _ => .error .integrity
    | none =>
      let stored := r.uiActionIdempotency.put key ⟨a, itemId, 200, a.state⟩
      .ok { r with uiActionIdempotency := stored }

/-! ## What the methods do to `files` -/

@[simp] theorem files_audit (r : Registry) (sha account : Option String) (a : AuditAction)
    (reason : Option String) (actor now : String) :
    (r.audit sha account a reason actor now).files = r.files := rfl

@[simp] theorem files_appendAuditEvent (r : Registry) (sha : Option String) (a : AuditAction)
    (reason actor now : String) : (r.appendAuditEvent sha a reason actor now).files = r.files := rfl

@[simp] theorem files_upsertMetadataIndex (r : Registry) (account id : String) (n : Nat)
    (mt sha now : String) : (r.upsertMetadataIndex account id n mt sha now).files = r.files := rfl

@[simp] theorem files_setLivePhotoPairStatus (r : Registry) (id : String) (s : Status)
    (now : String) : (r.setLivePhotoPairStatus id s now).files = r.files := rfl

@[simp] theorem files_appendIngestTerminalEvent (r : Registry) (b : String) (n : Nat)
    (account id : String) (sha : Option String) (action reason actor now : String) :
    (r.appendIngestTerminalEvent b n account id sha action reason actor now).files = r.files := rfl

/-- The row an upsert leaves has the new status and path. -/
theorem files_upsertFile (r : Registry) (sha : String) (n : Nat) (st : Status) (name : Option String)
    (path : Option Path) (now : String) :
    ∃ row, row.status = st ∧ row.currentPath = path ∧
      (r.upsertFile sha n st name path now).files = r.files.put sha row := by
  unfold upsertFile
  cases r.files.get sha <;> exact ⟨_, rfl, rfl, rfl⟩

theorem files_upsertFileOrigin {r r' : Registry} {sha account id : String} {hint : Option String}
    {now : String} (h : r.upsertFileOrigin sha account id hint now = .ok r') :
    r'.files = r.files := by
  unfold upsertFileOrigin at h
  simp only at h
  split at h
  · cases h; rfl
  · cases h

theorem files_finalizeUnknownIngest {r r' : Registry} {sha : String} {n : Nat} {name : String}
    {path : Path} {account id src mt actor now : String}
    (h : r.finalizeUnknownIngest sha n name path account id src mt actor now = .ok r') :
    ∃ row, row.status = .pending ∧ row.currentPath = some path ∧ r'.files = r.files.put sha row := by
  obtain ⟨row, hs, hp, hf⟩ := files_upsertFile r sha n .pending (some name) (some path) now
  refine ⟨row, hs, hp, ?_⟩
  simp only [finalizeUnknownIngest, bind, Except.bind] at h
  split at h
  · cases h
  · next r₁ h₁ =>
    cases h
    rw [files_audit, files_upsertFileOrigin h₁, files_upsertMetadataIndex, hf]

/-- The foreign key of `file_origins` cannot fail: the same transaction has
just written the `files` row. -/
theorem finalizeUnknownIngest_ok (r : Registry) (sha : String) (n : Nat) (name : String)
    (path : Path) (account id src mt actor now : String) :
    ∃ r', r.finalizeUnknownIngest sha n name path account id src mt actor now = .ok r' := by
  obtain ⟨row, -, -, hf⟩ := files_upsertFile r sha n .pending (some name) (some path) now
  simp only [finalizeUnknownIngest, upsertFileOrigin, files_upsertMetadataIndex, hf,
    Table.get_put_self, Option.isSome_some, if_true, bind, Except.bind]
  exact ⟨_, rfl⟩

theorem files_finalizeAcceptFromPending {r r' : Registry} {sha : String} {path : Path}
    {account src actor reason now : String}
    (h : r.finalizeAcceptFromPending sha path account src actor reason now = .ok r') :
    ∃ old, r.files.get sha = some old ∧ old.status = .pending ∧ r'.files = r.files.put sha
      { old with status := .accepted, currentPath := some path, updatedAt := now } := by
  unfold finalizeAcceptFromPending at h
  split at h
  · cases h
  · next row hrow =>
    split at h
    · cases h
    · next hst =>
      cases h
      exact ⟨row, hrow, by simpa using hst, rfl⟩

theorem finalizeAcceptFromPending_ok {r : Registry} {sha : String} {row : FileRecord} (path : Path)
    (account src actor reason now : String) (hrow : r.files.get sha = some row)
    (hst : row.status = .pending) :
    ∃ r', r.finalizeAcceptFromPending sha path account src actor reason now = .ok r' := by
  simp [finalizeAcceptFromPending, hrow, hst]

theorem files_finalizeKnownIngest {r r' : Registry} {sha : String} {st : Status}
    {account id src mt : String} {n : Nat} {actor now : String}
    (h : r.finalizeKnownIngest sha st account id src mt n actor now = .ok r') :
    r'.files = r.files := by
  simp only [finalizeKnownIngest, bind, Except.bind] at h
  split at h
  · cases h
  · next r₁ h₁ => cases h; rw [files_audit, files_upsertFileOrigin h₁, files_upsertMetadataIndex]

/-- A known hash satisfies the foreign key. -/
theorem finalizeKnownIngest_ok {r : Registry} {sha : String} {row : FileRecord} (st : Status)
    (account id src mt : String) (n : Nat) (actor now : String)
    (hrow : r.files.get sha = some row) :
    ∃ r', r.finalizeKnownIngest sha st account id src mt n actor now = .ok r' := by
  simp only [finalizeKnownIngest, upsertFileOrigin, files_upsertMetadataIndex, hrow,
    Option.isSome_some, if_true, bind, Except.bind]
  exact ⟨_, rfl⟩

theorem files_clearCurrentPath (r : Registry) (sha now : String) :
    (r.clearCurrentPath sha now).files =
      r.files.modify sha fun row => { row with currentPath := none, updatedAt := now } := rfl

theorem files_updateCurrentPath (r : Registry) (sha : String) (p : Path) (now : String) :
    (r.updateCurrentPath sha p now).files =
      r.files.modify sha fun row => { row with currentPath := some p, updatedAt := now } := rfl

theorem files_finalizePurgeFromRejected {r r' : Registry} {sha reason actor now : String}
    (h : r.finalizePurgeFromRejected sha reason actor now = .ok r') :
    ∃ old, r.files.get sha = some old ∧ old.status = .rejected ∧ r'.files = r.files.put sha
      { old with status := .purged, currentPath := none, updatedAt := now } := by
  unfold finalizePurgeFromRejected at h
  split at h
  · cases h
  · next row hrow =>
    split at h
    · cases h
    · next hst =>
      cases h
      exact ⟨row, hrow, by simpa using hst, rfl⟩

theorem files_transitionStatus {r r' : Registry} {sha : String} {st : Status}
    {reason actor now : String} (h : r.transitionStatus sha st reason actor now = .ok r') :
    ∃ old, r.files.get sha = some old ∧
      r'.files = r.files.put sha { old with status := st, updatedAt := now } := by
  unfold transitionStatus at h
  split at h
  · cases h
  · next row hrow => cases h; exact ⟨row, hrow, rfl⟩

theorem files_upsertLivePhotoPair {r r' : Registry} {id account stem p v : String}
    {st : PairStatus} {now : String}
    (h : r.upsertLivePhotoPair id account stem p v st now = .ok r') : r'.files = r.files := by
  unfold upsertLivePhotoPair at h
  split at h
  · cases h; rfl
  · cases h

theorem files_triageApply {r r' : Registry} {a : TriageAction} {item key : String}
    {reason : Option String} {actor now : String}
    (h : r.triageApply a item key reason actor now = .ok r') :
    ∃ old, r.files.get item = some old ∧ r'.files = r.files.put item
      { old with status := a.state, updatedAt := now } := by
  unfold triageApply at h
  split at h
  · cases h
  · next row hrow =>
    simp only at h
    split at h
    · cases h
    · cases h; exact ⟨row, hrow, rfl⟩

theorem files_pruneAuthFailureAuditBacklog {r r' : Registry} {keep : Int}
    (h : r.pruneAuthFailureAuditBacklog keep = .ok r') : r'.files = r.files := by
  unfold pruneAuthFailureAuditBacklog at h
  split at h
  · cases h
  · simp only at h
    split at h <;> cases h <;> rfl

end Registry
end Nightfall
