import Nightfall.L3Flows.Batch

/-!
# Operator commands (`reject.py`, `api/services/triage_service.py`)

`acceptSha256`, `rejectSha256`, `purgeSha256` and `processTrash` are the CLI
flows; `triageExecute` is the web service's write path, which changes a status
without touching a file.
-/
namespace Nightfall
open Nightfall.Core Storage

/-- The core settings the flows read, as `_validate_core` lets them through.
mirrors src/nightfall_photo_ingress/config.py:596-618 -/
structure CoreConfig where
  pendingPath : Path
  acceptedPath : Path
  rejectedPath : Path
  trashPath : Path
  storageTemplate : String
  acceptedStorageTemplate : String
  storage_named : namesFile storageTemplate = true
  accepted_named : namesFile acceptedStorageTemplate = true
  distinct : [pendingPath, acceptedPath, rejectedPath, trashPath].Nodup

inductive RejectAction where
  | rejectedUnknown
  | rejectedPair
  | rejectNoopAlreadyRejected
  | rejectedExisting
  deriving DecidableEq, Repr

structure RejectResult where
  sha256 : String
  action : RejectAction
  removedPaths : List Path
  deriving DecidableEq, Repr

structure TrashProcessResult where
  processedFiles : Nat
  rejectedFiles : Nat
  noopFiles : Nat
  unknownFiles : Nat
  removedPaths : List Path
  deriving DecidableEq, Repr

structure AcceptResult where
  sha256 : String
  destinationPath : Path
  deriving DecidableEq, Repr

structure PurgeResult where
  sha256 : String
  purgedPath : Option Path
  deriving DecidableEq, Repr

/-- `value or default` of a text that may be `None` or empty. -/
def textOr (value : Option String) (fallback : String) : String :=
  match value with
  | some v => if v = "" then fallback else v
  | none => fallback

def isHexDigit (c : Char) : Bool := ('0' ≤ c && c ≤ '9') || ('a' ≤ c && c ≤ 'f')

/-- `sha256.strip().lower()`, when it is 64 lowercase hexadecimal digits. -/
def normalizeSha (sha : String) : Option String :=
  let cs := (stripBy isPySpace sha.toList).map Char.toLower
  if cs.length = 64 ∧ cs.all isHexDigit then some (String.ofList cs) else none

def withNormalizedSha {α : Type} (sha : String) (f : String → Flow α) : Flow α :=
  match normalizeSha sha with
  | none => throw (.rejectFlow ("Invalid SHA-256: " ++ sha))
  | some normalized => f normalized

def getAcceptContext (sha : String) : Flow (Option Registry.AcceptContext) :=
  .op (.getAcceptContext sha) .ret

def getLivePhotoPair (pairId : String) : Flow (Option LivePhotoPairRecord) :=
  .op (.getLivePhotoPair pairId) .ret

def getLivePhotoPairForMember (sha : String) : Flow (Option LivePhotoPairRecord) :=
  .op (.getLivePhotoPairForMember sha) .ret

/-- A registry transaction whose `RegistryError` is raised as `RejectFlowError`. -/
def transactOrReject (t : Tx) : Flow Unit := .op (.tx t) fun
  | .ok () => .ret ()
  | .error (.registry msg) => .err (.rejectFlow msg)
  | .error e => .err (.tx e)

/-! ## Accept and purge -/

def unsafeAcceptMsg (source root : Path) : String :=
  "Unsafe accept source outside pending root: " ++ source.str ++ " (pending_root=" ++ root.str ++ ")"

/-- From the accept source on.
mirrors src/nightfall_photo_ingress/reject.py:121-158 -/
def acceptFrom (env : Env) (cfg : CoreConfig) (sha actor : String) (reason : Option String)
    (context : Registry.AcceptContext) (record : FileRecord) (source : Path) :
    Flow AcceptResult :=
  if withinRoot source cfg.pendingPath then do
    let relative ← renderRelativePath env cfg.acceptedStorageTemplate sha
      (textOr record.originalFilename sha) context.modifiedTime
    let destination ← chooseCollisionSafeDestination (cfg.acceptedPath ++ relative)
    let sameFilesystem ← areOnSameFilesystem source destination.dropLast
    let _ ← commitPendingToAccepted source destination sameFilesystem (some cfg.acceptedPath)
    transact (.finalizeAcceptFromPending sha destination context.account context.sourcePath actor
      (textOr reason "operator_accept"))
    return ⟨sha, destination⟩
  else throw (.rejectFlow (unsafeAcceptMsg source cfg.pendingPath))

/-- mirrors src/nightfall_photo_ingress/reject.py:89-158 -/
def acceptSha256 (env : Env) (cfg : CoreConfig) (sha : String) (reason : Option String)
    (actor : String) : Flow AcceptResult :=
  withNormalizedSha sha fun normalized => do
    match ← getAcceptContext normalized with
    | none => throw (.rejectFlow ("Cannot accept sha256 without origin context: " ++ sha))
    | some context =>
      match ← getFile normalized with
      | none => throw (.rejectFlow ("Unknown SHA-256: " ++ sha))
      | some record =>
        if record.status ≠ .pending then
          throw (.rejectFlow ("Cannot accept sha256 with status '" ++ record.status.str ++
            "': expected 'pending'"))
        else match record.currentPath with
          | none => throw (.rejectFlow ("No current_path for pending sha256: " ++ sha))
          | some source => acceptFrom env cfg normalized actor reason context record source

/-- The file of a row about to be purged; answers the path it removed.
mirrors src/nightfall_photo_ingress/reject.py:185-196 -/
def purgeFile (cfg : CoreConfig) (current : Option Path) : Flow (Option Path) :=
  match current with
  | none => pure none
  | some current =>
    if withinRoot current cfg.rejectedPath then do
      if ← pathExists current then do
        unlink current
        return some current
      else return none
    else throw (.rejectFlow ("Unsafe purge path outside rejected root: " ++ current.str))

/-- mirrors src/nightfall_photo_ingress/reject.py:161-211 -/
def purgeSha256 (cfg : CoreConfig) (sha : String) (reason : Option String) (actor : String) :
    Flow PurgeResult :=
  withNormalizedSha sha fun normalized => do
    match ← getFile normalized with
    | none => throw (.rejectFlow ("Unknown SHA-256: " ++ sha))
    | some record =>
      if record.status ≠ .rejected then
        throw (.rejectFlow ("Cannot purge sha256 with status '" ++ record.status.str ++
          "': expected 'rejected'"))
      else do
        let purged ← purgeFile cfg record.currentPath
        transactOrReject (.finalizePurgeFromRejected normalized (textOr reason "cli_purge") actor)
        return ⟨normalized, purged⟩

/-! ## Reject -/

/-- mirrors src/nightfall_photo_ingress/reject.py:427-450 -/
def movePhysicalToRejected (env : Env) (cfg : CoreConfig) (source : Option Path) (sha : String)
    (originalFilename : Option String) (modifiedTime : String) : Flow (Option Path) :=
  match source with
  | none => pure none
  | some source => do
    if ← pathExists source then do
      let relative ← renderRelativePath env cfg.storageTemplate sha
        (textOr originalFilename source.name) modifiedTime
      let destination ← chooseCollisionSafeDestination (cfg.rejectedPath ++ relative)
      replaceFile source destination
      return some destination
    else return none

def unsafeRejectMsg (source pending accepted : Path) : String :=
  "Unsafe reject source outside managed queue roots: " ++ source.str ++ " (pending_root=" ++
    pending.str ++ ", accepted_root=" ++ accepted.str ++ ")"

/-- `context.modified_time if context is not None else _utc_now_iso()`. -/
def rejectModifiedTime (sha : String) : Flow String := do
  match ← getAcceptContext sha with
  | some context => return context.modifiedTime
  | none => return (← utcNow).iso

/-- mirrors src/nightfall_photo_ingress/reject.py:386-424 -/
def moveToRejectedFolder (env : Env) (cfg : CoreConfig) (sha : String) : Flow (List Path) := do
  match ← getFile sha with
  | none => return []
  | some record =>
    match record.currentPath with
    | none => return []
    | some source =>
      if ← pathExists source then
        if !withinRoot source cfg.pendingPath && !withinRoot source cfg.acceptedPath then
          throw (.rejectFlow (unsafeRejectMsg source cfg.pendingPath cfg.acceptedPath))
        else do
          let modifiedTime ← rejectModifiedTime sha
          match ← movePhysicalToRejected env cfg (some source) sha record.originalFilename
              modifiedTime with
          | none => return []
          | some destination => do
            transact (.updateCurrentPath sha destination)
            return [source]
      else do
        transact (.clearCurrentPath sha)
        return []

/-- mirrors src/nightfall_photo_ingress/domain/registry.py:1021-1065 -/
def applyLivePhotoPairStatus (pairId : String) (newStatus : Status) (reason actor : String) :
    Flow Unit := do
  match ← getLivePhotoPair pairId with
  | none => throw (.tx (.registry ("Missing live photo pair: " ++ pairId)))
  | some pair => do
    transact (.transitionStatus pair.photoSha256 newStatus reason actor)
    transact (.transitionStatus pair.videoSha256 newStatus reason actor)
    transact (.setLivePhotoPairStatus pairId newStatus)

/-- Unknown content: keep the incoming file, create the row as rejected.
mirrors src/nightfall_photo_ingress/reject.py:284-310 -/
def rejectUnknown (env : Env) (cfg : CoreConfig) (sha reason actor : String)
    (fallbackName : Option String) (fallbackSize : Nat) (incoming : Option Path) :
    Flow RejectResult := do
  let now ← utcNow
  let retained ← movePhysicalToRejected env cfg incoming sha fallbackName now.iso
  transact (.createOrUpdateFile sha fallbackSize .rejected fallbackName retained)
  transact (.appendAuditEvent (some sha) (.status .rejected) reason actor)
  return ⟨sha, .rejectedUnknown, []⟩

/-- mirrors src/nightfall_photo_ingress/reject.py:313-344 -/
def rejectPair (env : Env) (cfg : CoreConfig) (sha reason actor : String)
    (pair : LivePhotoPairRecord) : Flow RejectResult := do
  let photo ← moveToRejectedFolder env cfg pair.photoSha256
  let video ← moveToRejectedFolder env cfg pair.videoSha256
  applyLivePhotoPairStatus pair.pairId .rejected reason actor
  return ⟨sha, .rejectedPair, (photo ++ video).eraseDups⟩

/-- mirrors src/nightfall_photo_ingress/reject.py:346-383 -/
def rejectKnown (env : Env) (cfg : CoreConfig) (sha reason actor : String) (record : FileRecord) :
    Flow RejectResult :=
  if record.status = .rejected then do
    transact (.appendAuditEvent (some sha) .rejectNoopAlreadyRejected reason actor)
    return ⟨sha, .rejectNoopAlreadyRejected, []⟩
  else do
    let removed ← moveToRejectedFolder env cfg sha
    transactOrReject (.transitionStatus sha .rejected reason actor)
    return ⟨sha, .rejectedExisting, removed.eraseDups⟩

/-- mirrors src/nightfall_photo_ingress/reject.py:265-383 -/
def applyReject (env : Env) (cfg : CoreConfig) (sha reason actor : String)
    (fallbackName : Option String) (fallbackSize : Nat) (incoming : Option Path) :
    Flow RejectResult := do
  match ← getFile sha with
  | none => rejectUnknown env cfg sha reason actor fallbackName fallbackSize incoming
  | some record => do
    match ← getLivePhotoPairForMember sha with
    | some pair =>
      if pair.status ≠ .of .rejected then rejectPair env cfg sha reason actor pair
      else rejectKnown env cfg sha reason actor record
    | none => rejectKnown env cfg sha reason actor record

/-- mirrors src/nightfall_photo_ingress/reject.py:60-86 -/
def rejectSha256 (env : Env) (cfg : CoreConfig) (sha : String) (reason : Option String)
    (actor : String) : Flow RejectResult :=
  withNormalizedSha sha fun normalized =>
    applyReject env cfg normalized (textOr reason "cli_reject") actor none 0 none

/-! ## Trash -/

/-- The counters after one more trash file. -/
def TrashProcessResult.add (t : TrashProcessResult) (file : Path) (r : RejectResult) :
    TrashProcessResult :=
  let removed := t.removedPaths ++ file :: r.removedPaths
  match r.action with
  | .rejectedUnknown =>
    ⟨t.processedFiles + 1, t.rejectedFiles + 1, t.noopFiles, t.unknownFiles + 1, removed⟩
  | .rejectNoopAlreadyRejected =>
    ⟨t.processedFiles + 1, t.rejectedFiles, t.noopFiles + 1, t.unknownFiles, removed⟩
  | _ => ⟨t.processedFiles + 1, t.rejectedFiles + 1, t.noopFiles, t.unknownFiles, removed⟩

/-- The body of the loop for one trash file.
mirrors src/nightfall_photo_ingress/reject.py:230-254 -/
def trashOne (env : Env) (cfg : CoreConfig) (file : Path) : Flow RejectResult := do
  let sha ← sha256File file
  let size ← statSize file
  let result ← applyReject env cfg sha "trash_reject" "trash_watch" (some file.name) size (some file)
  unlink file
  return result

def trashLoop (env : Env) (cfg : CoreConfig) :
    List Path → TrashProcessResult → Flow TrashProcessResult
  | [], acc => pure acc
  | file :: files, acc => do
    let result ← trashOne env cfg file
    trashLoop env cfg files (acc.add file result)

/-- mirrors src/nightfall_photo_ingress/reject.py:214-262 -/
def processTrash (env : Env) (cfg : CoreConfig) : Flow TrashProcessResult := do
  let files ← rglobFiles cfg.trashPath
  let result ← trashLoop env cfg files ⟨0, 0, 0, 0, []⟩
  return { result with removedPaths := result.removedPaths.eraseDups }

/-! ## Web triage -/

structure TriageResponse where
  responseStatus : Nat
  actionCorrelationId : String
  itemId : String
  state : Status
  deriving DecidableEq, Repr

def replayed (key : String) : Flow (Option IdempotencyRow) := .op (.replayed key) .ret

def triageApply (a : TriageAction) (item key : String) (reason : Option String)
    (actor now : String) : Flow (Except TxError Unit) :=
  .op (.tx (.triageApply a item key reason actor now)) .ret

/-- The rollback, the compensating event and the re-raise. -/
def compensate (a : TriageAction) (item : String) (reason : Option String) (actor : String)
    (e : TxError) : Flow TriageResponse := do
  transact (.triageEvent a .compensating item reason actor)
  match e with
  | .notFound => throw (.lookup "Item not found")
  | e => throw (.tx e)

/-- `TriageService.execute`, thumbnails left out: a stored key answers again, a
new one writes a requested event and then one transaction.
mirrors api/services/triage_service.py:32-126 -/
def triageExecute (a : TriageAction) (item key : String) (reason : Option String)
    (actor : String) : Flow TriageResponse := do
  match ← replayed key with
  | some row =>
    if row.action ≠ a ∨ row.itemId ≠ item then throw (.value "Idempotency key reuse conflict")
    else return ⟨row.responseStatus, key, row.itemId, row.state⟩
  | none => do
    let now ← utcNow
    transact (.triageEvent a .requested item reason actor)
    match ← triageApply a item key reason actor now.iso with
    | .ok () => return ⟨200, key, item, a.state⟩
    | .error e => compensate a item reason actor e

end Nightfall
