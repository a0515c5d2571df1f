import Mathlib.Data.List.DropRight
import Nightfall.Core.Prog
import Nightfall.L7OneDrive.Backoff
import Nightfall.L7OneDrive.Delta

/-!
# Requests and files of the OneDrive client (`adapters/onedrive/client.py`)

`ClientState` holds the files of one account and, beside them, what has
happened so far: the Graph requests sent, the resyncs recorded, the rows that a
page processor took, the candidates counted as ghosts, the retries counted.
`Outside` answers the rest: the server, the clocks, the jitter, the processor,
whether a file operation fails and whether a poll drifted. Its answers depend on
how many operations came before, so any server is one.

Clock readings count nanoseconds. Trace events, hints, directories and the
diagnostic counters that no modelled function reads are left out.

* `graphGetJson`, `downloadWithRetry`: the two retry loops.
* `calls_graphGetJson`, `calls_downloadWithRetry`: what they may touch.
-/
namespace Nightfall.OneDrive
open Nightfall.Core Storage Prog

/-! ## The machine -/

structure Response where
  status : Nat
  /-- `json.loads(response.text)`, `none` for `JSONDecodeError` -/
  json : Option Json
  chunks : List Bytes
  /-- the `Location` header -/
  location : Option String
  /-- what the `Retry-After` header says in seconds, if it says anything -/
  retryAfter : Option Float

/-- What `http_client.get` does. -/
inductive HttpAnswer where
  | requestError (type : String)
  /-- an exception that is no `RequestError` -/
  | raises
  | response (r : Response)

/-- What `refresh_access_token()` does. -/
inductive RefreshAnswer where
  | token (t : String)
  | authError
  | raises

inductive ClientError where
  | graph (message code : String) (url : Option String) (status : Option Nat)
  | resyncRequired (url : String) (resyncUrl : Option String)
  | download (message code : String) (url : String) (status : Option Nat)
  /-- `OSError`, `OverflowError`, `AttributeError`, or what a callback raised -/
  | raised
  deriving DecidableEq, Repr

structure DownloadedHandoffCandidate where
  accountName : String
  onedriveId : String
  originalFilename : String
  relativePath : String
  modifiedTime : String
  sizeBytes : Option Int
  stagingPath : Path
  deriving DecidableEq, Repr

structure ResyncMarker where
  account : String
  requiredAt : String
  reason : String
  resyncUrl : Option String
  deriving DecidableEq, Repr

/-- What the incident file holds; a file that is absent or no object holds
nothing. -/
structure IncidentState where
  loopIncidents : Option Int
  cooldownUntilEpoch : Option Int
  deriving DecidableEq, Repr

structure LifecycleEvent where
  ts : String
  event : String
  account : String
  itemId : String
  path : Path
  deriving DecidableEq, Repr

/-- One file operation. `markResync` carries the URL that was rejected, which
the marker does not. -/
inductive FileOp where
  | saveCursor (cursor : String)
  | markResync (rejected : String) (marker : ResyncMarker)
  | clearResyncMarker
  | saveIncidentState (s : IncidentState)
  | unlinkManifest
  | appendManifest (row : DownloadedHandoffCandidate)
  | appendLifecycle (e : LifecycleEvent)
  | unlink (p : Path)
  | replace (src dst : Path)
  | openWb (p : Path)
  | write (p : Path) (chunk : Bytes)

inductive ClientOp where
  | get (url : String) (bearer : Option String)
  | refreshAccessToken
  /-- `sleeper(compute_delay(..))` -/
  | sleep (policy : RetryPolicy) (attempt : Nat) (retryAfter : Option Float)
  | monotonic
  | time
  /-- `datetime.now(timezone.utc).isoformat()`, as often as it is read -/
  | utcnow
  | readCursor
  | loadIncidentState
  /-- the `.tmp` files of a directory with their age -/
  | tmpFiles (dir : Path)
  | file (f : FileOp)
  /-- the entry into `download_candidates`, with its arguments -/
  | enterDownload (candidates : List RemoteCandidate) (maxDownloads : Option Int)
  /-- a ghost reason counted for a candidate -/
  | countGhost (candidate : RemoteCandidate) (reason : String)
  /-- `retry_attempt_total`, and `retry_transport_error_total` -/
  | countRetry (transport : Bool)
  /-- `drift_fail_fast_enabled and drift_state == "critical"` -/
  | driftCritical
  | pageHandoff (accountName : String) (rows : List DownloadedHandoffCandidate)

/-- A file operation answers whether it was done; `OSError` leaves everything as
it was. `sleep` and `pageHandoff` answer whether the delay was slept and whether
the processor returned. -/
@[reducible] def ClientOp.Res : ClientOp → Type
  | .get _ _ => HttpAnswer
  | .refreshAccessToken => RefreshAnswer
  | .sleep _ _ _ => Bool
  | .monotonic => Int
  | .time => Int
  | .utcnow => Nat → String
  | .readCursor => Option String
  | .loadIncidentState => IncidentState
  | .tmpFiles _ => List (Path × Int)
  | .file _ => Bool
  | .enterDownload _ _ => Unit
  | .countGhost _ _ => Unit
  | .countRetry _ => Unit
  | .driftCritical => Bool
  | .pageHandoff _ _ => Bool

@[reducible] def ClientOps : Sig := ⟨ClientOp, ClientOp.Res⟩

abbrev ClientFlow (α : Type) := Prog ClientOps ClientError α

structure ClientState where
  cursorFile : Option String
  resyncMarker : Option ResyncMarker
  incidents : IncidentState
  manifest : List DownloadedHandoffCandidate
  lifecycle : List LifecycleEvent
  staging : Table Path Bytes
  /-- the requests sent with a token, oldest first -/
  requests : List String
  /-- the resyncs recorded: the URL rejected and the URL to go on with -/
  resyncs : List (String × Option String)
  /-- the rows a processor took without raising -/
  handed : List DownloadedHandoffCandidate
  ghosts : List (RemoteCandidate × String)
  /-- the failed attempts counted, each with whether the transport failed -/
  retries : List Bool
  tick : Nat

/-- What the world outside answers to operation number `n`. -/
structure Outside where
  get : Nat → String → Option String → HttpAnswer
  refresh : Nat → RefreshAnswer
  monotonic : Nat → Int
  time : Nat → Int
  utcnow : Nat → Nat → String
  age : Nat → Path → Int
  jitter : Nat → Float
  driftCritical : Nat → Bool
  fails : Nat → FileOp → Bool
  processor : Nat → List DownloadedHandoffCandidate → Bool

def FileOp.apply (w : ClientState) : FileOp → ClientState
  | .saveCursor cursor => { w with cursorFile := some cursor }
  | .markResync rejected marker =>
    { w with resyncMarker := some marker, resyncs := w.resyncs ++ [(rejected, marker.resyncUrl)] }
  | .clearResyncMarker => { w with resyncMarker := none }
  | .saveIncidentState s => { w with incidents := s }
  | .unlinkManifest => { w with manifest := [] }
  | .appendManifest row => { w with manifest := w.manifest ++ [row] }
  | .appendLifecycle e => { w with lifecycle := w.lifecycle ++ [e] }
  | .unlink p => { w with staging := w.staging.drop p }
  | .replace src dst =>
    match w.staging.get src with
    | none => w
    | some b => { w with staging := (w.staging.drop src).put dst b }
  | .openWb p => { w with staging := w.staging.put p [] }
  | .write p chunk => { w with staging := w.staging.modify p (· ++ chunk) }

/-- `replace` of a file that is not there raises too. -/
def FileOp.refused (w : ClientState) : FileOp → Bool
  | .replace src _ => (w.staging.get src).isNone
  | _ => false

def isTmpOf (dir p : Path) : Bool :=
  p.dropLast == dir && (splitSuffix p.name.toList).2 == ".tmp".toList

/-- What an operation does to the state, the count of operations apart. -/
def effect (out : Outside) : (o : ClientOp) → ClientState → o.Res × ClientState
  | .get url bearer, w =>
    (out.get w.tick url bearer,
      if bearer.isSome then { w with requests := w.requests ++ [url] } else w)
  | .refreshAccessToken, w => (out.refresh w.tick, w)
  | .sleep policy attempt retryAfter, w => (sleeps policy attempt retryAfter (out.jitter w.tick), w)
  | .monotonic, w => (out.monotonic w.tick, w)
  | .time, w => (out.time w.tick, w)
  | .utcnow, w => (out.utcnow w.tick, w)
  | .readCursor, w => (w.cursorFile, w)
  | .loadIncidentState, w => (w.incidents, w)
  | .tmpFiles dir, w =>
    ((w.staging.keys.filter (isTmpOf dir)).map fun p => (p, out.age w.tick p), w)
  | .file f, w =>
    if out.fails w.tick f || f.refused w then (false, w) else (true, f.apply w)
  | .enterDownload _ _, w => ((), w)
  | .countGhost candidate reason, w =>
    ((), { w with ghosts := w.ghosts ++ [(candidate, reason)] })
  | .countRetry transport, w => ((), { w with retries := w.retries ++ [transport] })
  | .driftCritical, w => (out.driftCritical w.tick, w)
  | .pageHandoff _ rows, w =>
    if out.processor w.tick rows then (true, { w with handed := w.handed ++ rows })
    else (false, w)

def clientHandle (out : Outside) : Handler ClientOps ClientState := fun o w =>
  ((effect out o w).1, { (effect out o w).2 with tick := w.tick + 1 })

/-- A file operation whose `OSError` is raised. -/
def file (f : FileOp) : ClientFlow Unit := do
  if ← call (S := ClientOps) (.file f) then return () else throw .raised

/-! ## The cursor, the marker and the incident file -/

/-- mirrors src/nightfall_photo_ingress/adapters/onedrive/client.py:2321-2328 -/
def cursorOf (text : Option String) : Option String := truthy (text.map pyStrip)

theorem stripBy_stripBy (p : Char → Bool) (cs : List Char) :
    stripBy p (stripBy p cs) = stripBy p cs := by
  have heq : ∀ cs, stripBy p cs = (cs.dropWhile p).rdropWhile p := fun _ => rfl
  have hhead : (stripBy p cs).dropWhile p = stripBy p cs := by
    rw [List.dropWhile_eq_self_iff]
    intro hl
    have hpre : stripBy p cs <+: cs.dropWhile p := List.rdropWhile_prefix p _
    have hne := List.dropWhile_get_zero_not p cs (hl.trans_le hpre.length_le)
    simpa [hpre.getElem] using hne
  rw [heq (stripBy p cs), hhead, heq cs, List.rdropWhile_idempotent]

theorem pyStrip_pyStrip (s : String) : pyStrip (pyStrip s) = pyStrip s := by
  simp [pyStrip, stripBy_stripBy]

/-- A text that neither starts nor ends with a blank. -/
theorem pyStrip_eq_self {s : String} {c d : Char} (hc : s.toList.head? = some c)
    (hd : s.toList.getLast? = some d) (hc' : isPySpace c = false) (hd' : isPySpace d = false) :
    pyStrip s = s := by
  have hkeep : ∀ {cs : List Char} {c : Char}, cs.head? = some c → isPySpace c = false →
      cs.dropWhile isPySpace = cs := by
    intro cs c h h'
    cases cs with
    | nil => cases h
    | cons b cs =>
      cases h
      simp [h']
  apply String.toList_inj.mp
  rw [pyStrip, stripBy, String.toList_ofList, hkeep hc hc',
    hkeep (by rw [List.head?_reverse, hd]) hd', List.reverse_reverse]

def loadCursor : ClientFlow (Option String) := do
  return cursorOf (← call (S := ClientOps) .readCursor)

/-- mirrors src/nightfall_photo_ingress/adapters/onedrive/client.py:1411-1429 -/
def markResyncRequired (accountName rejected reason : String) (resyncUrl : Option String) :
    ClientFlow Unit := do
  let now ← call (S := ClientOps) .utcnow
  file (.markResync rejected ⟨accountName, now 0, reason, resyncUrl⟩)

def seconds (n : Int) : Int := n * 1000000000

/-- mirrors src/nightfall_photo_ingress/adapters/onedrive/client.py:958-964 -/
def isBreakerCooldownActive (s : IncidentState) : ClientFlow Bool :=
  match s.cooldownUntilEpoch with
  | none => return false
  | some t => do return (← call (S := ClientOps) .time) < t

/-- mirrors src/nightfall_photo_ingress/adapters/onedrive/client.py:967-972 -/
def armBreakerCooldown (cooldownSeconds : Int) : ClientFlow Unit := do
  let s ← call (S := ClientOps) .loadIncidentState
  let now ← call (S := ClientOps) .time
  file (.saveIncidentState { s with cooldownUntilEpoch := some (now + seconds cooldownSeconds) })

/-- mirrors src/nightfall_photo_ingress/adapters/onedrive/client.py:975-985 -/
def incrementLoopIncident : ClientFlow Int := do
  let s ← call (S := ClientOps) .loadIncidentState
  let current := s.loopIncidents.getD 0 + 1
  file (.saveIncidentState { s with loopIncidents := some current })
  return current

/-- mirrors src/nightfall_photo_ingress/adapters/onedrive/client.py:988-993 -/
def resetLoopIncidents : ClientFlow Unit := do
  let s ← call (S := ClientOps) .loadIncidentState
  file (.saveIncidentState { s with loopIncidents := some 0 })

/-! ## Initial URL -/

def hexUpper (n : Nat) : Char := (Nat.digitChar n).toUpper

/-- `quote(text, safe="")`. -/
def quote (text : String) : String :=
  String.ofList (text.toUTF8.data.toList.flatMap fun b =>
    let c := Char.ofNat b.toNat
    if isAlnum c || c == '_' || c == '.' || c == '-' || c == '~' then [c]
    else ['%', hexUpper (b.toNat / 16), hexUpper (b.toNat % 16)])

/-- mirrors src/nightfall_photo_ingress/adapters/onedrive/client.py:2312-2318 -/
def normalizeRootPath (root : String) : String :=
  let normalized := pyStrip root
  if normalized.toList.head? = some '/' then normalized else "/" ++ normalized

def graphBase : String := "https://graph.microsoft.com/v1.0"

/-- mirrors src/nightfall_photo_ingress/adapters/onedrive/client.py:1996-2006 -/
def buildInitialDeltaUrl (root : String) : String :=
  let segments := (((normalizeRootPath root).toList.splitOn '/').filter (· ≠ [])).map String.ofList
  graphBase ++ "/me/drive/root:/" ++ "/".intercalate (segments.map quote) ++ ":/delta"

/-- The initial URL is read back from a file as it is. -/
theorem pyStrip_buildInitialDeltaUrl (root : String) :
    pyStrip (buildInitialDeltaUrl root) = buildInitialDeltaUrl root := by
  refine pyStrip_eq_self (c := 'h') (d := 'a') ?_ ?_ (by decide) (by decide)
  · simp [buildInitialDeltaUrl, graphBase]
  · rw [buildInitialDeltaUrl, String.toList_append, List.getLast?_append]
    rfl

/-! ## Retry loops -/

/-- The arguments every request of a poll shares. -/
structure Requests where
  accessToken : String
  /-- `refresh_access_token is not None` -/
  hasRefresh : Bool
  policy : RetryPolicy

/-- The number of the attempt that leaves so many. -/
def RetryPolicy.attempt (policy : RetryPolicy) (left : Nat) : Nat := policy.maxAttempts.toNat - left

/-- After a failed attempt: give up with `e` on the last one, else sleep and try
again. An exception on the way to the next attempt leaves the loop. -/
def retryOr {α : Type} (policy : RetryPolicy) (left : Nat) (transport : Bool)
    (retryAfter : Option Float) (e : ClientError) (again : ClientFlow α) : ClientFlow α := do
  call (S := ClientOps) (.countRetry transport)
  if left = 0 then throw e
  else do
    if ← call (S := ClientOps) (.sleep policy (policy.attempt left) retryAfter) then again
    else throw .raised

/-- The attempts left, the token in use and whether it was refreshed.
mirrors src/nightfall_photo_ingress/adapters/onedrive/client.py:1766-1993 -/
def graphAttempts (rq : Requests) (url : String) : Nat → String → Bool → ClientFlow Payload
  | 0, _, _ => throw (.graph "Unexpected retry loop exit" "graph_retry_loop_exit" url none)
  | left + 1, token, refreshedOnce => do
    match ← call (S := ClientOps) (.get url (some token)) with
    | .raises => throw .raised
    | .requestError _ =>
      retryOr rq.policy left true none (.graph "Graph transport error after retries exhausted"
        "graph_transport_error" url none) (graphAttempts rq url left token refreshedOnce)
    | .response r =>
      if r.status = 401 ∨ r.status = 403 then
        if refreshedOnce || !rq.hasRefresh then
          throw (.graph "Graph authentication failed" "graph_auth_failed" url r.status)
        else do
          match ← call (S := ClientOps) .refreshAccessToken with
          | .raises => throw .raised
          | .authError =>
            throw (.graph "Graph token refresh failed" "graph_auth_refresh_failed" url r.status)
          | .token t => graphAttempts rq url left t true
      else if classifyStatus r.status then
        retryOr rq.policy left false (parseRetryAfter r.retryAfter) (.graph
          "Graph request retry limit reached" "graph_retry_exhausted" url r.status)
          (graphAttempts rq url left token refreshedOnce)
      else if r.status = 410 then throw (.resyncRequired url r.location)
      else if 400 ≤ r.status then
        throw (.graph "Graph request returned error status" "graph_error" url r.status)
      else match r.json with
        | none => throw (.graph "Invalid JSON in Graph response" "graph_invalid_json" url none)
        | some (.obj payload) => return payload
        | some _ => throw .raised

/-- mirrors src/nightfall_photo_ingress/adapters/onedrive/client.py:1747-1993 -/
def graphGetJson (rq : Requests) (url : String) : ClientFlow Payload :=
  graphAttempts rq url rq.policy.maxAttempts.toNat rq.accessToken false

/-- mirrors src/nightfall_photo_ingress/adapters/onedrive/client.py:1438-1441 -/
def isDownloadUrlUnreachable : ClientError → Bool
  | .download _ _ _ (some status) => [401, 403, 404].contains status
  | _ => false

/-- The fresh download URL of an item, or the ghost reason.
mirrors src/nightfall_photo_ingress/adapters/onedrive/client.py:1444-1488 -/
def resolveDownloadUrlOnce (py : PyValues) (rq : Requests) (itemId : String) :
    ClientFlow (Except String String) := do
  let answer ← (do return .ok (← graphGetJson rq (graphBase ++ "/me/drive/items/" ++ quote itemId)) :
    ClientFlow (Except String Payload)).tryCatch fun
    | .graph _ _ _ (some 404) => return .error "ghost_item_not_found_on_refresh"
    | e => throw e
  match answer with
  | .error reason => return .error reason
  | .ok payload =>
    match truthy (asStr py (payload.get "@microsoft.graph.downloadUrl")) with
    | none => return .error "ghost_missing_download_url_after_refresh"
    | some url => return .ok url

/-- The body into the open file; the answer says whether every write was done. -/
def writeChunks (p : Path) : List Bytes → ClientFlow Bool
  | [] => return true
  | chunk :: chunks =>
    if chunk.isEmpty then writeChunks p chunks
    else do
      if ← call (S := ClientOps) (.file (.write p chunk)) then writeChunks p chunks
      else return false

/-- `with destination.open("wb")`: the answer is false after an `OSError`. -/
def writeBody (p : Path) (chunks : List Bytes) : ClientFlow Bool := do
  if ← call (S := ClientOps) (.file (.openWb p)) then writeChunks p chunks else return false

/-- `destination.unlink(missing_ok=True)`, its `OSError` swallowed. -/
def cleanupPartial (destination : Path) : ClientFlow Unit := do
  let _ ← call (S := ClientOps) (.file (.unlink destination))

/-- The attempts left.
mirrors src/nightfall_photo_ingress/adapters/onedrive/client.py:1542-1744 -/
def downloadAttempts (policy : RetryPolicy) (url : String) (destination : Path)
    (expectedSize : Option Int) : Nat → ClientFlow Unit
  | 0 => return ()
  | left + 1 => do
    match ← call (S := ClientOps) (.get url none) with
    | .raises => throw .raised
    | .requestError _ => do
      cleanupPartial destination
      retryOr policy left true none (.download "Download transport error after retries exhausted"
        "download_transport_error" url none)
        (downloadAttempts policy url destination expectedSize left)
    | .response r =>
      if classifyStatus r.status then do
        cleanupPartial destination
        retryOr policy left false (parseRetryAfter r.retryAfter) (.download
          "Download retry limit reached" "download_retry_exhausted" url r.status)
          (downloadAttempts policy url destination expectedSize left)
      else if 400 ≤ r.status then do
        cleanupPartial destination
        throw (.download "Download request returned error status" "download_error" url r.status)
      else do
        if !(← writeBody destination r.chunks) then do
          cleanupPartial destination
          throw (.download "Failed to write downloaded content to staging" "download_write_error"
            url none)
        else
          let bytesWritten : Int := (r.chunks.map List.length).sum
          match expectedSize with
          | none => return ()
          | some size =>
            if 0 < size ∧ bytesWritten = 0 then do
              cleanupPartial destination
              retryOr policy left false none (.download
                "Download returned empty body for non-empty remote file" "download_empty_body" url
                none) (downloadAttempts policy url destination expectedSize left)
            else if 0 ≤ size ∧ bytesWritten ≠ size then do
              cleanupPartial destination
              retryOr policy left false none (.download
                "Downloaded byte count did not match expected size" "download_size_mismatch" url
                none) (downloadAttempts policy url destination expectedSize left)
            else return ()

/-- mirrors src/nightfall_photo_ingress/adapters/onedrive/client.py:1491-1744 -/
def downloadWithRetry (policy : RetryPolicy) (url : String) (destination : Path)
    (expectedSize : Option Int) : ClientFlow Unit :=
  downloadAttempts policy url destination expectedSize policy.maxAttempts.toNat

/-! ## What the loops may touch -/

/-- Operations that send no request with a token, store no cursor, record no
resync and add nothing to what was handed over or counted. -/
def ClientOp.Aside : ClientOp → Prop
  | .get _ (some _) => False
  | .file (.saveCursor _) => False
  | .file (.markResync _ _) => False
  | .countGhost _ _ => False
  | .pageHandoff _ _ => False
  | _ => True

/-- The attempts of a download and the file it writes. -/
def ClientOp.Transfers : ClientOp → Prop
  | .get _ none => True
  | .sleep _ _ _ | .countRetry _ => True
  | .file (.unlink _) => True
  | .file (.openWb _) => True
  | .file (.write _ _) => True
  | _ => False

/-- The same with the file known. -/
def ClientOp.TransfersTo (destination : Path) : ClientOp → Prop
  | .get _ none => True
  | .sleep _ _ _ | .countRetry _ => True
  | .file (.unlink p) => p = destination
  | .file (.openWb p) => p = destination
  | .file (.write p _) => p = destination
  | _ => False

theorem ClientOp.TransfersTo.transfers {destination : Path} {o : ClientOp}
    (h : o.TransfersTo destination) : o.Transfers := by
  cases o with
  | get url bearer =>
    cases bearer with
    | none => trivial
    | some _ => exact h.elim
  | file f => cases f <;> first | exact h.elim | trivial
  | sleep _ _ _ => trivial
  | countRetry _ => trivial
  | _ => exact h.elim

/-- Requests for `url`, and what lies between two attempts. -/
def ClientOp.Asks (url : String) : ClientOp → Prop
  | .get u (some _) => u = url
  | .refreshAccessToken | .sleep _ _ _ | .countRetry _ => True
  | _ => False

theorem calls_retryOr {α : Type} {P : ClientOp → Prop} {policy : RetryPolicy} {left : Nat}
    {transport : Bool} {retryAfter : Option Float} {e : ClientError} {again : ClientFlow α}
    (hcount : P (.countRetry transport)) (hsleep : P (.sleep policy (policy.attempt left) retryAfter))
    (h : again.Calls P) : (retryOr policy left transport retryAfter e again).Calls P := by
  refine .op hcount fun _ => .ite .err (.op hsleep fun slept => ?_)
  cases slept with
  | true => exact h
  | false => exact .err

theorem wp_retryOr {out : Outside} {α : Type} {policy : RetryPolicy} {left : Nat} {transport : Bool}
    {retryAfter : Option Float} {e : ClientError} {again : ClientFlow α} {w : ClientState}
    {Q : Except ClientError α → ClientState → Prop} (hlast : ∀ w', Q (.error e) w')
    (hraised : ∀ w', Q (.error .raised) w') (hagain : ∀ w', again.Wp (clientHandle out) w' Q) :
    (retryOr policy left transport retryAfter e again).Wp (clientHandle out) w Q := by
  refine wp_op.mpr ?_
  split
  · exact wp_err.mpr (hlast _)
  · rw [call_bind]
    refine wp_op.mpr ?_
    split
    · exact hagain _
    · exact wp_err.mpr (hraised _)

theorem calls_graphAttempts (rq : Requests) (url : String) :
    ∀ (n : Nat) (token : String) (refreshed : Bool),
      (graphAttempts rq url n token refreshed).Calls (ClientOp.Asks url)
  | 0, _, _ => .err
  | n + 1, token, refreshed => by
    refine .op rfl fun r => ?_
    cases r with
    | raises => exact .err
    | requestError _ => exact calls_retryOr trivial trivial (calls_graphAttempts rq url n _ _)
    | response r =>
      refine .ite (.ite .err ?_) (.ite (calls_retryOr trivial trivial
        (calls_graphAttempts rq url n _ _)) (.ite .err (.ite .err ?_)))
      · refine .op trivial fun answer => ?_
        cases answer with
        | raises => exact .err
        | authError => exact .err
        | token t => exact calls_graphAttempts rq url n _ _
      · cases r.json with
        | none => exact .err
        | some v => cases v <;> first | exact .ret | exact .err

theorem calls_graphGetJson (rq : Requests) (url : String) :
    (graphGetJson rq url).Calls (ClientOp.Asks url) := calls_graphAttempts _ _ _ _ _

theorem calls_writeBody (p : Path) (chunks : List Bytes) :
    (writeBody p chunks).Calls (ClientOp.TransfersTo p) := by
  refine .op rfl fun opened => ?_
  cases opened with
  | false => exact .ret
  | true =>
    show (writeChunks p chunks).Calls (ClientOp.TransfersTo p)
    induction chunks with
    | nil => exact .ret
    | cons chunk chunks ih =>
      refine .ite ih (.op rfl fun done => ?_)
      cases done with
      | false => exact .ret
      | true => exact ih

theorem calls_cleanup_retryOr {policy : RetryPolicy} {left : Nat} {transport : Bool}
    {retryAfter : Option Float} {e : ClientError} {again : ClientFlow Unit} {destination : Path}
    (h : again.Calls (ClientOp.TransfersTo destination)) :
    (do cleanupPartial destination; retryOr policy left transport retryAfter e again).Calls
      (ClientOp.TransfersTo destination) :=
  .op rfl fun _ => calls_retryOr trivial trivial h

theorem calls_downloadAttempts (policy : RetryPolicy) (url : String) (destination : Path)
    (expectedSize : Option Int) :
    ∀ n, (downloadAttempts policy url destination expectedSize n).Calls
      (ClientOp.TransfersTo destination)
  | 0 => .ret
  | n + 1 => by
    have ih := calls_downloadAttempts policy url destination expectedSize n
    refine .op trivial fun r => ?_
    cases r with
    | raises => exact .err
    | requestError _ => exact calls_cleanup_retryOr ih
    | response r =>
      refine .ite (calls_cleanup_retryOr ih) (.ite (.op rfl fun _ => .err) ?_)
      refine .bind (calls_writeBody destination r.chunks) fun written => ?_
      refine .ite (.op rfl fun _ => .err) ?_
      cases expectedSize with
      | none => exact .ret
      | some size => exact .ite (calls_cleanup_retryOr ih) (.ite (calls_cleanup_retryOr ih) .ret)

theorem calls_downloadWithRetry (policy : RetryPolicy) (url : String) (destination : Path)
    (expectedSize : Option Int) :
    (downloadWithRetry policy url destination expectedSize).Calls
      (ClientOp.TransfersTo destination) :=
  calls_downloadAttempts _ _ _ _ _

end Nightfall.OneDrive
