import Mathlib.Algebra.GroupWithZero.Nat
import Nightfall.L7OneDrive.Client

/-!
# Polling an account (`adapters/onedrive/client.py`)

`pollAccountOnce` walks the delta pages from the stored cursor, downloads the
candidates of each page within the budget, hands the rows to the page processor
and stores the link to go on with. `downloadCandidates` is the loop over the
candidates of one page.

* `pollSingleAccount`: a poll and the cooldown that its retries bring.
* `runPolls`: polls of one account, one after the other.
-/
namespace Nightfall.OneDrive
open Nightfall.Core Storage Prog

/-- What the client takes from Python's libraries. -/
structure ClientLib extends PyValues where
  /-- `hashlib.sha256(text.encode("utf-8")).hexdigest()` -/
  sha256Text : String → String

inductive IntegrityMode where
  | strict
  | tolerant
  /-- a mode the download loop does not name -/
  | other
  deriving DecidableEq, Repr

/-- `adaptive_backpressure_enabled` and the settings beside it, as
`validate_config` lets them pass. -/
structure Backpressure where
  enabled : Bool
  retryThreshold : Nat
  transportErrorThreshold : Nat
  cooldownSeconds : Int
  retryThreshold_pos : 0 < retryThreshold
  transportErrorThreshold_pos : 0 < transportErrorThreshold

/-- The account and the arguments of one poll. -/
structure PollArgs extends Requests where
  accountName : String
  effectiveOnedriveRoot : String
  maxDownloads : Int
  stagingRoot : Path
  /-- `page_handoff_processor is not None` -/
  hasProcessor : Bool
  maxDeltaPages : Int
  maxRuntimeSeconds : Int
  tmpTtlMinutes : Int
  integrityMode : IntegrityMode
  deltaLoopResyncThreshold : Int
  deltaBreakerGhostThreshold : Int
  deltaBreakerStalePageThreshold : Int
  deltaBreakerCooldownSeconds : Int
  backpressure : Backpressure

def PollArgs.stagingDir (a : PollArgs) : Path := a.stagingRoot ++ [a.accountName]

def PollArgs.initialUrl (a : PollArgs) : String := buildInitialDeltaUrl a.effectiveOnedriveRoot

/-! ## Downloading the candidates of a page -/

/-- `_record_ghost_reason` for a candidate. -/
def recordGhost (counts : Counts) (c : RemoteCandidate) (reason : String) : ClientFlow Counts := do
  call (S := ClientOps) (.countGhost c reason)
  return recordGhostReason counts reason 1

def appendLifecycleEvent (a : PollArgs) (event : String) (c : RemoteCandidate) (path : Path) :
    ClientFlow Unit := do
  let now ← call (S := ClientOps) .utcnow
  file (.appendLifecycle ⟨now 0, event, a.accountName, c.itemId, path⟩)

/-- The URL to start with: the candidate's own, else asked for once; `none`
when there is none. -/
def initialDownloadUrl (lib : ClientLib) (a : PollArgs) (c : RemoteCandidate) (ghosts : Counts) :
    ClientFlow (Counts × Option String) :=
  match truthy c.downloadUrl with
  | some url => return (ghosts, some url)
  | none => do
    let ghosts ← recordGhost ghosts c "delta_file_missing_download_url"
    match ← resolveDownloadUrlOnce lib.toPyValues a.toRequests c.itemId with
    | .ok url => return (ghosts, some url)
    | .error reason => return (← recordGhost ghosts c reason, none)

/-- `try: download_with_retry(..) except DownloadError`. -/
def tryDownload (a : PollArgs) (url : String) (tmp : Path) (c : RemoteCandidate) :
    ClientFlow (Except ClientError Unit) :=
  (do return .ok (← downloadWithRetry a.policy url tmp c.sizeBytes) :
    ClientFlow (Except ClientError Unit)).tryCatch fun
    | .download message code url status => return .error (.download message code url status)
    | e => throw e

/-- The download with its one refresh of the URL; false when the candidate was
counted as a ghost.
mirrors src/nightfall_photo_ingress/adapters/onedrive/client.py:1193-1249 -/
def downloadRefreshing (lib : ClientLib) (a : PollArgs) (c : RemoteCandidate) (tmp : Path)
    (url : String) (ghosts : Counts) : ClientFlow (Counts × Bool) := do
  match ← tryDownload a url tmp c with
  | .ok () => return (ghosts, true)
  | .error firstError => do
    file (.unlink tmp)
    if !isDownloadUrlUnreachable firstError then throw firstError
    else do
      match ← resolveDownloadUrlOnce lib.toPyValues a.toRequests c.itemId with
      | .error reason => return (← recordGhost ghosts c reason, false)
      | .ok refreshedUrl => do
        match ← tryDownload a refreshedUrl tmp c with
        | .ok () => return (ghosts, true)
        | .error refreshedError => do
          file (.unlink tmp)
          if isDownloadUrlUnreachable refreshedError then
            return (← recordGhost ghosts c "ghost_download_unreachable_after_refresh", false)
          else throw refreshedError

def handoffRow (c : RemoteCandidate) (stagingPath : Path) : DownloadedHandoffCandidate where
  accountName := c.accountName
  onedriveId := c.itemId
  originalFilename := c.name
  relativePath := c.relativePath
  modifiedTime := c.normalizedModifiedTime
  sizeBytes := c.sizeBytes
  stagingPath := stagingPath

/-- What follows a finished download: quarantine, or the row to hand over.
mirrors src/nightfall_photo_ingress/adapters/onedrive/client.py:1251-1299 -/
def finishDownload (a : PollArgs) (c : RemoteCandidate) (base : String) (ghosts : Counts) :
    ClientFlow (Counts × Option DownloadedHandoffCandidate) := do
  let tmp := a.stagingDir ++ [base ++ ".tmp"]
  appendLifecycleEvent a "download_completed" c tmp
  if c.sizeBytes.isNone ∧ a.integrityMode = .tolerant then do
    let quarantine := a.stagingDir ++ ["_quarantine", base ++ safeExtension c.name]
    file (.replace tmp quarantine)
    let ghosts ← recordGhost ghosts c "integrity_missing_expected_size_quarantined"
    appendLifecycleEvent a "download_quarantined" c quarantine
    return (ghosts, none)
  else do
    let final := a.stagingDir ++ [base ++ safeExtension c.name]
    file (.replace tmp final)
    appendLifecycleEvent a "ready_for_hash" c final
    file (.appendManifest (handoffRow c final))
    return (ghosts, some (handoffRow c final))

/-- One turn of the loop: the counts and the row of a candidate.
mirrors src/nightfall_photo_ingress/adapters/onedrive/client.py:1147-1299 -/
def downloadCandidate (lib : ClientLib) (a : PollArgs) (c : RemoteCandidate) (base : String)
    (ghosts : Counts) : ClientFlow (Counts × Option DownloadedHandoffCandidate) :=
  let tmp := a.stagingDir ++ [base ++ ".tmp"]
  if c.sizeBytes.isNone ∧ a.integrityMode = .strict then do
    return (← recordGhost ghosts c "integrity_missing_expected_size_blocked", none)
  else do
    appendLifecycleEvent a "download_started" c tmp
    match ← initialDownloadUrl lib a c ghosts with
    | (ghosts, none) => return (ghosts, none)
    | (ghosts, some url) => do
      match ← downloadRefreshing lib a c tmp url ghosts with
      | (ghosts, false) => return (ghosts, none)
      | (ghosts, true) => finishDownload a c base ghosts

/-- What `download_candidates` returns: the paths are those of the rows. -/
structure Downloads where
  ghosts : Counts
  rows : List DownloadedHandoffCandidate

def Downloads.paths (d : Downloads) : List Path := d.rows.map (·.stagingPath)

def downloadLoop (lib : ClientLib) (a : PollArgs) (limit : Int) :
    Nat → List RemoteCandidate → List String → Downloads → ClientFlow Downloads
  | _, [], _, d => return d
  | index, c :: cs, used, d =>
    if 0 < limit ∧ limit ≤ index then return d
    else do
      let named := uniqueStagingBasename lib.sha256Text c.itemId used
      let (ghosts, row) ← downloadCandidate lib a c named.1 d.ghosts
      downloadLoop lib a limit (index + 1) cs named.2 ⟨ghosts, d.rows ++ row.toList⟩

/-- mirrors src/nightfall_photo_ingress/adapters/onedrive/client.py:1110-1301,
with `reset_manifest=False` -/
def downloadCandidates (lib : ClientLib) (a : PollArgs) (candidates : List RemoteCandidate)
    (maxDownloads : Option Int) : ClientFlow Downloads := do
  call (S := ClientOps) (.enterDownload candidates maxDownloads)
  downloadLoop lib a (maxDownloads.getD 0) 0 candidates [] ⟨∅, []⟩

/-! ## The traversal -/

/-- The variables of the page loop. The anomaly counts are the reducer's. -/
structure Traversal where
  reducer : Reducer
  deltaLink : Option String
  seenNextLinks : List String
  seenItemIds : List String
  downloadedPaths : List Path
  ghosts : Counts
  haltedDueDownloadBudget : Bool

def Traversal.start : Traversal := ⟨.empty, none, [], [], [], ∅, false⟩

def Traversal.count (t : Traversal) (reason : String) (n : Nat) : Traversal :=
  { t with reducer :=
    { t.reducer with anomalyCounts := recordGhostReason t.reducer.anomalyCounts reason n } }

/-- How a turn of the loop, or the loop, ends. -/
inductive Outcome where
  /-- go on with this link -/
  | next (link : Option String) (t : Traversal)
  /-- return at once with these anomaly counts -/
  | resync (anomalyCounts : Counts)

def pollError (message code : String) : ClientError := .graph message code none none

/-- `_graph_get_json` of a page; the answer is the resync URL after a 410. -/
def fetchDeltaPage (a : PollArgs) (url : String) : ClientFlow (Except (Option String) Payload) :=
  (do return .ok (← graphGetJson a.toRequests url) :
    ClientFlow (Except (Option String) Payload)).tryCatch fun
    | .resyncRequired _ resyncUrl => return .error resyncUrl
    | e => throw e

/-- What is left of the download budget, `none` without one. -/
def remainingDownloadBudget (a : PollArgs) (t : Traversal) : Option Int :=
  if 0 < a.maxDownloads then some (max (a.maxDownloads - t.downloadedPaths.length) 0) else none

/-- mirrors src/nightfall_photo_ingress/adapters/onedrive/client.py:792-822 -/
def downloadPage (lib : ClientLib) (a : PollArgs) (t : Traversal)
    (candidates : List RemoteCandidate) : ClientFlow Traversal :=
  let budget := remainingDownloadBudget a t
  if candidates ≠ [] ∧ (∀ n ∈ budget, 0 < n) then do
    let d ← downloadCandidates lib a candidates budget
    let t := { t with
      downloadedPaths := t.downloadedPaths ++ d.paths
      ghosts := d.ghosts.entries.foldl (fun counts row => recordGhostReason counts row.1 row.2)
        t.ghosts }
    if a.hasProcessor ∧ d.rows ≠ [] then do
      if ← call (S := ClientOps) (.pageHandoff a.accountName d.rows) then return t
      else throw .raised
    else return t
  else return t

/-- `_save_cursor` and `_clear_resync_marker`. -/
def checkpoint (link : String) : ClientFlow Unit := do
  file (.saveCursor link)
  file .clearResyncMarker

/-- The item ids of the page join those seen; repeated ones are counted. -/
def noteReplays (py : PyValues) (t : Traversal) (payload : Payload) : Traversal :=
  let counted := countReplayedItemIds py payload t.seenItemIds
  let t := { t with seenItemIds := counted.2 }
  if 0 < counted.1 then t.count "delta_replayed_item_id" counted.1 else t

/-- An `OverflowError` is raised. -/
def orRaise {α : Type} : Except Unit α → ClientFlow α
  | .error _ => throw .raised
  | .ok a => return a

def storeNextLink (t : Traversal) : Option String → ClientFlow Outcome
  | none => return .next none t
  | some link => do
    checkpoint link
    return .next (some link) t

/-- A page that was fetched.
mirrors src/nightfall_photo_ingress/adapters/onedrive/client.py:757-838 -/
def processDeltaPage (lib : ClientLib) (a : PollArgs) (t : Traversal) (payload : Payload) :
    ClientFlow Outcome := do
  let now ← call (S := ClientOps) .utcnow
  let reducer ← orRaise (applyDeltaPageToReducer lib.toPyValues a.accountName now payload
    (noteReplays lib.toPyValues t payload).reducer)
  let now ← call (S := ClientOps) .utcnow
  let candidates ← orRaise
    (reduceDeltaPageCandidates lib.toPyValues a.accountName now payload)
  let t ← downloadPage lib a { noteReplays lib.toPyValues t payload with
    reducer := reducer
    deltaLink := (truthy (deltaLink lib.toPyValues payload)).or t.deltaLink } candidates
  storeNextLink t (nextLink lib.toPyValues payload)

/-- mirrors src/nightfall_photo_ingress/adapters/onedrive/client.py:705-729 -/
def loopDetected (a : PollArgs) (t : Traversal) (url : String) : ClientFlow Outcome := do
  let loopIncidents ← incrementLoopIncident
  if a.deltaLoopResyncThreshold ≤ loopIncidents then do
    let t := t.count "delta_forced_resync_after_loop_threshold" 1
    markResyncRequired a.accountName url "delta_forced_resync_after_loop_threshold" none
    resetLoopIncidents
    return .resync t.reducer.anomalyCounts
  else
    throw (pollError ("Delta nextLink cycle detected for account '" ++ a.accountName ++ "'")
      "delta_nextlink_cycle_detected")

/-- One turn of the loop, past its limits.
mirrors src/nightfall_photo_ingress/adapters/onedrive/client.py:705-859 -/
def deltaPage (lib : ClientLib) (a : PollArgs) (t : Traversal) (url : String) :
    ClientFlow Outcome :=
  if t.seenNextLinks.contains url then loopDetected a t url
  else do
    match ← fetchDeltaPage a url with
    | .error resyncUrl => do
      let t := t.count "delta_resync_required_410" 1
      markResyncRequired a.accountName url "delta_resync_required_410" resyncUrl
      return .resync t.reducer.anomalyCounts
    | .ok payload =>
      processDeltaPage lib a { t with seenNextLinks := url :: t.seenNextLinks } payload

/-- The page loop; `remaining` pages may still be fetched.
mirrors src/nightfall_photo_ingress/adapters/onedrive/client.py:671-859 -/
def deltaPages (lib : ClientLib) (a : PollArgs) (startMonotonic : Int) :
    Nat → Option String → Traversal → ClientFlow Outcome
  | remaining, next, t =>
    match truthy next with
    | none => return .next none t
    | some url =>
      if 0 < a.maxDownloads ∧ a.maxDownloads ≤ t.downloadedPaths.length then
        return .next next { t with haltedDueDownloadBudget := true }
      else do
        let now ← call (S := ClientOps) .monotonic
        if seconds a.maxRuntimeSeconds < now - startMonotonic then
          throw (pollError ("Delta polling exceeded runtime limit for account '" ++ a.accountName
            ++ "'") "delta_runtime_limit_exceeded")
        else match remaining with
          | 0 => throw (pollError ("Delta polling exceeded max pages for account '" ++
              a.accountName ++ "'") "delta_page_limit_exceeded")
          | remaining + 1 => do
            match ← deltaPage lib a t url with
            | .resync counts => return .resync counts
            | .next link t => deltaPages lib a startMonotonic remaining link t

/-! ## One poll -/

/-- mirrors src/nightfall_photo_ingress/adapters/onedrive/client.py:2511-2542 -/
def recoverStagingTmpFiles (a : PollArgs) : ClientFlow Unit := do
  let now ← call (S := ClientOps) .time
  let tmps ← call (S := ClientOps) (.tmpFiles a.stagingDir)
  tmps.forM fun (path, age) =>
    if age < seconds (max a.tmpTtlMinutes 0 * 60) then return ()
    else file (.replace path (a.stagingDir ++ ["_recovery_quarantine",
      path.name ++ "." ++ toString (now / seconds 1)]))

structure PollResult where
  downloadedPaths : List Path
  candidateCount : Nat
  ghostReasonCounts : Counts
  deltaAnomalyCounts : Counts

def countOf (counts : Counts) (reason : String) : Nat := (counts.get reason).getD 0

def total (counts : Counts) : Nat := (counts.entries.map fun row => row.2).sum

/-- mirrors src/nightfall_photo_ingress/adapters/onedrive/client.py:895-903 -/
def armBreakers (a : PollArgs) (t : Traversal) : ClientFlow Traversal :=
  if a.deltaBreakerStalePageThreshold ≤ countOf t.reducer.anomalyCounts "delta_replayed_item_id"
  then do
    let t := t.count "delta_breaker_armed_stale_page" 1
    armBreakerCooldown a.deltaBreakerCooldownSeconds
    return t
  else if a.deltaBreakerGhostThreshold ≤ total t.ghosts then do
    let t := t.count "delta_breaker_armed_ghost" 1
    armBreakerCooldown a.deltaBreakerCooldownSeconds
    return t
  else return t

def storeDeltaLink : Option String → ClientFlow Unit
  | none => return ()
  | some link => checkpoint link

/-- The end of a traversal.
mirrors src/nightfall_photo_ingress/adapters/onedrive/client.py:861-920 -/
def finishPoll (a : PollArgs) (t : Traversal) : ClientFlow PollResult :=
  if t.deltaLink.isNone ∧ t.haltedDueDownloadBudget = false then
    throw (pollError ("No delta link returned for account '" ++ a.accountName ++ "'")
      "missing_delta_link")
  else do
    let _ ← call (S := ClientOps) .monotonic
    storeDeltaLink t.deltaLink
    let t ← armBreakers a t
    return ⟨t.downloadedPaths, (materializeReducedCandidates t.reducer).length, t.ghosts,
      t.reducer.anomalyCounts⟩

/-- What comes before the first page: the time of the start, or `none` while the
breaker cools down.
mirrors src/nightfall_photo_ingress/adapters/onedrive/client.py:638-658 -/
def preparePoll (a : PollArgs) : ClientFlow (Option Int) := do
  let startMonotonic ← call (S := ClientOps) .monotonic
  file .unlinkManifest
  let incidentState ← call (S := ClientOps) .loadIncidentState
  if ← isBreakerCooldownActive incidentState then return none
  else do
    recoverStagingTmpFiles a
    return some startMonotonic

/-- mirrors src/nightfall_photo_ingress/adapters/onedrive/client.py:605-920 -/
def pollAccountOnce (lib : ClientLib) (a : PollArgs) : ClientFlow PollResult := do
  let cursor ← loadCursor
  let deltaUrl := cursor.getD a.initialUrl
  match ← preparePoll a with
  | none => return ⟨[], 0, ∅, recordGhostReason ∅ "delta_breaker_cooldown_active" 1⟩
  | some startMonotonic => do
    match ← deltaPages lib a startMonotonic a.maxDeltaPages.toNat deltaUrl .start with
    | .resync counts => return ⟨[], 0, ∅, counts⟩
    | .next _ t => finishPoll a t

/-- The retries of a poll reach a threshold; each says whether the transport failed. -/
def Backpressure.Reached (b : Backpressure) (retries : List Bool) : Prop :=
  b.enabled = true ∧
    (b.retryThreshold ≤ retries.length ∨ b.transportErrorThreshold ≤ retries.count true)

instance (b : Backpressure) (retries : List Bool) : Decidable (b.Reached retries) :=
  inferInstanceAs (Decidable (_ ∧ _))

/-- mirrors src/nightfall_photo_ingress/adapters/onedrive/client.py:574-602 -/
def applyAdaptiveBackpressure (a : PollArgs) (retries : List Bool) : ClientFlow Unit :=
  if a.backpressure.Reached retries then armBreakerCooldown a.backpressure.cooldownSeconds
  else return ()

/-- What follows a poll that returned, given the retries it counted.
mirrors src/nightfall_photo_ingress/adapters/onedrive/client.py:479-571 -/
def settlePoll (a : PollArgs) (retries : List Bool) : ClientFlow Unit := do
  if ← call (S := ClientOps) .driftCritical then
    throw (pollError ("Schema drift threshold exceeded for account '" ++ a.accountName ++ "'")
      "drift_threshold_critical")
  else applyAdaptiveBackpressure a retries

/-- Everything after the lock and the token: the poll, then what its counters ask
for. They start from nothing in each poll, so those of this one are the new ones.
mirrors src/nightfall_photo_ingress/adapters/onedrive/client.py:379-571 -/
def pollSingleAccount (lib : ClientLib) (out : Outside) (a : PollArgs) (w : ClientState) :
    ClientState :=
  match (pollAccountOnce lib a).run (clientHandle out) w with
  | (.error _, w') => w'
  | (.ok _, w') =>
    ((settlePoll a (w'.retries.drop w.retries.length)).run (clientHandle out) w').2

/-- Polls of one account, each with its own arguments. -/
def runPolls (lib : ClientLib) (out : Outside) : List PollArgs → ClientState → ClientState
  | [], w => w
  | a :: polls, w => runPolls lib out polls (pollSingleAccount lib out a w)

/-! ## What a page leaves alone -/

/-- Operations that neither store a cursor nor record a resync. -/
def ClientOp.Keeps : ClientOp → Prop
  | .file (.saveCursor _) => False
  | .file (.markResync _ _) => False
  | _ => True

/-- The cursor and the resyncs stay; the history only grows. -/
structure Grows (w w' : ClientState) : Prop where
  cursorFile : w'.cursorFile = w.cursorFile
  resyncs : w'.resyncs = w.resyncs
  requests : w.requests <+: w'.requests
  handed : w.handed <+: w'.handed
  ghosts : w.ghosts <+: w'.ghosts

theorem Grows.refl (w : ClientState) : Grows w w :=
  ⟨rfl, rfl, List.prefix_rfl, List.prefix_rfl, List.prefix_rfl⟩

theorem Grows.trans {u v w : ClientState} (h : Grows u v) (h' : Grows v w) : Grows u w where
  cursorFile := h'.cursorFile.trans h.cursorFile
  resyncs := h'.resyncs.trans h.resyncs
  requests := h.requests.trans h'.requests
  handed := h.handed.trans h'.handed
  ghosts := h.ghosts.trans h'.ghosts

/-- Nothing of the cursor or the history changes. -/
structure Untouched (w w' : ClientState) : Prop where
  cursorFile : w'.cursorFile = w.cursorFile
  resyncs : w'.resyncs = w.resyncs
  requests : w'.requests = w.requests
  handed : w'.handed = w.handed
  ghosts : w'.ghosts = w.ghosts

theorem Untouched.refl (w : ClientState) : Untouched w w := ⟨rfl, rfl, rfl, rfl, rfl⟩

theorem Untouched.trans {u v w : ClientState} (h : Untouched u v) (h' : Untouched v w) :
    Untouched u w :=
  ⟨h'.cursorFile.trans h.cursorFile, h'.resyncs.trans h.resyncs, h'.requests.trans h.requests,
    h'.handed.trans h.handed, h'.ghosts.trans h.ghosts⟩

theorem untouched_file {f : FileOp} (w : ClientState) (h : (ClientOp.file f).Aside) :
    Untouched w (f.apply w) := by
  cases f with
  | saveCursor _ => exact h.elim
  | markResync _ _ => exact h.elim
  | replace src dst =>
    simp only [FileOp.apply]
    cases w.staging.get src <;> exact ⟨rfl, rfl, rfl, rfl, rfl⟩
  | _ => exact ⟨rfl, rfl, rfl, rfl, rfl⟩

theorem untouched_step (out : Outside) (o : ClientOp) (w : ClientState) (h : o.Aside) :
    Untouched w (clientHandle out o w).2 := by
  cases o with
  | get url bearer =>
    cases bearer with
    | some _ => exact h.elim
    | none => exact ⟨rfl, rfl, rfl, rfl, rfl⟩
  | countGhost _ _ => exact h.elim
  | pageHandoff _ _ => exact h.elim
  | file f =>
    simp only [clientHandle, effect]
    split
    · exact ⟨rfl, rfl, rfl, rfl, rfl⟩
    · obtain ⟨h1, h2, h3, h4, h5⟩ := untouched_file w h
      exact ⟨h1, h2, h3, h4, h5⟩
  | _ => exact ⟨rfl, rfl, rfl, rfl, rfl⟩

theorem untouched_of_calls {out : Outside} {α : Type} {p : ClientFlow α}
    (h : p.Calls ClientOp.Aside) {Q : Except ClientError α → ClientState → Prop} {w : ClientState}
    (hQ : ∀ r w', Untouched w w' → Q r w') : p.Wp (clientHandle out) w Q :=
  h.wp Untouched.refl (fun _ _ _ => Untouched.trans) (untouched_step out) hQ

theorem Untouched.grows {w w' : ClientState} (h : Untouched w w') : Grows w w' where
  cursorFile := h.cursorFile
  resyncs := h.resyncs
  requests := h.requests ▸ List.prefix_rfl
  handed := h.handed ▸ List.prefix_rfl
  ghosts := h.ghosts ▸ List.prefix_rfl

theorem grows_step (out : Outside) (o : ClientOp) (w : ClientState) (h : o.Keeps) :
    Grows w (clientHandle out o w).2 := by
  cases o with
  | get url bearer =>
    cases bearer with
    | some _ => exact ⟨rfl, rfl, List.prefix_append _ _, List.prefix_rfl, List.prefix_rfl⟩
    | none => exact (untouched_step out (.get url none) w trivial).grows
  | countGhost _ _ => exact ⟨rfl, rfl, List.prefix_rfl, List.prefix_rfl, List.prefix_append _ _⟩
  | pageHandoff _ rows =>
    simp only [clientHandle, effect]
    split
    · exact ⟨rfl, rfl, List.prefix_rfl, List.prefix_append _ _, List.prefix_rfl⟩
    · exact ⟨rfl, rfl, List.prefix_rfl, List.prefix_rfl, List.prefix_rfl⟩
  | file f => exact (untouched_step out (.file f) w (by cases f <;> trivial)).grows
  | _ => exact ⟨rfl, rfl, List.prefix_rfl, List.prefix_rfl, List.prefix_rfl⟩

/-- A program of such operations. -/
theorem grows_of_calls {out : Outside} {α : Type} {p : ClientFlow α} (h : p.Calls ClientOp.Keeps)
    {Q : Except ClientError α → ClientState → Prop} {w : ClientState}
    (hQ : ∀ r w', Grows w w' → Q r w') : p.Wp (clientHandle out) w Q :=
  h.wp Grows.refl (fun _ _ _ => Grows.trans) (grows_step out) hQ

theorem ClientOp.Aside.keeps {o : ClientOp} (h : o.Aside) : o.Keeps := by
  cases o with
  | file f => cases f <;> trivial
  | _ => trivial

theorem ClientOp.Asks.keeps {url : String} {o : ClientOp} (h : o.Asks url) : o.Keeps := by
  cases o with
  | file f => exact h.elim
  | _ => trivial

theorem calls_file {P : ClientOp → Prop} {f : FileOp} (h : P (.file f)) : (file f).Calls P := by
  refine .op h fun done => ?_
  cases done with
  | false => exact .err
  | true => exact .ret

/-! ## What a download may call -/

def itemUrl (itemId : String) : String := graphBase ++ "/me/drive/items/" ++ quote itemId

/-- `P` admits what is done for candidate `c` until its download to `tmp` is finished. -/
structure ClientOp.Admits (P : ClientOp → Prop) (c : RemoteCandidate) (tmp : Path) : Prop where
  asks : ∀ o, ClientOp.Asks (itemUrl c.itemId) o → P o
  transfers : ∀ o, o.TransfersTo tmp → P o
  ghost : ∀ reason, P (.countGhost c reason)
  clock : P .utcnow
  lifecycle : ∀ e, P (.file (.appendLifecycle e))

section Admits
variable {P : ClientOp → Prop} {a : PollArgs} {c : RemoteCandidate} {tmp : Path}

theorem calls_resolveDownloadUrlOnce (py : PyValues) (rq : Requests) {itemId : String}
    (h : ∀ o, ClientOp.Asks (itemUrl itemId) o → P o) :
    (resolveDownloadUrlOnce py rq itemId).Calls P := by
  refine .bind (.tryCatch (.bind ((calls_graphGetJson rq _).imp h) fun _ => .ret) fun e => ?_)
    fun answer => ?_
  · split
    · exact .ret
    · exact .err
  · cases answer with
    | error _ => exact .ret
    | ok payload =>
      simp only
      split <;> exact .ret

theorem calls_tryDownload (url : String) (h : ∀ o, o.TransfersTo tmp → P o) :
    (tryDownload a url tmp c).Calls P := by
  refine .tryCatch (.bind ((calls_downloadWithRetry ..).imp h) fun _ => .ret) fun e => ?_
  cases e with
  | download _ _ _ _ => exact .ret
  | _ => exact .err

theorem calls_recordGhost (counts : Counts) (h : ∀ reason, P (.countGhost c reason))
    (reason : String) : (recordGhost counts c reason).Calls P := .op (h reason) fun _ => .ret

variable (h : ClientOp.Admits P c tmp)
include h

theorem ClientOp.Admits.appendLifecycleEvent (event : String) (path : Path) :
    (appendLifecycleEvent a event c path).Calls P :=
  .op h.clock fun _ => calls_file (h.lifecycle _)

theorem ClientOp.Admits.initialDownloadUrl (lib : ClientLib) (ghosts : Counts) :
    (initialDownloadUrl lib a c ghosts).Calls P := by
  unfold OneDrive.initialDownloadUrl
  cases truthy c.downloadUrl with
  | some url => exact .ret
  | none =>
    refine .bind (calls_recordGhost _ h.ghost _) fun _ => ?_
    refine .bind (calls_resolveDownloadUrlOnce _ _ h.asks) fun r => ?_
    cases r with
    | ok url => exact .ret
    | error reason => exact .bind (calls_recordGhost _ h.ghost _) fun _ => .ret

theorem ClientOp.Admits.downloadRefreshing (lib : ClientLib) (url : String) (ghosts : Counts) :
    (downloadRefreshing lib a c tmp url ghosts).Calls P := by
  refine .bind (calls_tryDownload url h.transfers) fun r => ?_
  cases r with
  | ok _ => exact .ret
  | error e =>
    refine .bind (calls_file (h.transfers (.file (.unlink tmp)) rfl)) fun _ => .ite .err ?_
    refine .bind (calls_resolveDownloadUrlOnce _ _ h.asks) fun r => ?_
    cases r with
    | error reason => exact .bind (calls_recordGhost _ h.ghost _) fun _ => .ret
    | ok refreshed =>
      refine .bind (calls_tryDownload refreshed h.transfers) fun r => ?_
      cases r with
      | ok _ => exact .ret
      | error e =>
        exact .bind (calls_file (h.transfers (.file (.unlink tmp)) rfl)) fun _ =>
          .ite (.bind (calls_recordGhost _ h.ghost _) fun _ => .ret) .err

end Admits

/-- A candidate from start to end: its file also goes to quarantine or to its final name, and
its row to the manifest. -/
theorem calls_downloadCandidate {P : ClientOp → Prop} {a : PollArgs} {c : RemoteCandidate}
    {base : String} (lib : ClientLib) (ghosts : Counts)
    (h : ClientOp.Admits P c (a.stagingDir ++ [base ++ ".tmp"]))
    (hquarantine : P (.file (.replace (a.stagingDir ++ [base ++ ".tmp"])
      (a.stagingDir ++ ["_quarantine", base ++ safeExtension c.name]))))
    (hfinal : P (.file (.replace (a.stagingDir ++ [base ++ ".tmp"])
      (a.stagingDir ++ [base ++ safeExtension c.name]))))
    (hmanifest : ∀ row, P (.file (.appendManifest row))) :
    (downloadCandidate lib a c base ghosts).Calls P := by
  refine .ite (.bind (calls_recordGhost _ h.ghost _) fun _ => .ret) ?_
  refine .bind (h.appendLifecycleEvent _ _) fun _ => .bind (h.initialDownloadUrl lib ghosts) ?_
  rintro ⟨ghosts, url | url⟩
  · exact .ret
  refine .bind (h.downloadRefreshing lib url ghosts) ?_
  rintro ⟨ghosts, done | done⟩
  · exact .ret
  refine .bind (h.appendLifecycleEvent _ _) fun _ => .ite ?_ ?_
  · exact .bind (calls_file hquarantine) fun _ => .bind (calls_recordGhost _ h.ghost _) fun _ =>
      .bind (h.appendLifecycleEvent _ _) fun _ => .ret
  · exact .bind (calls_file hfinal) fun _ => .bind (h.appendLifecycleEvent _ _) fun _ =>
      .bind (calls_file (hmanifest _)) fun _ => .ret

/-! ## What a page does for its items -/

/-- Operations that store no cursor, record no resync, read no clock of the
traversal and send the token along with questions about items only. -/
def ClientOp.ForItems : ClientOp → Prop
  | .get url (some _) => ∃ itemId, url = itemUrl itemId
  | .monotonic => False
  | .file (.saveCursor _) => False
  | .file (.markResync _ _) => False
  | _ => True

theorem ClientOp.ForItems.keeps {o : ClientOp} (h : o.ForItems) : o.Keeps := by
  cases o with
  | file f => cases f <;> first | exact h.elim | trivial
  | _ => trivial

theorem ClientOp.Asks.forItems {itemId : String} {o : ClientOp} (h : o.Asks (itemUrl itemId)) :
    o.ForItems := by
  cases o with
  | get url bearer =>
    cases bearer with
    | none => exact h.elim
    | some _ => exact ⟨itemId, h⟩
  | refreshAccessToken => trivial
  | sleep _ _ _ => trivial
  | countRetry _ => trivial
  | _ => exact h.elim

theorem ClientOp.Transfers.forItems {o : ClientOp} (h : o.Transfers) : o.ForItems := by
  cases o with
  | get url bearer =>
    cases bearer with
    | none => trivial
    | some _ => exact h.elim
  | file f => cases f <;> first | exact h.elim | trivial
  | sleep _ _ _ => trivial
  | countRetry _ => trivial
  | _ => exact h.elim

theorem admits_forItems (c : RemoteCandidate) (tmp : Path) :
    ClientOp.Admits ClientOp.ForItems c tmp where
  asks _ := ClientOp.Asks.forItems
  transfers _ h := h.transfers.forItems
  ghost _ := trivial
  clock := trivial
  lifecycle _ := trivial

theorem items_downloadCandidate (lib : ClientLib) (a : PollArgs) (c : RemoteCandidate)
    (base : String) (ghosts : Counts) :
    (downloadCandidate lib a c base ghosts).Calls ClientOp.ForItems :=
  calls_downloadCandidate lib ghosts (admits_forItems c _) trivial trivial fun _ => trivial

theorem items_downloadLoop (lib : ClientLib) (a : PollArgs) (limit : Int) :
    ∀ (index : Nat) (cs : List RemoteCandidate) (used : List String) (d : Downloads),
      (downloadLoop lib a limit index cs used d).Calls ClientOp.ForItems
  | _, [], _, _ => .ret
  | _, _ :: cs, _, _ =>
    .ite .ret (.bind (items_downloadCandidate ..) fun _ => items_downloadLoop lib a limit _ cs _ _)

theorem items_downloadPage (lib : ClientLib) (a : PollArgs) (t : Traversal)
    (candidates : List RemoteCandidate) :
    (downloadPage lib a t candidates).Calls ClientOp.ForItems := by
  refine .ite (.op trivial fun _ => .bind (items_downloadLoop ..) fun d => .ite ?_ .ret) .ret
  refine .op trivial fun done => ?_
  cases done with
  | false => exact .err
  | true => exact .ret

theorem calls_fetchDeltaPage (a : PollArgs) (url : String) :
    (fetchDeltaPage a url).Calls (ClientOp.Asks url) := by
  refine .tryCatch (.bind (calls_graphGetJson _ url) fun _ => .ret) fun e => ?_
  cases e with
  | resyncRequired _ _ => exact .ret
  | _ => exact .err

theorem aside_incrementLoopIncident : incrementLoopIncident.Calls ClientOp.Aside := by
  refine .op trivial fun s => ?_
  exact .bind (p := file (.saveIncidentState _)) (calls_file trivial) fun _ => .ret

theorem aside_resetLoopIncidents : resetLoopIncidents.Calls ClientOp.Aside :=
  .op trivial fun _ => calls_file trivial

theorem aside_isBreakerCooldownActive (s : IncidentState) :
    (isBreakerCooldownActive s).Calls ClientOp.Aside := by
  unfold isBreakerCooldownActive
  cases s.cooldownUntilEpoch with
  | none => exact .ret
  | some _ => exact .op trivial fun _ => .ret

theorem aside_preparePoll (a : PollArgs) : (preparePoll a).Calls ClientOp.Aside := by
  refine .op trivial fun start => ?_
  refine .bind (p := file .unlinkManifest) (calls_file trivial) fun _ => .op trivial fun s => ?_
  refine .bind (p := isBreakerCooldownActive s) (aside_isBreakerCooldownActive s) fun active => ?_
  cases active with
  | true => exact .ret
  | false =>
    refine .bind (.op trivial fun now => .op trivial fun tmps => Calls.forM (fun tmp => ?_) tmps)
      fun _ => .ret
    refine .ite .ret ?_
    exact calls_file trivial

theorem aside_armBreakerCooldown (n : Int) : (armBreakerCooldown n).Calls ClientOp.Aside :=
  .op trivial fun _ => .op trivial fun _ => calls_file trivial

theorem aside_armBreakers (a : PollArgs) (t : Traversal) :
    (armBreakers a t).Calls ClientOp.Aside :=
  .ite (.bind (aside_armBreakerCooldown _) fun _ => .ret)
    (.ite (.bind (aside_armBreakerCooldown _) fun _ => .ret) .ret)

theorem aside_settlePoll (a : PollArgs) (retries : List Bool) :
    (settlePoll a retries).Calls ClientOp.Aside :=
  .op trivial fun _ => .ite .err (.ite (aside_armBreakerCooldown _) .ret)

/-- What follows a poll leaves alone what the poll recorded. -/
theorem untouched_pollSingleAccount (lib : ClientLib) (out : Outside) (a : PollArgs)
    (w : ClientState) :
    Untouched ((pollAccountOnce lib a).run (clientHandle out) w).2
      (pollSingleAccount lib out a w) := by
  rw [pollSingleAccount]
  cases (pollAccountOnce lib a).run (clientHandle out) w with
  | mk r w' =>
    cases r with
    | error e => exact .refl w'
    | ok result =>
      exact wp_iff.mp (untouched_of_calls (aside_settlePoll a _) fun _ _ h => h)

end Nightfall.OneDrive
