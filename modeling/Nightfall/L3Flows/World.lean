import Mathlib.Data.List.Lex
import Mathlib.Data.List.Sort
import Mathlib.Data.String.Basic
import Nightfall.Core.Prog
import Nightfall.L2Registry.Journal
import Nightfall.L2Registry.Registry

/-!
# The machine the flows run on

`World` is everything the code shares: the files, the registry, the journal,
and how often the clock and the uuid generator have been read. `Op` lists the
steps that touch it; each is one system call, one SQLite statement or one
transaction, and nothing happens inside a step. A flow is a `Prog` over these
steps, so what another process may do happens between two of them.

Directories, file modes and `fsync` are not modelled: `mkdir`, `chmod` and
`fsync` change nothing here, and a path exists when it is a file.
-/
namespace Nightfall
open Nightfall.Core Storage

/-- A reading of the clock: its ISO text and its value. -/
structure Instant where
  iso : String
  stamp : Timestamp
  deriving DecidableEq, Repr

/-- What the program takes from Python's libraries and from the machine. -/
structure Env where
  /-- `hashlib.sha256(..).hexdigest()` -/
  sha256 : Bytes → String
  /-- the same digest of a text's UTF-8 bytes -/
  sha256Text : String → String
  /-- `datetime.fromisoformat`, `none` for `ValueError` -/
  fromisoformat : String → Option Timestamp
  /-- `fnmatch.fnmatch(filename, pattern)` -/
  fnmatch : String → String → Bool
  /-- `re.search(pattern, filename)`, `none` for `re.error` -/
  reSearch : String → String → Option Bool
  /-- `st_dev` of a directory -/
  device : Path → Nat
  /-- length of a journal record's line -/
  lineBytes : JournalRecord → Nat
  /-- the `n`-th reading of the clock -/
  clock : Nat → Instant
  /-- the `n`-th `uuid4().hex` -/
  uuid : Nat → String

/-- One registry method that writes, with its arguments. -/
inductive Tx where
  | createOrUpdateFile (sha : String) (sizeBytes : Nat) (status : Status)
      (originalFilename : Option String) (currentPath : Option Path)
  | upsertMetadataIndex (account onedriveId : String) (sizeBytes : Nat) (modifiedTime sha : String)
  | upsertFileOrigin (sha account onedriveId : String) (pathHint : Option String)
  | finalizeUnknownIngest (sha : String) (sizeBytes : Nat) (originalFilename : String)
      (currentPath : Path) (account onedriveId sourcePath modifiedTime actor : String)
  | finalizeAcceptFromPending (sha : String) (newPath : Path)
      (account sourcePath actor reason : String)
  | finalizeKnownIngest (sha : String) (knownStatus : Status)
      (account onedriveId sourcePath modifiedTime : String) (sizeBytes : Nat) (actor : String)
  | clearCurrentPath (sha : String)
  | updateCurrentPath (sha : String) (newPath : Path)
  | finalizePurgeFromRejected (sha reason actor : String)
  | transitionStatus (sha : String) (newStatus : Status) (reason actor : String)
  | appendAuditEvent (sha : Option String) (action : AuditAction) (reason actor : String)
  | appendIngestTerminalEvent (batchRunId : String) (sequenceNo : Nat) (account onedriveId : String)
      (sha : Option String) (action reason actor : String)
  | upsertLivePhotoPair (pairId account stem photoSha videoSha : String) (status : PairStatus)
  | setLivePhotoPairStatus (pairId : String) (status : Status)
  | triageEvent (a : TriageAction) (p : TriagePhase) (itemId : String) (reason : Option String)
      (actor : String)
  | triageApply (a : TriageAction) (itemId key : String) (reason : Option String)
      (actor now : String)
  | pruneAuthFailureAuditBacklog (keepLatest : Int)

/-- The transaction at the clock reading `now`. -/
def Tx.apply (r : Registry) (now : String) : Tx → Except TxError Registry
  | .createOrUpdateFile sha n st name path => .ok (r.createOrUpdateFile sha n st name path now)
  | .upsertMetadataIndex account id n mt sha => .ok (r.upsertMetadataIndex account id n mt sha now)
  | .upsertFileOrigin sha account id hint => r.upsertFileOrigin sha account id hint now
  | .finalizeUnknownIngest sha n name path account id src mt actor =>
    r.finalizeUnknownIngest sha n name path account id src mt actor now
  | .finalizeAcceptFromPending sha path account src actor reason =>
    r.finalizeAcceptFromPending sha path account src actor reason now
  | .finalizeKnownIngest sha st account id src mt n actor =>
    r.finalizeKnownIngest sha st account id src mt n actor now
  | .clearCurrentPath sha => .ok (r.clearCurrentPath sha now)
  | .updateCurrentPath sha path => .ok (r.updateCurrentPath sha path now)
  | .finalizePurgeFromRejected sha reason actor => r.finalizePurgeFromRejected sha reason actor now
  | .transitionStatus sha st reason actor => r.transitionStatus sha st reason actor now
  | .appendAuditEvent sha action reason actor => .ok (r.appendAuditEvent sha action reason actor now)
  | .appendIngestTerminalEvent b n account id sha action reason actor =>
    .ok (r.appendIngestTerminalEvent b n account id sha action reason actor now)
  | .upsertLivePhotoPair id account stem p v st => r.upsertLivePhotoPair id account stem p v st now
  | .setLivePhotoPairStatus id st => .ok (r.setLivePhotoPairStatus id st now)
  | .triageEvent a p item reason actor => .ok (r.triageEvent a p item reason actor now)
  | .triageApply a item key reason actor at_ => r.triageApply a item key reason actor at_
  | .pruneAuthFailureAuditBacklog keep => r.pruneAuthFailureAuditBacklog keep

inductive Op where
  | pathExists (p : Path)
  | statSize (p : Path)
  | sha256File (p : Path)
  | replace (src dst : Path)
  | copy2 (src dst : Path)
  | unlink (p : Path)
  | rglobFiles (root : Path)
  | stDev (p : Path)
  | now
  | uuid4
  | journalAppend (maxBytes : Nat) (rec : JournalRecord)
  | journalReadAll
  | journalClear
  | getFile (sha : String)
  | prefilterStatus (account onedriveId : String) (sizeBytes : Option Int) (modifiedTime : String)
  | enabledBlockRules
  | getAcceptContext (sha : String)
  | getLivePhotoPair (pairId : String)
  | getLivePhotoPairForMember (sha : String)
  | replayed (key : String)
  | tx (t : Tx)

/-- What a step answers. A missing file answers `none` or `false`. -/
@[reducible] def Op.Res : Op → Type
  | .pathExists _ => Bool
  | .statSize _ => Option Nat
  | .sha256File _ => Option String
  | .replace _ _ => Bool
  | .copy2 _ _ => Bool
  | .unlink _ => Unit
  | .rglobFiles _ => List Path
  | .stDev _ => Nat
  | .now => Instant
  | .uuid4 => String
  | .journalAppend _ _ => Unit
  | .journalReadAll => List JournalRecord
  | .journalClear => Unit
  | .getFile _ => Option FileRecord
  | .prefilterStatus _ _ _ _ => Option (Status × String)
  | .enabledBlockRules => List (RuleType × String)
  | .getAcceptContext _ => Option Registry.AcceptContext
  | .getLivePhotoPair _ => Option LivePhotoPairRecord
  | .getLivePhotoPairForMember _ => Option LivePhotoPairRecord
  | .replayed _ => Option IdempotencyRow
  | .tx _ => Except TxError Unit

@[reducible] def Ops : Sig := ⟨Op, Op.Res⟩

structure World where
  fs : Table Path Bytes
  reg : Registry
  journal : Journal
  ticks : Nat
  draws : Nat

/-- The exceptions the flows raise. -/
inductive Err where
  | rejectFlow (msg : String)
  | ingest (msg : String)
  | storage (msg : String)
  | livePhoto (msg : String)
  | fileNotFound (p : Path)
  /-- `shutil.SameFileError` -/
  | sameFile (p : Path)
  | tx (e : TxError)
  | lookup (msg : String)
  | value (msg : String)
  deriving DecidableEq, Repr

abbrev Flow (α : Type) := Prog Ops Err α

/-! ## Effects on the files -/

/-- `src.replace(dst)`: `dst` is overwritten. -/
def moveFile (fs : Table Path Bytes) (src dst : Path) : Option (Table Path Bytes) :=
  (fs.get src).map fun b => (fs.drop src).put dst b

/-- `shutil.copy2(src, dst)`. -/
def copyFile (fs : Table Path Bytes) (src dst : Path) : Option (Table Path Bytes) :=
  (fs.get src).map fun b => fs.put dst b

/-- `sorted(path for path in root.rglob("*") if path.is_file())`. -/
def filesBelow (fs : Table Path Bytes) (root : Path) : List Path :=
  (fs.keys.filter fun p => root.isPrefixOf p && root.length < p.length).insertionSort
    fun p q => decide (p ≤ q)

/-- The effect of each step. -/
def handle (env : Env) : Handler Ops World
  | .pathExists p, w => ((w.fs.get p).isSome, w)
  | .statSize p, w => ((w.fs.get p).map (·.length), w)
  | .sha256File p, w => ((w.fs.get p).map env.sha256, w)
  | .replace src dst, w =>
    match moveFile w.fs src dst with
    | none => (false, w)
    | some fs => (true, { w with fs := fs })
  | .copy2 src dst, w =>
    match copyFile w.fs src dst with
    | none => (false, w)
    | some fs => (true, { w with fs := fs })
  | .unlink p, w => ((), { w with fs := w.fs.drop p })
  | .rglobFiles root, w => (filesBelow w.fs root, w)
  | .stDev p, w => (env.device p, w)
  | .now, w => (env.clock w.ticks, { w with ticks := w.ticks + 1 })
  | .uuid4, w => (env.uuid w.draws, { w with draws := w.draws + 1 })
  | .journalAppend maxBytes rec, w =>
    let line := { rec with ts := (env.clock w.ticks).iso }
    ((), { w with journal := w.journal.append env.lineBytes maxBytes line, ticks := w.ticks + 1 })
  | .journalReadAll, w => (w.journal.readAll, w)
  | .journalClear, w => ((), { w with journal := w.journal.clear })
  | .getFile sha, w => (w.reg.getFile sha, w)
  | .prefilterStatus account id n mt, w => (w.reg.prefilterStatus account id n mt, w)
  | .enabledBlockRules, w => (w.reg.enabledBlockRules, w)
  | .getAcceptContext sha, w =>
    (w.reg.getAcceptContext sha (env.clock w.ticks).iso, { w with ticks := w.ticks + 1 })
  | .getLivePhotoPair id, w => (w.reg.getLivePhotoPair id, w)
  | .getLivePhotoPairForMember sha, w => (w.reg.getLivePhotoPairForMember sha, w)
  | .replayed key, w => (w.reg.uiActionIdempotency.get key, w)
  | .tx t, w =>
    match t.apply w.reg (env.clock w.ticks).iso with
    | .ok reg => (.ok (), { w with reg := reg, ticks := w.ticks + 1 })
    | .error e => (.error e, { w with ticks := w.ticks + 1 })

end Nightfall
