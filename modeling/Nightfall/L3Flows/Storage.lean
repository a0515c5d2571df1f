import Nightfall.L3Flows.World

/-!
# Storage operations as flows (`domain/storage.py`)

The steps as functions that raise what Python raises, the choice of a free
destination, and the commit of a file into a queue root.
-/
namespace Nightfall
open Nightfall.Core Storage

/-! ## Single steps -/

@[simp] def pathExists (p : Path) : Flow Bool := .op (.pathExists p) .ret

/-- `path.stat().st_size`. -/
@[simp] def statSize (p : Path) : Flow Nat := .op (.statSize p) fun
  | some n => .ret n
  | none => .err (.fileNotFound p)

/-- `sha256_file`. -/
@[simp] def sha256File (p : Path) : Flow String := .op (.sha256File p) fun
  | some h => .ret h
  | none => .err (.fileNotFound p)

/-- `src.replace(dst)`. -/
@[simp] def replaceFile (src dst : Path) : Flow Unit := .op (.replace src dst) fun
  | true => .ret ()
  | false => .err (.fileNotFound src)

/-- `shutil.copy2(src, dst)`: a file is not copied onto itself. -/
@[simp] def copy2 (src dst : Path) : Flow Unit :=
  if src = dst then .err (.sameFile src)
  else .op (.copy2 src dst) fun
    | true => .ret ()
    | false => .err (.fileNotFound src)

/-- `path.unlink(missing_ok=True)`. -/
@[simp] def unlink (p : Path) : Flow Unit := .op (.unlink p) .ret

@[simp] def rglobFiles (root : Path) : Flow (List Path) := .op (.rglobFiles root) .ret

@[simp] def stDev (p : Path) : Flow Nat := .op (.stDev p) .ret

@[simp] def utcNow : Flow Instant := .op .now .ret

@[simp] def uuid4 : Flow String := .op .uuid4 .ret

/-- A registry transaction; a rollback is raised. -/
@[simp] def transact (t : Tx) : Flow Unit := .op (.tx t) fun
  | .ok () => .ret ()
  | .error e => .err (.tx e)

/-! ## Rendering and containment -/

/-- `_parse_timestamp`: an unreadable text falls back to the clock.
mirrors src/nightfall_photo_ingress/domain/storage.py:221-231 -/
def parseTimestamp (env : Env) (value : String) : Flow Timestamp :=
  match env.fromisoformat (String.ofList (replaceAll value.toList "Z".toList "+00:00".toList)) with
  | some ts => pure ts
  | none => do return (← utcNow).stamp

/-- `render_storage_relative_path`. -/
def renderRelativePath (env : Env) (template sha original modifiedTime : String) :
    Flow (List String) := do
  let ts ← parseTimestamp env modifiedTime
  match renderStorageRelativePath template sha original ts with
  | .ok rel => pure rel
  | .error e => throw (.storage e.msg)

/-- The message of `_ensure_within_root`. -/
def escapesMsg (destination root : Path) : String :=
  "Destination escapes accepted root: destination=" ++ destination.str ++ " root=" ++ root.str

/-- mirrors src/nightfall_photo_ingress/domain/storage.py:254-262 -/
def ensureWithinRoot (destination root : Path) : Flow Unit :=
  if withinRoot destination root then pure () else throw (.storage (escapesMsg destination root))

/-- The check of a destination whose root may be absent. -/
def ensureWithin (destination : Path) : Option Path → Flow Unit
  | some root => ensureWithinRoot destination root
  | none => pure ()

/-! ## A free destination -/

/-- The collision loop from `index` on, with `n` candidates left. -/
def tryCollisions (base : Path) : Nat → Nat → Flow (Option Path)
  | _, 0 => pure none
  | index, n + 1 => do
    let candidate := base.withName (collisionName base.name index)
    if ← pathExists candidate then tryCollisions base (index + 1) n else pure (some candidate)

def collisionMsg (base : Path) (maxAttempts : Int) : String :=
  "Collision threshold exceeded while generating destination path: base=" ++ base.str ++
    " attempts=" ++ toString maxAttempts

/-- mirrors src/nightfall_photo_ingress/domain/storage.py:95-114 -/
def chooseCollisionSafeDestinationWithThreshold (base : Path) (maxAttempts : Int) : Flow Path :=
  if maxAttempts < 1 then throw (.storage "max_attempts must be >= 1")
  else do
    if ← pathExists base then
      match ← tryCollisions base 1 maxAttempts.toNat with
      | some candidate => pure candidate
      | none => throw (.storage (collisionMsg base maxAttempts))
    else pure base

/-- mirrors src/nightfall_photo_ingress/domain/storage.py:86-92 -/
def chooseCollisionSafeDestination (base : Path) : Flow Path :=
  chooseCollisionSafeDestinationWithThreshold base 10000

/-! ## Commit -/

inductive CommitMethod where
  | rename
  | copyVerifyUnlink
  deriving DecidableEq, Repr

structure CommitResult where
  destinationPath : Path
  bytesWritten : Nat
  method : CommitMethod
  deriving DecidableEq, Repr

/-- The same-pool branch: one rename. -/
def commitRename (source destination : Path) : Flow CommitResult := do
  replaceFile source destination
  let written ← statSize destination
  return ⟨destination, written, .rename⟩

def sizeMismatchMsg (source copied : Nat) : String :=
  "Cross-pool copy size mismatch: source=" ++ toString source ++ " copied=" ++ toString copied

/-- The cross-pool branch: copy beside the destination, verify, rename, unlink. -/
def commitCopy (source destination : Path) : Flow CommitResult := do
  let tmp := destination.addExt ".tmp"
  copy2 source tmp
  let sourceSize ← statSize source
  let copiedSize ← statSize tmp
  if sourceSize ≠ copiedSize then do
    unlink tmp
    throw (.storage (sizeMismatchMsg sourceSize copiedSize))
  else do
    let sourceHash ← sha256File source
    let copiedHash ← sha256File tmp
    if sourceHash ≠ copiedHash then do
      unlink tmp
      throw (.storage "Cross-pool copy hash mismatch")
    else do
      replaceFile tmp destination
      unlink source
      return ⟨destination, copiedSize, .copyVerifyUnlink⟩

/-- mirrors src/nightfall_photo_ingress/domain/storage.py:117-179 -/
def commitStagingToAccepted (source destination : Path) (stagingOnSamePool : Bool)
    (destinationRoot : Option Path) : Flow CommitResult := do
  if ← pathExists source then do
    ensureWithin destination destinationRoot
    if stagingOnSamePool then commitRename source destination else commitCopy source destination
  else throw (.storage ("Staged source missing: " ++ source.str))

/-- mirrors src/nightfall_photo_ingress/domain/storage.py:182-202 -/
def commitPendingToAccepted (source destination : Path) (samePool : Bool)
    (destinationRoot : Option Path) : Flow CommitResult :=
  commitStagingToAccepted source destination samePool destinationRoot

/-- The devices of the directories the two paths stand in; `pathB` is a
directory already.
mirrors src/nightfall_photo_ingress/domain/storage.py:205-212 -/
def areOnSameFilesystem (pathA pathB : Path) : Flow Bool := do
  let a ← stDev pathA.dropLast
  let b ← stDev pathB
  return a == b

/-! ## The template linter -/

/-- `re.findall(r"\{([^{}]+)\}", template)`: a match never overlaps a later
opening brace, so every brace is tried. -/
def placeholders : List Char → List (List Char)
  | [] => []
  | c :: cs =>
    let inside := cs.takeWhile fun d => d != '\x7b' && d != '\x7d'
    let after := cs.dropWhile fun d => d != '\x7b' && d != '\x7d'
    if c == '\x7b' && !inside.isEmpty && after.head? == some '\x7d' then
      inside :: placeholders cs
    else placeholders cs

/-- `"{original}" in template or "{sha8}" in template`. -/
def namesFile (template : String) : Bool :=
  isIn "{original}".toList template.toList || isIn "{sha8}".toList template.toList

/-- mirrors src/nightfall_photo_ingress/domain/storage.py:234-251 -/
def lintStorageTemplate (template : String) : List String :=
  let cs := template.toList
  (if cs.head? = some '/' then ["template_must_be_relative"] else []) ++
  (if isIn "..".toList cs then ["template_contains_traversal"] else []) ++
  (if namesFile template then [] else ["template_missing_filename_component"]) ++
  ((placeholders cs).filter fun p => !(List.contains ["yyyy", "mm", "sha8", "original"]
    (String.ofList p))).map fun p =>
      "template_unknown_placeholder:\x7b" ++ String.ofList p ++ "\x7d"

end Nightfall
