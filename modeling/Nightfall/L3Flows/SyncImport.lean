import Nightfall.L3Flows.HashImport

/-!
# Sync import (`sync_import.py`)

The older reader of the `.hashes.sha1` files of a library. It takes a cache file
when its header has the right shape and its rows are the files of the directory;
the directory hash in the header is not compared with anything.
-/
namespace Nightfall
open Nightfall.Core Storage HashImport

structure ImportedHashEntry where
  sourceRelpath : String
  sha1 : String
  deriving DecidableEq, Repr

/-- What `_parse_hash_cache_file` raises. -/
inductive SyncImportFailure where
  | unicodeDecode
  /-- `relative_to` of a file outside the library -/
  | valueError
  deriving DecidableEq, Repr

namespace SyncImport

/-- `IGNORED_FILENAMES`. -/
def ignoredFilenames : List String := [".hashes.sha1"]

/-- mirrors src/nightfall_photo_ingress/sync_import.py:266-272 -/
def isIgnoredFile (name : String) : Bool :=
  ignoredFilenames.contains name || name.toList.map foldChar == "thumbs.db".toList

/-- mirrors src/nightfall_photo_ingress/sync_import.py:253-263 -/
def iterImportableFiles (fs : Table Path Bytes) (directory : Path) : List Path :=
  ((filesIn fs directory).filter fun p => !isIgnoredFile p.name).insertionSort
    fun p q => decide (p.name ≤ q.name)

/-- `str(file_path.relative_to(library_root))`. -/
def sourceRelpath (libraryRoot file : Path) : Except SyncImportFailure String :=
  if libraryRoot <+: file then .ok ("/".intercalate (file.drop libraryRoot.length))
  else .error .valueError

/-- The rows of the loop with the files they name, `none` at the first invalid
line. -/
def parseHashCacheRows (fs : Table Path Bytes) (libraryRoot directory : Path) :
    List (List Char) → Except SyncImportFailure (Option (List (ImportedHashEntry × Path)))
  | [] => .ok (some [])
  | line :: lines =>
    match sha1Row line with
    | none => .ok none
    | some (sha1, text) =>
      let path := pyPath text
      if path.1 = "" then .ok none
      else if path.1 ≠ "/" ∨ path.2.dropLast ≠ directory then .ok none
      else if isIgnoredFile (Path.name path.2) then .ok none
      else if (fs.get path.2).isNone then .ok none
      else do
        let relpath ← sourceRelpath libraryRoot path.2
        let rest ← parseHashCacheRows fs libraryRoot directory lines
        return rest.map ((⟨relpath, sha1⟩, path.2) :: ·)

/-- The entries, if the file is valid, and the number of invalid lines.
mirrors src/nightfall_photo_ingress/sync_import.py:179-236 -/
def parseHashCacheFile (t : HashTools) (fs : Table Path Bytes) (libraryRoot directory : Path)
    (b : Bytes) : Except SyncImportFailure (Option (List ImportedHashEntry) × Nat) :=
  match t.decode b with
  | none => .error .unicodeDecode
  | some text =>
    match splitLines text with
    | [] => .ok (none, 1)
    | header :: lines =>
      match directoryHashHeader (stripBy isPySpace header) with
      | none => .ok (none, 1)
      | some _ => do
        match ← parseHashCacheRows fs libraryRoot directory lines with
        | none => return (none, 1)
        | some rows =>
          let actual := iterImportableFiles fs directory
          let seen := rows.map (·.2)
          if actual.all seen.contains && seen.all actual.contains then
            return (some (rows.map (·.1)), 0)
          else return (none, 1)

end SyncImport
end Nightfall
