import Nightfall.L3Flows.World

/-!
# Hash import (`hash_import.py`)

`runHashImport` walks a library tree, takes the SHA-256 of every file from the
directory's cache file when that is valid and from the bytes when it is not,
and stores the hashes in `external_hash_cache`. Nothing else runs meanwhile, so
the walk is a function of the files.

The shell pipeline `find | sort | sha1sum` behind the directory hash reads
modification times, which are not modelled: its answers are a parameter, as are
SHA-1, the decoding of a text, which directories exist and for which paths
`exists()` raises.
-/
namespace Nightfall
open Nightfall.Core Storage

inductive HashImportFailure where
  | parse (source : String) (lineNumber : Nat) (message : String)
  | hashImport (message : String)
  /-- bytes that are no UTF-8 -/
  | unicodeDecode
  /-- an `OSError` of `exists()` -/
  | os
  deriving DecidableEq, Repr

/-- What the walk takes from the machine. -/
structure HashTools where
  sha1 : Bytes → String
  /-- `read_text(encoding="utf-8")`, `none` for `UnicodeDecodeError` -/
  decode : Bytes → Option String
  directoryHash : Path → Except String String
  /-- `exists()` raises for this path, as it does when a name is too long -/
  statRaises : Path → Bool
  dirExists : Path → Bool

structure HashImportDirectoryRow where
  sha1 : String
  sha256 : String
  path : Path
  deriving DecidableEq, Repr

inductive PlanSource where
  | cacheV2
  | backfillV1
  | recompute
  deriving DecidableEq, Repr

structure HashImportDirectoryPlan where
  directory : Path
  source : PlanSource
  sha256Values : List String
  staleOrInvalidCacheReplaced : Bool
  deriving DecidableEq, Repr

structure HashImportChunkResult where
  chunkIndex : Nat
  imported : Nat
  skippedExisting : Nat
  deriving DecidableEq, Repr

structure HashImportSummary where
  directoriesProcessed : Nat
  recomputesPerformed : Nat
  validCachesConsumed : Nat
  staleInvalidCachesReplaced : Nat
  totalImported : Nat
  totalSkipped : Nat
  chunkResults : List HashImportChunkResult
  deriving DecidableEq, Repr

namespace HashImport

abbrev Result (α : Type) := Except HashImportFailure α

def hashfileV2Name : String := ".hashes.v2"

def hashfileV1Names : List String := [".hashes.sha1", ".hashes.v1"]

/-! ## Lines and fields -/

/-- The characters that end a line for `str.splitlines`; `\r\n` counts once. -/
def isLineEnd (c : Char) : Bool :=
  c == '\n' || c == '\r' || c == '\x0b' || c == '\x0c' || c == '\x1c' || c == '\x1d' ||
    c == '\x1e' || c == '\u0085' || c == '\u2028' || c == '\u2029'

/-- `str.splitlines`; `line` is the part of the current line read so far. -/
def splitLinesGo (line : List Char) : List Char → List (List Char)
  | [] => if line.isEmpty then [] else [line.reverse]
  | '\r' :: '\n' :: cs => line.reverse :: splitLinesGo [] cs
  | c :: cs => if isLineEnd c then line.reverse :: splitLinesGo [] cs
    else splitLinesGo (c :: line) cs

def splitLines (text : String) : List (List Char) := splitLinesGo [] text.toList

theorem splitLinesGo_cons {c : Char} (hc : c ≠ '\r') (line cs : List Char) :
    splitLinesGo line (c :: cs) =
      if isLineEnd c then line.reverse :: splitLinesGo [] cs
      else splitLinesGo (c :: line) cs := by
  rw [splitLinesGo.eq_def]
  split
  · next heq => cases heq
  · next heq =>
    cases heq
    exact absurd rfl hc
  · next heq =>
    cases heq
    rfl

def isHex (c : Char) : Bool :=
  ('0' ≤ c && c ≤ '9') || ('a' ≤ c && c ≤ 'f') || ('A' ≤ c && c ≤ 'F')

/-- `[0-9a-fA-F]{n}`, the whole text. -/
def isHexOf (n : Nat) (cs : List Char) : Bool := cs.length == n && cs.all isHex

/-- `.lower()` of a hexadecimal text. -/
def lower (cs : List Char) : String := String.ofList (cs.map Char.toLower)

/-- `DIRECTORY_HASH_HEADER_RE.fullmatch`, its group in lower case. -/
def directoryHashHeader (line : List Char) : Option String :=
  let word := "DIRECTORY_HASH".toList
  if word.isPrefixOf line then
    let rest := line.drop word.length
    let hash := rest.dropWhile isPySpace
    if (rest.takeWhile isPySpace).isEmpty || !isHexOf 40 hash then none else some (lower hash)
  else none

/-- `[ *](.+)` behind the first `k` blanks, for the greatest `k ≥ 1` that fits. -/
def rowPath (rest : List Char) : Nat → Option (List Char)
  | 0 => none
  | k + 1 =>
    match rest.drop (k + 1) with
    | c :: path => if (c == ' ' || c == '*') && !path.isEmpty then some path else rowPath rest k
    | [] => rowPath rest k

/-- `SHA1_ROW_RE.fullmatch`: the hash in lower case and the path. -/
def sha1Row (line : List Char) : Option (String × String) :=
  let hash := line.take 40
  let rest := line.drop 40
  if isHexOf 40 hash then
    (rowPath rest (rest.takeWhile isPySpace).length).map fun path => (lower hash, String.ofList path)
  else none

/-- `raw_line.split("\t")`. -/
def columns (line : List Char) : List (List Char) := line.splitOn '\t'

/-! ## Directories -/

/-- `name.casefold()` as far as `thumbs.db` is concerned: ASCII letters, and the
long s, which folds to `s`. -/
def foldChar (c : Char) : Char := if c = 'ſ' then 's' else c.toLower

def isIgnoredName (name : String) : Bool :=
  name == hashfileV2Name || hashfileV1Names.contains name ||
    name.toList.map foldChar == "thumbs.db".toList

/-- The files directly in a directory. -/
def filesIn (fs : Table Path Bytes) (directory : Path) : List Path :=
  fs.keys.filter fun p => p ≠ [] ∧ p.dropLast = directory

/-- mirrors src/nightfall_photo_ingress/hash_import.py:621-636 -/
def iterImportableFiles (fs : Table Path Bytes) (directory : Path) : List Path :=
  ((filesIn fs directory).filter fun p => !isIgnoredName p.name).insertionSort
    fun p q => decide (p.name ≤ q.name)

/-- The sort key of a directory: its path below the root, as a text. -/
def relativeKey (root directory : Path) : String := "/".intercalate (directory.drop root.length)

/-- The root, then the directories below it in the order of their keys, those
that hold a cache file or an importable file.
mirrors src/nightfall_photo_ingress/hash_import.py:576-583 -/
def iterCandidateDirectories (fs : Table Path Bytes) (root : Path) : List Path :=
  let parents := (fs.keys.filter fun p : Path => root.isPrefixOf p.dropLast && p ≠ [] &&
    (!isIgnoredName p.name || p.name == hashfileV2Name || hashfileV1Names.contains p.name)).map
      List.dropLast
  let below := (parents.dedup.filter (· ≠ root)).insertionSort
    fun p q => decide (relativeKey root p ≤ relativeKey root q)
  if parents.contains root then root :: below else below

/-! ## Cache files -/

/-- `Path(text)`: what stands before the first component, and the components. -/
def pyPath (text : String) : String × List String :=
  let cs := text.toList
  let slashes := (cs.takeWhile (· == '/')).length
  let root := if slashes = 0 then "" else if slashes = 2 then "//" else "/"
  (root, ((cs.splitOn '/').filter fun part => part ≠ [] ∧ part ≠ ['.']).map String.ofList)

/-- mirrors src/nightfall_photo_ingress/hash_import.py:555-565 -/
def validateCacheRowPath (t : HashTools) (fs : Table Path Bytes) (source : String) (lineNumber : Nat)
    (text : String) (directory : Path) : Result Path :=
  let path := pyPath text
  if path.1 = "" then .error (.parse source lineNumber "path must be absolute")
  else if path.1 ≠ "/" ∨ path.2.dropLast ≠ directory then
    .error (.parse source lineNumber "path must belong to cache directory")
  else if isIgnoredName (Path.name path.2) then
    .error (.parse source lineNumber "path references ignored file")
  else if (fs.get path.2).isSome then .ok path.2
  else if t.statRaises path.2 then .error .os
  else .error (.parse source lineNumber "path does not exist as a file")

/-- The cached paths are exactly the importable files.
mirrors src/nightfall_photo_ingress/hash_import.py:568-573 -/
def validateRequiredRows (fs : Table Path Bytes) (source : String) (seen : List Path)
    (directory : Path) : Result Unit :=
  let actual := iterImportableFiles fs directory
  if actual.all seen.contains && seen.all actual.contains then .ok ()
  else .error (.parse source 0 "cache rows do not match current directory contents")

/-- One row of a `.hashes.v2` text: its two hashes and its path. -/
def parseHashesV2Row (source : String) (lineNumber : Nat) (line : List Char) :
    Result (String × String × String) :=
  match columns line with
  | [sha1Value, sha256Value, pathValue] =>
    if !isHexOf 40 sha1Value then
      .error (.parse source lineNumber "invalid SHA-1 value in column 1")
    else if !isHexOf 64 sha256Value then
      .error (.parse source lineNumber "invalid SHA-256 value in column 2")
    else if pathValue.isEmpty then .error (.parse source lineNumber "empty path in column 3")
    else .ok (lower sha1Value, lower sha256Value, String.ofList pathValue)
  | _ => .error (.parse source lineNumber "expected exactly 3 tab-separated fields")

def parseHashesV2Rows (source : String) :
    Nat → List (List Char) → Result (List (String × String × String))
  | _, [] => .ok []
  | lineNumber, line :: lines => do
    let row ← parseHashesV2Row source lineNumber line
    let rows ← parseHashesV2Rows source (lineNumber + 1) lines
    return row :: rows

/-- The stored directory hash and the rows.
mirrors src/nightfall_photo_ingress/hash_import.py:409-438 -/
def parseHashesV2Lines (text source : String) : Result (String × List (String × String × String)) :=
  match splitLines text with
  | [] => .error (.parse source 1 "expected exact header 'CACHE_SCHEMA v2'")
  | header :: lines =>
    if header ≠ "CACHE_SCHEMA v2".toList then
      .error (.parse source 1 "expected exact header 'CACHE_SCHEMA v2'")
    else match lines with
      | [] => .error (.parse source 2 "missing DIRECTORY_HASH header")
      | line :: lines =>
        match directoryHashHeader line with
        | none => .error (.parse source 2 "invalid DIRECTORY_HASH header")
        | some hash => do
          let rows ← parseHashesV2Rows source 3 lines
          return (hash, rows)

/-- `_read_text_file` of a file that exists. -/
def readText (t : HashTools) (b : Bytes) : Result String :=
  match t.decode b with
  | some text => .ok text
  | none => .error .unicodeDecode

/-- The rows of a cache text as rows of the directory. -/
def directoryRows (t : HashTools) (fs : Table Path Bytes) (source : String) (directory : Path) :
    Nat → List (String × String × String) → Result (List HashImportDirectoryRow)
  | _, [] => .ok []
  | lineNumber, (sha1Value, sha256Value, pathValue) :: rows => do
    let path ← validateCacheRowPath t fs source lineNumber pathValue directory
    let rest ← directoryRows t fs source directory (lineNumber + 1) rows
    return ⟨sha1Value, sha256Value, path⟩ :: rest

/-- mirrors src/nightfall_photo_ingress/hash_import.py:441-474 -/
def parseHashesV2Cache (t : HashTools) (fs : Table Path Bytes) (directory : Path) (b : Bytes)
    (expected : String) : Result (List HashImportDirectoryRow) := do
  let source := Path.str (directory ++ [hashfileV2Name])
  let text ← readText t b
  let parsed ← parseHashesV2Lines text source
  if parsed.1 ≠ expected then .error (.parse source 2 "stale DIRECTORY_HASH header")
  else do
    let rows ← directoryRows t fs source directory 3 parsed.2
    validateRequiredRows fs source (rows.map (·.path)) directory
    return rows

/-- The rows of a legacy cache text: hash and path. -/
def parseHashesV1Rows (t : HashTools) (fs : Table Path Bytes) (source : String) (directory : Path) :
    Nat → List (List Char) → Result (List (String × Path))
  | _, [] => .ok []
  | lineNumber, line :: lines =>
    match sha1Row line with
    | none => .error (.parse source lineNumber "invalid v1 cache row")
    | some (sha1Value, pathValue) => do
      let path ← validateCacheRowPath t fs source lineNumber pathValue directory
      let rest ← parseHashesV1Rows t fs source directory (lineNumber + 1) lines
      return (sha1Value, path) :: rest

/-- mirrors src/nightfall_photo_ingress/hash_import.py:500-537 -/
def parseHashesV1Cache (t : HashTools) (fs : Table Path Bytes) (directory : Path) (name : String)
    (b : Bytes) (expected : String) : Result (List (String × Path)) := do
  let source := Path.str (directory ++ [name])
  let text ← readText t b
  match splitLines text with
  | [] => .error (.parse source 1 "missing DIRECTORY_HASH header")
  | header :: lines =>
    match directoryHashHeader (stripBy isPySpace header) with
    | none => .error (.parse source 1 "invalid DIRECTORY_HASH header")
    | some hash =>
      if hash ≠ expected then .error (.parse source 1 "stale DIRECTORY_HASH header")
      else do
        let rows ← parseHashesV1Rows t fs source directory 2 lines
        validateRequiredRows fs source (rows.map (·.2)) directory
        return rows

/-! ## The plan of a directory -/

/-- The digest of a file that was listed. -/
def sha256Of (env : Env) (fs : Table Path Bytes) (p : Path) : String :=
  env.sha256 ((fs.get p).getD [])

/-- mirrors src/nightfall_photo_ingress/hash_import.py:540-552 -/
def rehashDirectoryRows (env : Env) (t : HashTools) (fs : Table Path Bytes) (directory : Path) :
    List HashImportDirectoryRow :=
  (iterImportableFiles fs directory).map fun p =>
    ⟨t.sha1 ((fs.get p).getD []), sha256Of env fs p, p⟩

/-- The plan from a cache file; only a parse error falls back to the bytes. -/
def planFrom (env : Env) (t : HashTools) (fs : Table Path Bytes) (directory : Path)
    (source : PlanSource) (rows : Result (List String)) : Result HashImportDirectoryPlan :=
  match rows with
  | .ok values => .ok ⟨directory, source, values, false⟩
  | .error (.parse _ _ _) =>
    .ok ⟨directory, .recompute, (rehashDirectoryRows env t fs directory).map (·.sha256), true⟩
  | .error e => .error e

/-- The first legacy cache file that exists. -/
def findV1Cache (fs : Table Path Bytes) (directory : Path) : Option (String × Bytes) :=
  hashfileV1Names.findSome? fun name => (fs.get (directory ++ [name])).map fun b => (name, b)

/-- mirrors src/nightfall_photo_ingress/hash_import.py:97-150 -/
def buildHashImportDirectoryPlan (env : Env) (t : HashTools) (fs : Table Path Bytes)
    (directory : Path) : Result HashImportDirectoryPlan :=
  match t.directoryHash directory with
  | .error e => .error (.hashImport e)
  | .ok currentDirHash =>
    match fs.get (directory ++ [hashfileV2Name]) with
    | some b => planFrom env t fs directory .cacheV2
        ((parseHashesV2Cache t fs directory b currentDirHash).map fun rows => rows.map (·.sha256))
    | none =>
      match findV1Cache fs directory with
      | some (name, b) => planFrom env t fs directory .backfillV1
          ((parseHashesV1Cache t fs directory name b currentDirHash).map fun rows =>
            rows.map fun row => sha256Of env fs row.2)
      | none => .ok ⟨directory, .recompute,
          (rehashDirectoryRows env t fs directory).map (·.sha256), false⟩

/-- mirrors src/nightfall_photo_ingress/hash_import.py:202-213 -/
def collectHashImportPlans (env : Env) (t : HashTools) (fs : Table Path Bytes) (root : Path) :
    Result (List HashImportDirectoryPlan) :=
  if (fs.get root).isSome then
    .error (.hashImport ("hash-import root is not a directory: " ++ root.str))
  else if !t.dirExists root then
    .error (.hashImport ("hash-import root does not exist: " ++ root.str))
  else (iterCandidateDirectories fs root).mapM (buildHashImportDirectoryPlan env t fs)

/-! ## The import -/

/-- The hashes in slices of `size`; `fuel` is at least their number. -/
def slices (size : Nat) : Nat → List String → List (List String)
  | 0, _ => []
  | _, [] => []
  | fuel + 1, hashes => hashes.take size :: slices size fuel (hashes.drop size)

/-- Each chunk reads the clock and commits on its own. -/
def importChunks (env : Env) : Nat → List (List String) → World → List HashImportChunkResult × World
  | _, [], w => ([], w)
  | index, chunk :: chunks, w =>
    let (reg, imported, skipped) := w.reg.bulkInsertHashImport chunk (env.clock w.ticks).iso
    let (results, w) := importChunks env (index + 1) chunks
      { w with reg := reg, ticks := w.ticks + 1 }
    (⟨index, imported, skipped⟩ :: results, w)

/-- `_execute_hash_import_chunks` of a real run.
mirrors src/nightfall_photo_ingress/hash_import.py:234-287 -/
def executeHashImportChunks (env : Env) (hashes : List String) (chunkSize : Int) (w : World) :
    Result (List HashImportChunkResult) × World :=
  if chunkSize ≤ 0 then (.error (.hashImport "chunk_size must be > 0"), w)
  else
    let (results, w) := importChunks env 1 (slices chunkSize.toNat hashes.length hashes) w
    (.ok results, w)

/-! ## Dry runs -/

/-- The stored hashes among those of one query. -/
def selectHashImports (rows : List ExternalHashRow) (chunk : List String) : List String :=
  (rows.filter fun row => row.accountName = "__hash_import__" ∧ row.sourceRelpath = none ∧
    row.hashAlgo = "sha256" ∧ row.hashValue ∈ chunk).map (·.hashValue)

/-- mirrors src/nightfall_photo_ingress/hash_import.py:290-314 -/
def fetchExistingHashImportHashes (r : Registry) (hashes : List String) : List String :=
  let uniqueHashes := hashes.dedup.insertionSort fun a b => decide (a ≤ b)
  (slices 500 uniqueHashes.length uniqueHashes).flatMap (selectHashImports r.externalHashCache)

structure Simulated where
  imported : Nat
  skippedExisting : Nat
  simulatedSeen : List String

def simulateHash (s : Simulated) (hash : String) : Simulated :=
  if hash ∈ s.simulatedSeen then { s with skippedExisting := s.skippedExisting + 1 }
  else { s with imported := s.imported + 1, simulatedSeen := hash :: s.simulatedSeen }

/-- The counters start again with each chunk, the set goes on. -/
def simulateChunks : Nat → List (List String) → List String → List HashImportChunkResult
  | _, [], _ => []
  | index, chunk :: chunks, seen =>
    let s := chunk.foldl simulateHash ⟨0, 0, seen⟩
    ⟨index, s.imported, s.skippedExisting⟩ :: simulateChunks (index + 1) chunks s.simulatedSeen

/-- `_execute_hash_import_chunks` of a dry run, which writes nothing.
mirrors src/nightfall_photo_ingress/hash_import.py:234-287 -/
def dryRunHashImportChunks (hashes : List String) (chunkSize : Int) (r : Registry) :
    Result (List HashImportChunkResult) :=
  if chunkSize ≤ 0 then .error (.hashImport "chunk_size must be > 0")
  else if hashes.isEmpty then .ok []
  else .ok (simulateChunks 1 (slices chunkSize.toNat hashes.length hashes)
    (fetchExistingHashImportHashes r hashes))

def buildHashImportSummary (plans : List HashImportDirectoryPlan)
    (results : List HashImportChunkResult) : HashImportSummary where
  directoriesProcessed := plans.length
  recomputesPerformed := plans.countP (·.source != .cacheV2)
  validCachesConsumed := plans.countP (·.source == .cacheV2)
  staleInvalidCachesReplaced := plans.countP (·.staleOrInvalidCacheReplaced)
  totalImported := (results.map (·.imported)).sum
  totalSkipped := (results.map (·.skippedExisting)).sum
  chunkResults := results

/-- mirrors src/nightfall_photo_ingress/hash_import.py:153-163 -/
def runHashImport (env : Env) (t : HashTools) (root : Path) (chunkSize : Int) (w : World) :
    Result HashImportSummary × World :=
  match collectHashImportPlans env t w.fs root with
  | .error e => (.error e, w)
  | .ok plans =>
    match executeHashImportChunks env (plans.flatMap (·.sha256Values)) chunkSize w with
    | (.error e, w) => (.error e, w)
    | (.ok results, w) => (.ok (buildHashImportSummary plans results), w)

end HashImport
end Nightfall
