import Nightfall.L4System.CacheReaders
import Nightfall.L4System.System

/-!
# What the hash import takes from a cache file

A cache that is accepted names the importable files of its directory, but the check
compares sets of paths: a file named by two rows has two hashes in the plan.

* `cachePathsV2`, `cachePathsV1`: the paths of a text, row by row.
* `CoversExactly`: each importable file once.
* `cache_covers_iff`: an accepted cache covers its directory exactly when no two rows
  name the same path.
-/
namespace Nightfall.HashImport
open Nightfall.Core Storage

variable {env : Env} {t : HashTools} {fs : Table Path Bytes} {directory : Path} {source : String}

/-! ## The paths of a text -/

/-- The path of a row of a v2 text. -/
def v2RowPath (line : List Char) : Option String :=
  match columns line with
  | [sha1Value, sha256Value, pathValue] =>
    if isHexOf 40 sha1Value && isHexOf 64 sha256Value && !pathValue.isEmpty then
      some (String.ofList pathValue)
    else none
  | _ => none

/-- The path of a row of a legacy text. -/
def v1RowPath (line : List Char) : Option String := (sha1Row line).map (·.2)

/-- The paths of the rows behind the two header lines. -/
def cachePathsV2 (t : HashTools) (b : Bytes) : List Path :=
  match t.decode b with
  | none => []
  | some text => ((splitLines text).drop 2).filterMap fun line =>
      (v2RowPath line).map fun path => (pyPath path).2

/-- The paths of the rows behind the header line. -/
def cachePathsV1 (t : HashTools) (b : Bytes) : List Path :=
  match t.decode b with
  | none => []
  | some text => ((splitLines text).drop 1).filterMap fun line =>
      (v1RowPath line).map fun path => (pyPath path).2

/-! ## Rows -/

theorem readText_ok {b : Bytes} {text : String} :
    readText t b = .ok text ↔ t.decode b = some text := by
  unfold readText
  cases t.decode b <;> simp

theorem parseHashesV2Row_ok {lineNumber : Nat} {line : List Char} {row : String × String × String}
    (h : parseHashesV2Row source lineNumber line = .ok row) : v2RowPath line = some row.2.2 := by
  unfold parseHashesV2Row at h
  split at h
  · next sha1Value sha256Value pathValue hcolumns =>
    split_ifs at h with h₁ h₂ h₃
    simp only [Bool.not_eq_true', Bool.not_eq_false] at h₁ h₂
    cases h
    simp [v2RowPath, hcolumns, h₁, h₂, h₃]
  · cases h

theorem parseHashesV2Rows_ok : ∀ {lines : List (List Char)} {lineNumber : Nat}
    {rows : List (String × String × String)},
    parseHashesV2Rows source lineNumber lines = .ok rows →
      lines.map v2RowPath = rows.map fun row => some row.2.2
  | [], _, _, h => by
    cases h
    rfl
  | line :: lines, lineNumber, rows, h => by
    rw [parseHashesV2Rows] at h
    obtain ⟨row, hrow, h⟩ := bind_eq_ok h
    obtain ⟨rest, hrest, h⟩ := bind_eq_ok h
    cases h
    rw [List.map_cons, parseHashesV2Row_ok hrow, parseHashesV2Rows_ok hrest, List.map_cons]

theorem parseHashesV2Lines_eq_ok {text : String} {hash : String}
    {rows : List (String × String × String)} :
    parseHashesV2Lines text source = .ok (hash, rows) ↔
      ∃ header lines, splitLines text = "CACHE_SCHEMA v2".toList :: header :: lines ∧
        directoryHashHeader header = some hash ∧ parseHashesV2Rows source 3 lines = .ok rows := by
  unfold parseHashesV2Lines
  constructor
  · intro h
    cases htext : splitLines text with
    | nil => rw [htext] at h; cases h
    | cons schema rest =>
      rw [htext] at h
      dsimp only at h
      split_ifs at h with hschema
      cases rest with
      | nil => cases h
      | cons header lines =>
        dsimp only at h
        cases hheader : directoryHashHeader header with
        | none => rw [hheader] at h; cases h
        | some found =>
          rw [hheader] at h
          obtain ⟨rows', hrows, h⟩ := bind_eq_ok h
          cases h
          rw [not_not.mp hschema]
          exact ⟨header, lines, rfl, hheader, hrows⟩
  · rintro ⟨header, lines, htext, hheader, hrows⟩
    simp only [htext, hheader, hrows, ne_eq, not_true_eq_false, if_false]
    rfl

theorem validateCacheRowPath_ok {lineNumber : Nat} {text : String} {p : Path}
    (h : validateCacheRowPath t fs source lineNumber text directory = .ok p) :
    p = (pyPath text).2 := by
  unfold validateCacheRowPath at h
  dsimp only at h
  split_ifs at h
  exact (Except.ok.inj h).symm

theorem directoryRows_ok : ∀ {rows : List (String × String × String)} {lineNumber : Nat}
    {out : List HashImportDirectoryRow},
    directoryRows t fs source directory lineNumber rows = .ok out →
      out.map (·.path) = rows.map fun row => (pyPath row.2.2).2
  | [], _, _, h => by
    cases h
    rfl
  | (sha1Value, sha256Value, pathValue) :: rows, lineNumber, out, h => by
    rw [directoryRows] at h
    obtain ⟨p, hp, h⟩ := bind_eq_ok h
    obtain ⟨rest, hrest, h⟩ := bind_eq_ok h
    cases h
    rw [List.map_cons, List.map_cons, directoryRows_ok hrest, validateCacheRowPath_ok hp]

theorem parseHashesV1Rows_ok : ∀ {lines : List (List Char)} {lineNumber : Nat}
    {rows : List (String × Path)},
    parseHashesV1Rows t fs source directory lineNumber lines = .ok rows →
      rows.map (·.2) = lines.filterMap fun line => (v1RowPath line).map fun path => (pyPath path).2
  | [], _, _, h => by
    cases h
    rfl
  | line :: lines, lineNumber, rows, h => by
    rw [parseHashesV1Rows] at h
    cases hrow : sha1Row line with
    | none => rw [hrow] at h; cases h
    | some row =>
      rw [hrow] at h
      obtain ⟨p, hp, h⟩ := bind_eq_ok h
      obtain ⟨rest, hrest, h⟩ := bind_eq_ok h
      cases h
      simp [v1RowPath, hrow, parseHashesV1Rows_ok hrest, validateCacheRowPath_ok hp]

theorem validateRequiredRows_ok {seen : List Path}
    (h : validateRequiredRows fs source seen directory = .ok ()) :
    ∀ p, p ∈ seen ↔ p ∈ iterImportableFiles fs directory := by
  unfold validateRequiredRows at h
  dsimp only at h
  split_ifs at h with hsame
  exact (SyncImport.sameFiles_iff _ _).mp hsame

theorem parseHashesV2Cache_eq_ok {b : Bytes} {expected : String}
    {rows : List HashImportDirectoryRow} :
    parseHashesV2Cache t fs directory b expected = .ok rows ↔
      ∃ text parsed, t.decode b = some text ∧
        parseHashesV2Lines text (Path.str (directory ++ [hashfileV2Name])) = .ok (expected, parsed) ∧
        directoryRows t fs (Path.str (directory ++ [hashfileV2Name])) directory 3 parsed = .ok rows ∧
        validateRequiredRows fs (Path.str (directory ++ [hashfileV2Name])) (rows.map (·.path))
          directory = .ok () := by
  constructor
  · intro h
    unfold parseHashesV2Cache at h
    obtain ⟨text, htext, h⟩ := bind_eq_ok h
    obtain ⟨⟨hash, parsed⟩, hparsed, h⟩ := bind_eq_ok h
    split_ifs at h with hstale
    obtain ⟨out, hout, h⟩ := bind_eq_ok h
    obtain ⟨_, hrequired, h⟩ := bind_eq_ok h
    cases Except.ok.inj h
    cases not_not.mp hstale
    exact ⟨text, parsed, readText_ok.mp htext, hparsed, hout, hrequired⟩
  · rintro ⟨text, parsed, hdecode, hparsed, hout, hrequired⟩
    unfold parseHashesV2Cache
    rw [readText_ok.mpr hdecode]
    dsimp only [bind, Except.bind]
    rw [hparsed]
    dsimp only
    rw [if_neg (not_not.mpr rfl), hout]
    dsimp only
    rw [hrequired]
    rfl

theorem parseHashesV1Cache_eq_ok {name : String} {b : Bytes} {expected : String}
    {rows : List (String × Path)} :
    parseHashesV1Cache t fs directory name b expected = .ok rows ↔
      ∃ text header lines, t.decode b = some text ∧ splitLines text = header :: lines ∧
        directoryHashHeader (stripBy isPySpace header) = some expected ∧
        parseHashesV1Rows t fs (Path.str (directory ++ [name])) directory 2 lines = .ok rows ∧
        validateRequiredRows fs (Path.str (directory ++ [name])) (rows.map (·.2)) directory =
          .ok () := by
  constructor
  · intro h
    unfold parseHashesV1Cache at h
    obtain ⟨text, htext, h⟩ := bind_eq_ok h
    cases hlines : splitLines text with
    | nil => rw [hlines] at h; cases h
    | cons header lines =>
      rw [hlines] at h
      dsimp only at h
      cases hheader : directoryHashHeader (stripBy isPySpace header) with
      | none => rw [hheader] at h; cases h
      | some hash =>
        rw [hheader] at h
        dsimp only at h
        split_ifs at h with hstale
        obtain ⟨out, hout, h⟩ := bind_eq_ok h
        obtain ⟨_, hrequired, h⟩ := bind_eq_ok h
        cases Except.ok.inj h
        cases not_not.mp hstale
        exact ⟨text, header, lines, readText_ok.mp htext, hlines, hheader, hout, hrequired⟩
  · rintro ⟨text, header, lines, hdecode, hlines, hheader, hout, hrequired⟩
    unfold parseHashesV1Cache
    rw [readText_ok.mpr hdecode]
    dsimp only [bind, Except.bind]
    rw [hlines]
    dsimp only
    rw [hheader]
    dsimp only
    rw [if_neg (not_not.mpr rfl), hout]
    dsimp only
    rw [hrequired]
    rfl

/-- The paths of an accepted v2 cache are those of its text, and the importable files. -/
theorem parseHashesV2Cache_paths {b : Bytes} {expected : String}
    {rows : List HashImportDirectoryRow}
    (h : parseHashesV2Cache t fs directory b expected = .ok rows) :
    rows.map (·.path) = cachePathsV2 t b ∧
      ∀ p, p ∈ rows.map (·.path) ↔ p ∈ iterImportableFiles fs directory := by
  obtain ⟨text, parsed, hdecode, hparsed, hout, hrequired⟩ := parseHashesV2Cache_eq_ok.mp h
  refine ⟨?_, validateRequiredRows_ok hrequired⟩
  obtain ⟨header, lines, hlines, _, hrows⟩ := parseHashesV2Lines_eq_ok.mp hparsed
  have hpaths := congrArg (List.filterMap (Option.map fun path => (pyPath path).2))
    (parseHashesV2Rows_ok hrows)
  have hsome : (parsed.filterMap fun row => some (pyPath row.2.2).2) =
      parsed.map fun row => (pyPath row.2.2).2 := by rw [List.filterMap_eq_map']
  rw [List.filterMap_map, List.filterMap_map] at hpaths
  rw [directoryRows_ok hout, ← hsome]
  simp only [cachePathsV2, hdecode, hlines, List.drop_succ_cons, List.drop_zero]
  exact hpaths.symm

theorem parseHashesV1Cache_paths {name : String} {b : Bytes} {expected : String}
    {rows : List (String × Path)}
    (h : parseHashesV1Cache t fs directory name b expected = .ok rows) :
    rows.map (·.2) = cachePathsV1 t b ∧
      ∀ p, p ∈ rows.map (·.2) ↔ p ∈ iterImportableFiles fs directory := by
  obtain ⟨text, header, lines, hdecode, hlines, _, hout, hrequired⟩ := parseHashesV1Cache_eq_ok.mp h
  refine ⟨?_, validateRequiredRows_ok hrequired⟩
  rw [parseHashesV1Rows_ok hout]
  simp only [cachePathsV1, hdecode, hlines, List.drop_succ_cons, List.drop_zero]

/-! ## Each file once -/

theorem nodup_iterImportableFiles (fs : Table Path Bytes) (directory : Path) :
    (iterImportableFiles fs directory).Nodup := by
  have hkeys : fs.keys.Nodup := fs.nodupKeys
  exact ((List.perm_insertionSort _ _).nodup_iff).mpr ((hkeys.filter _).filter _)

/-- The paths are the importable files, each once, as many as a recompute has. -/
structure CoversExactly (env : Env) (t : HashTools) (fs : Table Path Bytes) (directory : Path)
    (paths : List Path) : Prop where
  perm : paths.Perm (iterImportableFiles fs directory)
  once : ∀ p ∈ iterImportableFiles fs directory, paths.count p = 1
  count : paths.length = (rehashDirectoryRows env t fs directory).length

/-- A list of the importable files covers them exactly when it repeats none. -/
theorem coversExactly_iff {paths : List Path}
    (h : ∀ p, p ∈ paths ↔ p ∈ iterImportableFiles fs directory) :
    CoversExactly env t fs directory paths ↔ paths.Nodup := by
  have hfiles := nodup_iterImportableFiles fs directory
  constructor
  · exact fun hc => hc.perm.nodup_iff.mpr hfiles
  · intro hnodup
    have hperm := (List.perm_ext_iff_of_nodup hnodup hfiles).mpr h
    refine ⟨hperm, fun p hp => List.count_eq_one_of_mem hnodup ((h p).mpr hp), ?_⟩
    rw [hperm.length_eq, rehashDirectoryRows, List.length_map]

/-- For every directory and every cache text that is accepted: it covers the importable
files exactly when no two of its rows name the same path. -/
theorem cache_covers_iff (env : Env) (t : HashTools) (fs : Table Path Bytes) (directory : Path)
    (b : Bytes) (expected : String) :
    (∀ rows, parseHashesV2Cache t fs directory b expected = .ok rows →
        (CoversExactly env t fs directory (rows.map (·.path)) ↔ (cachePathsV2 t b).Nodup)) ∧
      ∀ name rows, parseHashesV1Cache t fs directory name b expected = .ok rows →
        (CoversExactly env t fs directory (rows.map (·.2)) ↔ (cachePathsV1 t b).Nodup) := by
  constructor
  · intro rows h
    obtain ⟨hpaths, hfiles⟩ := parseHashesV2Cache_paths h
    rw [coversExactly_iff hfiles, hpaths]
  · intro name rows h
    obtain ⟨hpaths, hfiles⟩ := parseHashesV1Cache_paths h
    rw [coversExactly_iff hfiles, hpaths]

/-! A directory of one photo, and caches with one row and with two. -/

open SyncImport (asciiTools)

def asciiBytes (cs : List Char) : Bytes := cs.map fun c => UInt8.ofNat c.toNat

theorem decode_asciiBytes {cs : List Char} (h : cs.all fun c => c.toNat < 128) :
    asciiTools.decode (asciiBytes cs) = some (String.ofList cs) := by
  have hback : ∀ c ∈ cs, (UInt8.ofNat c.toNat).toNat = c.toNat := by
    intro c hc
    have hsmall := List.all_eq_true.mp h c hc
    simp only [decide_eq_true_eq] at hsmall
    rw [UInt8.toNat_ofNat', Nat.mod_eq_of_lt (by omega)]
  have hascii : (asciiBytes cs).all (· < 128) = true := by
    simp only [asciiBytes, List.all_map, List.all_eq_true, Function.comp_apply, decide_eq_true_eq,
      UInt8.lt_iff_toNat_lt] at h ⊢
    intro c hc
    rw [hback c hc]
    exact h c hc
  have hchars : (asciiBytes cs).map (fun n => Char.ofNat n.toNat) = cs := by
    rw [asciiBytes, List.map_map]
    refine (List.map_congr_left fun c hc => ?_).trans (List.map_id cs)
    rw [Function.comp_apply, hback c hc, Char.ofNat_toNat, id]
  simp only [asciiTools, hascii, if_true, hchars]

/-- A row for the photo with a hash of 64 times the digit. -/
def v2Line (digit : Char) : List Char :=
  List.replicate 40 'a' ++ '\t' :: List.replicate 64 digit ++ '\t' :: "/library/IMG.JPG".toList

def v1Line : List Char := List.replicate 40 'a' ++ "  /library/IMG.JPG".toList

def directoryHashLine : List Char := "DIRECTORY_HASH ".toList ++ List.replicate 40 'c'

def expectedHash : String := String.ofList (List.replicate 40 'c')

def cacheLines (lines : List (List Char)) : List Char := lines.flatMap (· ++ ['\n'])

def v2Text (rows : List (List Char)) : List Char :=
  cacheLines ("CACHE_SCHEMA v2".toList :: directoryHashLine :: rows)

def photoLibrary : Table Path Bytes := Table.put ∅ ["library", "IMG.JPG"] [97]

def photoRow (digit : Char) : HashImportDirectoryRow :=
  ⟨String.ofList (List.replicate 40 'a'), String.ofList (List.replicate 64 digit),
    ["library", "IMG.JPG"]⟩

theorem v2_lines {lines : List (List Char)} {rows : List (String × String × String)}
    (hsplit : splitLinesGo [] (v2Text lines) =
      "CACHE_SCHEMA v2".toList :: directoryHashLine :: lines)
    (hrows : parseHashesV2Rows source 3 lines = .ok rows) :
    parseHashesV2Lines (String.ofList (v2Text lines)) source = .ok (expectedHash, rows) := by
  refine parseHashesV2Lines_eq_ok.mpr ⟨directoryHashLine, lines, ?_, by decide +kernel, hrows⟩
  rw [splitLines, String.toList_ofList, hsplit]

def photoText (digit : Char) : String × String × String :=
  ((photoRow digit).sha1, (photoRow digit).sha256, "/library/IMG.JPG")

/-- A cache with one row covers the directory, in either format. -/
theorem one_row_covers :
    CoversExactly sampleEnv asciiTools photoLibrary ["library"]
        ([photoRow '0'].map (·.path)) ∧
      CoversExactly sampleEnv asciiTools photoLibrary ["library"]
        ([((photoRow '0').sha1, ["library", "IMG.JPG"])].map fun row : String × Path => row.2) := by
  constructor
  · refine ((cache_covers_iff sampleEnv asciiTools photoLibrary ["library"]
      (asciiBytes (v2Text [v2Line '0'])) expectedHash).1 [photoRow '0'] ?_).mpr ?_
    · exact parseHashesV2Cache_eq_ok.mpr ⟨_, [photoText '0'], decode_asciiBytes (by decide +kernel),
        v2_lines (by decide +kernel) (by decide +kernel), by decide +kernel, by decide +kernel⟩
    · rw [cachePathsV2, decode_asciiBytes (by decide +kernel)]
      simp only [splitLines, String.toList_ofList]
      decide +kernel
  · refine ((cache_covers_iff sampleEnv asciiTools photoLibrary ["library"]
      (asciiBytes (cacheLines [directoryHashLine, v1Line])) expectedHash).2 ".hashes.sha1" _ ?_).mpr
        ?_
    · refine parseHashesV1Cache_eq_ok.mpr ⟨_, directoryHashLine, [v1Line],
        decode_asciiBytes (by decide +kernel), ?_, by decide +kernel, by decide +kernel,
        by decide +kernel⟩
      rw [splitLines, String.toList_ofList]
      decide +kernel
    · rw [cachePathsV1, decode_asciiBytes (by decide +kernel)]
      simp only [splitLines, String.toList_ofList]
      decide +kernel

/-- Two rows give the one photo two hashes. -/
theorem two_rows_accepted :
    ¬ ∀ rows, parseHashesV2Cache asciiTools photoLibrary ["library"]
        (asciiBytes (v2Text [v2Line '0', v2Line '1'])) expectedHash = .ok rows →
      CoversExactly sampleEnv asciiTools photoLibrary ["library"] (rows.map (·.path)) := by
  intro hall
  have haccepted : parseHashesV2Cache asciiTools photoLibrary ["library"]
      (asciiBytes (v2Text [v2Line '0', v2Line '1'])) expectedHash =
        .ok [photoRow '0', photoRow '1'] :=
    parseHashesV2Cache_eq_ok.mpr ⟨_, [photoText '0', photoText '1'],
      decode_asciiBytes (by decide +kernel), v2_lines (by decide +kernel) (by decide +kernel),
      by decide +kernel, by decide +kernel⟩
  have htwice := (hall _ haccepted).once ["library", "IMG.JPG"] (by decide +kernel)
  exact absurd htwice (by decide)

end Nightfall.HashImport
