import Nightfall.L3Flows.SyncImport

/-!
# The two readers of a `.hashes.sha1` file

`_parse_hash_cache_file` of the sync import and `_parse_hashes_v1_cache` of the
hash import read the same rows. They differ in two points: only the second
compares the directory hash of the header, and only the second ignores
`.hashes.v1` and `.hashes.v2`.

* `Lists ignored`: the lines name exactly the files of the directory that are
  not ignored.
* `syncAccepts_eq`, `hashAccepts_eq`: what each reader accepts, in these terms.
* `readersAgree_iff`: when they agree.
-/
namespace Nightfall.SyncImport
open Nightfall.Core Storage HashImport

section Readers
variable {t : HashTools} {fs : Table Path Bytes} {libraryRoot directory : Path} {b : Bytes}

/-- The row of a line: a hash and a file of the directory that is not ignored. -/
def rowOf (ignored : String → Bool) (fs : Table Path Bytes) (directory : Path)
    (line : List Char) : Option (String × Path) :=
  match sha1Row line with
  | none => none
  | some (sha1, text) =>
    if (pyPath text).1 = "/" ∧ (pyPath text).2.dropLast = directory ∧
        ignored (Path.name (pyPath text).2) = false ∧ (fs.get (pyPath text).2).isSome then
      some (sha1, (pyPath text).2)
    else none

def rowsOf (ignored : String → Bool) (fs : Table Path Bytes) (directory : Path) :
    List (List Char) → Option (List (String × Path))
  | [] => some []
  | line :: lines =>
    match rowOf ignored fs directory line, rowsOf ignored fs directory lines with
    | some row, some rows => some (row :: rows)
    | _, _ => none

/-- Every line has a row, and the rows are the files that are not ignored. -/
def Lists (ignored : String → Bool) (fs : Table Path Bytes) (directory : Path)
    (lines : List (List Char)) (rows : List (String × Path)) : Prop :=
  rowsOf ignored fs directory lines = some rows ∧
    ∀ p, p ∈ rows.map (·.2) ↔ p ∈ filesIn fs directory ∧ ignored p.name = false

/-- The header of the text is well formed and holds `hash`; `lines` follow. -/
def HasHeader (t : HashTools) (b : Bytes) (hash : String) (lines : List (List Char)) : Prop :=
  ∃ text header, t.decode b = some text ∧ splitLines text = header :: lines ∧
    directoryHashHeader (stripBy isPySpace header) = some hash

/-- The entry of a row. -/
def entryOf (libraryRoot : Path) (row : String × Path) : ImportedHashEntry :=
  ⟨"/".intercalate (row.2.drop libraryRoot.length), row.1⟩

/-- The rows the sync import accepts. -/
def syncAccepts (t : HashTools) (fs : Table Path Bytes) (libraryRoot directory : Path)
    (b : Bytes) : Option (List ImportedHashEntry) :=
  match parseHashCacheFile t fs libraryRoot directory b with
  | .ok (entries, _) => entries
  | .error _ => none

/-- The rows the hash import accepts. -/
def hashAccepts (t : HashTools) (fs : Table Path Bytes) (directory : Path) (b : Bytes)
    (expected : String) : Option (List (String × Path)) :=
  (parseHashesV1Cache t fs directory ".hashes.sha1" b expected).toOption

/-! ## Rows -/

theorem rowPath_prefix {p : Path} (hroot : libraryRoot <+: directory)
    (hp : p.dropLast = directory) : libraryRoot <+: p :=
  hroot.trans (hp ▸ List.dropLast_prefix p)

theorem parseHashCacheRows_eq (hroot : libraryRoot <+: directory) (lines : List (List Char)) :
    parseHashCacheRows fs libraryRoot directory lines =
      .ok ((rowsOf isIgnoredFile fs directory lines).map fun rows =>
        rows.map fun row => (entryOf libraryRoot row, row.2)) := by
  induction lines with
  | nil => rfl
  | cons line lines ih =>
    rw [parseHashCacheRows, rowsOf, rowOf]
    cases hrow : sha1Row line with
    | none => rfl
    | some row =>
      obtain ⟨sha1, text⟩ := row
      generalize hpath : pyPath text = path
      obtain ⟨anchor, file⟩ := path
      simp only [hpath]
      by_cases habs : anchor = "/"
      · subst habs
        by_cases hparent : file.dropLast = directory
        · have hpre := rowPath_prefix hroot hparent
          cases hname : isIgnoredFile (Path.name file) <;> cases hfile : fs.get file <;>
            cases hrest : rowsOf isIgnoredFile fs directory lines <;>
            simp [hparent, ih, hrest, sourceRelpath, hpre, entryOf, bind, Except.bind, pure,
              Except.pure]
        · simp [hparent]
      · by_cases hempty : anchor = "" <;> simp [habs, hempty]

theorem parseHashesV1Rows_eq (source : String) (lineNumber : Nat) (lines : List (List Char)) :
    (parseHashesV1Rows t fs source directory lineNumber lines).toOption =
      rowsOf isIgnoredName fs directory lines := by
  induction lines generalizing lineNumber with
  | nil => rfl
  | cons line lines ih =>
    rw [parseHashesV1Rows, rowsOf, rowOf]
    cases hrow : sha1Row line with
    | none => rfl
    | some row =>
      obtain ⟨sha1, text⟩ := row
      generalize hpath : pyPath text = path
      obtain ⟨anchor, file⟩ := path
      simp only [validateCacheRowPath, hpath]
      rw [← ih (lineNumber + 1)]
      by_cases habs : anchor = "/"
      · subst habs
        by_cases hparent : file.dropLast = directory
        · cases hname : isIgnoredName (Path.name file) <;> cases hfile : fs.get file <;>
            cases hraises : t.statRaises file <;>
            cases hrest : parseHashesV1Rows t fs source directory (lineNumber + 1) lines <;>
            simp [hparent, bind, Except.bind, pure, Except.pure, Except.toOption]
        · simp [hparent, bind, Except.bind, Except.toOption]
      · by_cases hempty : anchor = "" <;>
          simp [habs, hempty, bind, Except.bind, Except.toOption]

/-! ## Acceptance -/

theorem mem_importable (ignored : String → Bool) (p : Path) :
    p ∈ ((filesIn fs directory).filter fun p => !ignored p.name).insertionSort
        (fun p q => decide (p.name ≤ q.name)) ↔
      p ∈ filesIn fs directory ∧ ignored p.name = false := by
  rw [List.mem_insertionSort, List.mem_filter, Bool.not_eq_true']

/-- The comparison of the two sets of files. -/
theorem sameFiles_iff (actual seen : List Path) :
    (actual.all seen.contains && seen.all actual.contains) = true ↔
      ∀ p, p ∈ seen ↔ p ∈ actual := by
  simp only [Bool.and_eq_true, List.all_eq_true, List.contains_iff_mem]
  constructor
  · rintro ⟨hactual, hseen⟩ p
    exact ⟨hseen p, hactual p⟩
  · intro h
    exact ⟨fun p => (h p).mpr, fun p => (h p).mp⟩

theorem HasHeader.unique {hash hash' : String} {lines lines' : List (List Char)}
    (h : HasHeader t b hash lines) (h' : HasHeader t b hash' lines') :
    hash' = hash ∧ lines' = lines := by
  obtain ⟨text, header, hdecode, hlines, hhash⟩ := h
  obtain ⟨text', header', hdecode', hlines', hhash'⟩ := h'
  rw [hdecode, Option.some.injEq] at hdecode'
  subst hdecode'
  rw [hlines, List.cons.injEq] at hlines'
  obtain ⟨rfl, rfl⟩ := hlines'
  rw [hhash, Option.some.injEq] at hhash'
  exact ⟨hhash'.symm, rfl⟩

/-- Rows that name exactly the files that are not ignored. -/
def listedRows (ignored : String → Bool) (fs : Table Path Bytes) (directory : Path)
    (lines : List (List Char)) : Option (List (String × Path)) :=
  match rowsOf ignored fs directory lines with
  | none => none
  | some rows =>
    let actual := ((filesIn fs directory).filter fun p => !ignored p.name).insertionSort
      fun p q => decide (p.name ≤ q.name)
    let seen := rows.map (·.2)
    if actual.all seen.contains && seen.all actual.contains then some rows else none

theorem listedRows_eq_some {ignored : String → Bool} {lines : List (List Char)}
    {rows : List (String × Path)} :
    listedRows ignored fs directory lines = some rows ↔ Lists ignored fs directory lines rows := by
  unfold listedRows Lists
  cases rowsOf ignored fs directory lines with
  | none => simp
  | some rows' =>
    have hsame := sameFiles_iff (((filesIn fs directory).filter fun p =>
      !ignored p.name).insertionSort fun p q => decide (p.name ≤ q.name)) (rows'.map (·.2))
    simp only [mem_importable] at hsame
    simp only [Option.ite_none_right_eq_some, Option.some.injEq, hsame]
    constructor
    · rintro ⟨hfiles, rfl⟩
      exact ⟨rfl, hfiles⟩
    · rintro ⟨rfl, hfiles⟩
      exact ⟨hfiles, rfl⟩

theorem syncAccepts_of_header (hroot : libraryRoot <+: directory) {hash : String}
    {lines : List (List Char)} (h : HasHeader t b hash lines) :
    syncAccepts t fs libraryRoot directory b =
      (listedRows isIgnoredFile fs directory lines).map fun rows =>
        rows.map (entryOf libraryRoot) := by
  obtain ⟨text, header, hdecode, hlines, hhash⟩ := h
  simp only [syncAccepts, parseHashCacheFile, hdecode, hlines, hhash, parseHashCacheRows_eq hroot,
    listedRows, iterImportableFiles, bind, Except.bind, pure, Except.pure]
  cases rowsOf isIgnoredFile fs directory lines with
  | none => rfl
  | some rows =>
    simp only [Option.map_some, List.map_map]
    have hseen : rows.map ((·.2) ∘ fun row => (entryOf libraryRoot row, row.2)) =
        rows.map (·.2) := rfl
    rw [hseen]
    generalize (_ && _ : Bool) = same
    cases same <;> rfl

theorem hashAccepts_of_header {hash expected : String} {lines : List (List Char)}
    (h : HasHeader t b hash lines) :
    hashAccepts t fs directory b expected =
      if hash = expected then listedRows isIgnoredName fs directory lines else none := by
  obtain ⟨text, header, hdecode, hlines, hhash⟩ := h
  have hrows : (parseHashesV1Rows t fs (Path.str (directory ++ [".hashes.sha1"])) directory 2
      lines).toOption = rowsOf isIgnoredName fs directory lines := parseHashesV1Rows_eq _ 2 lines
  simp only [hashAccepts, parseHashesV1Cache, HashImport.readText, hdecode, hlines, hhash, listedRows,
    bind, Except.bind, ← hrows]
  by_cases hstale : hash = expected
  · simp only [hstale, ne_eq, not_true_eq_false, if_false, if_true]
    cases parseHashesV1Rows t fs (Path.str (directory ++ [".hashes.sha1"])) directory 2 lines with
    | error e => rfl
    | ok rows =>
      simp only [validateRequiredRows, HashImport.iterImportableFiles, Except.toOption]
      split_ifs with hsame
      · simp only [hsame, if_true]; rfl
      · simp only [hsame]; rfl
  · simp [hstale, Except.toOption]

/-- Without a well-formed header neither reader accepts anything. -/
theorem accepts_of_no_header {expected : String} (h : ∀ hash lines, ¬ HasHeader t b hash lines) :
    syncAccepts t fs libraryRoot directory b = none ∧
      hashAccepts t fs directory b expected = none := by
  unfold syncAccepts hashAccepts parseHashCacheFile parseHashesV1Cache HashImport.readText
  cases hdecode : t.decode b with
  | none => exact ⟨rfl, rfl⟩
  | some text =>
    cases hlines : splitLines text with
    | nil => simp [hlines, bind, Except.bind, Except.toOption]
    | cons header lines =>
      cases hhash : directoryHashHeader (stripBy isPySpace header) with
      | none => simp [hlines, hhash, bind, Except.bind, Except.toOption]
      | some hash => exact absurd ⟨text, header, hdecode, hlines, hhash⟩ (h hash lines)

/-! ## Agreement -/

/-- One reader accepts if and only if the other does, and the same rows. -/
def ReadersAgree (t : HashTools) (fs : Table Path Bytes) (libraryRoot directory : Path)
    (b : Bytes) (expected : String) : Prop :=
  syncAccepts t fs libraryRoot directory b =
    (hashAccepts t fs directory b expected).map fun rows => rows.map (entryOf libraryRoot)

/-- The directory holds a cache file that only the hash import ignores. -/
def HasOtherCache (fs : Table Path Bytes) (directory : Path) : Prop :=
  ∃ p ∈ filesIn fs directory, p.name = ".hashes.v2" ∨ p.name = ".hashes.v1"

theorem isIgnoredName_iff (name : String) : isIgnoredName name = true ↔
    isIgnoredFile name = true ∨ name = ".hashes.v2" ∨ name = ".hashes.v1" := by
  simp only [isIgnoredName, isIgnoredFile, hashfileV1Names, hashfileV2Name, ignoredFilenames,
    Bool.or_eq_true, beq_iff_eq, List.contains_iff_mem, List.mem_cons, List.not_mem_nil, or_false]
  tauto

/-- A file name that one reader ignores and the other does not. -/
theorem differs_of_otherCache {p : Path} (h : p.name = ".hashes.v2" ∨ p.name = ".hashes.v1") :
    isIgnoredFile p.name = false ∧ isIgnoredName p.name = true := by
  refine ⟨?_, (isIgnoredName_iff _).mpr (.inr h)⟩
  rcases h with h | h <;> rw [h] <;> decide

/-- Without another cache file, a line is a row for both readers or for none. -/
theorem rowOf_congr (hother : ¬ HasOtherCache fs directory) (line : List Char) :
    rowOf isIgnoredFile fs directory line = rowOf isIgnoredName fs directory line := by
  unfold rowOf
  cases hrow : sha1Row line with
  | none => rfl
  | some row =>
    obtain ⟨sha1, text⟩ := row
    have hiff : ((pyPath text).1 = "/" ∧ (pyPath text).2.dropLast = directory ∧
        isIgnoredFile (Path.name (pyPath text).2) = false ∧ (fs.get (pyPath text).2).isSome) ↔
        ((pyPath text).1 = "/" ∧ (pyPath text).2.dropLast = directory ∧
        isIgnoredName (Path.name (pyPath text).2) = false ∧ (fs.get (pyPath text).2).isSome) := by
      refine and_congr_right fun _ => and_congr_right fun hparent => and_congr_left fun hfile => ?_
      rw [← Bool.not_eq_true, ← Bool.not_eq_true, not_iff_not, isIgnoredName_iff]
      refine ⟨.inl, fun h => h.resolve_right fun hname => hother ⟨(pyPath text).2, ?_, hname⟩⟩
      have hne : (pyPath text).2 ≠ [] := by
        intro hnil
        rw [hnil] at hname
        revert hname
        decide
      obtain ⟨v, hv⟩ := Option.isSome_iff_exists.mp hfile
      refine List.mem_filter.mpr ⟨(Table.mem_keys_iff fs _).mpr ⟨v, hv⟩, ?_⟩
      simpa using ⟨hne, hparent⟩
    simp only [hiff]

theorem lists_congr (hother : ¬ HasOtherCache fs directory) (lines : List (List Char)) :
    listedRows isIgnoredFile fs directory lines = listedRows isIgnoredName fs directory lines := by
  have hrows : rowsOf isIgnoredFile fs directory lines =
      rowsOf isIgnoredName fs directory lines := by
    induction lines with
    | nil => rfl
    | cons line lines ih => rw [rowsOf, rowsOf, rowOf_congr hother, ih]
  have hfiles : ((filesIn fs directory).filter fun p => !isIgnoredFile p.name) =
      (filesIn fs directory).filter fun p => !isIgnoredName p.name := by
    refine List.filter_congr fun p hp => congrArg (!·) ?_
    rw [Bool.eq_iff_iff, isIgnoredName_iff]
    exact ⟨.inl, fun h => h.resolve_right fun hname => hother ⟨p, hp, hname⟩⟩
  rw [listedRows, listedRows, hrows, hfiles]

theorem rowsOf_congr {lines : List (List Char)} {rows rows' : List (String × Path)}
    (h : rowsOf isIgnoredFile fs directory lines = some rows)
    (h' : rowsOf isIgnoredName fs directory lines = some rows') : rows = rows' := by
  induction lines generalizing rows rows' with
  | nil =>
    rw [rowsOf, Option.some.injEq] at h h'
    rw [← h, ← h']
  | cons line lines ih =>
    unfold rowsOf rowOf at h h'
    cases hrow : sha1Row line with
    | none => simp [hrow] at h
    | some row =>
      simp only [hrow] at h h'
      cases hrest : rowsOf isIgnoredFile fs directory lines with
      | none => simp [hrest] at h
      | some rest =>
        cases hrest' : rowsOf isIgnoredName fs directory lines with
        | none => simp [hrest'] at h'
        | some rest' =>
          rw [hrest] at h
          rw [hrest'] at h'
          split_ifs at h h'
          rw [← Option.some.inj h, ← Option.some.inj h', ih hrest hrest']

/-- With another cache file, no text is valid for both readers. -/
theorem not_both_of_otherCache (hother : HasOtherCache fs directory) {lines : List (List Char)}
    {rows rows' : List (String × Path)} (h : Lists isIgnoredFile fs directory lines rows)
    (h' : Lists isIgnoredName fs directory lines rows') : False := by
  obtain ⟨p, hp, hname⟩ := hother
  obtain ⟨hkept, hignored⟩ := differs_of_otherCache hname
  have hmem := (h.2 p).mpr ⟨hp, hkept⟩
  rw [rowsOf_congr h.1 h'.1] at hmem
  rw [((h'.2 p).mp hmem).2] at hignored
  cases hignored

theorem readersAgree_of_header (hroot : libraryRoot <+: directory) {hash expected : String}
    {lines : List (List Char)} (hh : HasHeader t b hash lines) :
    ReadersAgree t fs libraryRoot directory b expected ↔
      ((∃ rows, Lists isIgnoredFile fs directory lines rows) →
        hash = expected ∧ ¬ HasOtherCache fs directory) ∧
      ((∃ rows, Lists isIgnoredName fs directory lines rows) → hash = expected →
        ¬ HasOtherCache fs directory) := by
  rw [ReadersAgree, syncAccepts_of_header hroot hh, hashAccepts_of_header hh]
  simp only [← listedRows_eq_some]
  by_cases hstale : hash = expected
  · by_cases hother : HasOtherCache fs directory
    · -- the two bodies exclude each other, so agreement is that there is neither
      cases hsync : listedRows isIgnoredFile fs directory lines with
      | none =>
        cases hhash : listedRows isIgnoredName fs directory lines with
        | none => simp [hstale]
        | some rows => simp [hstale, hother]
      | some rows =>
        cases hhash : listedRows isIgnoredName fs directory lines with
        | none => simp [hstale, hother]
        | some rows' =>
          exact (not_both_of_otherCache hother (listedRows_eq_some.mp hsync)
            (listedRows_eq_some.mp hhash)).elim
    · simp [hstale, hother, lists_congr hother]
  · cases hsync : listedRows isIgnoredFile fs directory lines with
    | none => simp [hstale]
    | some rows => simp [hstale]

/-- The readers agree if and only if a body valid for the sync import stands
under the current directory hash and beside no other cache file, and a body valid
for the hash import under that hash beside no other cache file. -/
theorem readersAgree_iff (t : HashTools) (fs : Table Path Bytes) (libraryRoot directory : Path)
    (hroot : libraryRoot <+: directory) (b : Bytes) (expected : String) :
    ReadersAgree t fs libraryRoot directory b expected ↔
      ∀ hash lines, HasHeader t b hash lines →
        ((∃ rows, Lists isIgnoredFile fs directory lines rows) →
          hash = expected ∧ ¬ HasOtherCache fs directory) ∧
        ((∃ rows, Lists isIgnoredName fs directory lines rows) → hash = expected →
          ¬ HasOtherCache fs directory) := by
  by_cases hheader : ∃ hash lines, HasHeader t b hash lines
  · obtain ⟨hash, lines, hh⟩ := hheader
    have hall : (∀ hash lines, HasHeader t b hash lines →
        ((∃ rows, Lists isIgnoredFile fs directory lines rows) →
          hash = expected ∧ ¬ HasOtherCache fs directory) ∧
        ((∃ rows, Lists isIgnoredName fs directory lines rows) → hash = expected →
          ¬ HasOtherCache fs directory)) ↔
        ((∃ rows, Lists isIgnoredFile fs directory lines rows) →
          hash = expected ∧ ¬ HasOtherCache fs directory) ∧
        ((∃ rows, Lists isIgnoredName fs directory lines rows) → hash = expected →
          ¬ HasOtherCache fs directory) := by
      refine ⟨fun h => h hash lines hh, fun h hash' lines' hh' => ?_⟩
      obtain ⟨rfl, rfl⟩ := hh.unique hh'
      exact h
    rw [hall]
    exact readersAgree_of_header hroot hh
  · refine iff_of_true ?_ fun hash lines hh => absurd ⟨hash, lines, hh⟩ hheader
    have hno : syncAccepts t fs libraryRoot directory b = none ∧
        hashAccepts t fs directory b expected = none :=
      accepts_of_no_header fun hash lines hh => hheader ⟨hash, lines, hh⟩
    rw [ReadersAgree, hno.1, hno.2]
    rfl

end Readers

/-! A directory of one photo with a cache of one row. -/

def asciiTools : HashTools where
  sha1 _ := "86f7e437faa5a7fce15d1ddcb9eaeaea377667b8"
  decode b := if b.all (· < 128) then some (String.ofList (b.map fun n => Char.ofNat n.toNat))
    else none
  directoryHash _ := .ok "adc83b19e793491b1c6ea0fd8b46cd9f32e592fc"
  statRaises p := 255 < p.name.length
  dirExists _ := true

/-- The text of the cache, with the directory hash `hash`. -/
def cacheText (hash : String) : String :=
  "DIRECTORY_HASH " ++ hash ++
    "\n86f7e437faa5a7fce15d1ddcb9eaeaea377667b8  /library/IMG.JPG\n"

def cacheBytes (hash : String) : Bytes :=
  (cacheText hash).toList.map fun c => UInt8.ofNat c.toNat

def cachedLibrary (hash : String) : Table Path Bytes :=
  (Table.put ∅ ["library", "IMG.JPG"] [97]).put ["library", ".hashes.sha1"] (cacheBytes hash)

def currentHash : String := "adc83b19e793491b1c6ea0fd8b46cd9f32e592fc"

def staleHash : String := "da39a3ee5e6b4b0d3255bfef95601890afd80709"

/-- Under the current hash both readers take the row. -/
theorem readers_agree_current : ["library"] <+: ["library"] ∧
    ReadersAgree asciiTools (cachedLibrary currentHash) ["library"] ["library"]
      (cacheBytes currentHash) currentHash := by
  refine ⟨List.prefix_refl _, (readersAgree_iff _ _ _ _ (List.prefix_refl _) _ _).mpr ?_⟩
  intro hash lines hh
  have hheader : HasHeader asciiTools (cacheBytes currentHash) currentHash
      ["86f7e437faa5a7fce15d1ddcb9eaeaea377667b8  /library/IMG.JPG".toList] :=
    ⟨cacheText currentHash, ("DIRECTORY_HASH " ++ currentHash).toList, by decide +kernel,
      by decide +kernel, by decide +kernel⟩
  have hnone : ¬ HasOtherCache (cachedLibrary currentHash) ["library"] := by
    unfold HasOtherCache
    decide +kernel
  exact ⟨fun _ => ⟨(hheader.unique hh).1, hnone⟩, fun _ _ => hnone⟩

/-- Under another hash the sync import still takes the row. -/
theorem readers_disagree_stale :
    ¬ ReadersAgree asciiTools (cachedLibrary staleHash) ["library"] ["library"]
      (cacheBytes staleHash) currentHash := by
  unfold ReadersAgree
  decide +kernel

end Nightfall.SyncImport
