import Nightfall.Core.Utf8
import Nightfall.L4System.HashCaches

/-!
# Caches that stop the hash import

A cache that is not accepted is replaced by the hashes of the files, provided the parser
says so with its own exception. Two others get through: bytes that are no UTF-8 raise
`UnicodeDecodeError`, and `exists()` raises for a row whose file name is too long.

* `Stops`: an error the import does not catch, with one equation for each part of the
  parsers.
* `CacheRaises`: the consulted cache has such bytes or such a row.
* `InByteOrder`: the importable files in the order of the bytes of their names.
* `plan_built_iff`: a directory has its plan exactly when its cache does not raise.
-/
namespace Nightfall.HashImport
open Nightfall.Core Storage

variable {env : Env} {t : HashTools} {fs : Table Path Bytes} {directory : Path} {source : String}

/-! ## Errors that are not caught -/

section Stops
variable {α β : Type}

/-- An error other than `HashImportParseError`. -/
def Stops : Result α → Prop
  | .ok _ => False
  | .error (.parse _ _ _) => False
  | .error _ => True

theorem not_stops_ok (a : α) : ¬ Stops (.ok a) := id

theorem not_stops_parse (lineNumber : Nat) (message : String) :
    ¬ Stops (α := α) (.error (.parse source lineNumber message)) := id

theorem stops_bind {x : Result α} {f : α → Result β} :
    Stops (x >>= f) ↔ Stops x ∨ ∃ a, x = .ok a ∧ Stops (f a) := by
  cases x with
  | error e =>
    have hno : ¬ ∃ a, (.error e : Result α) = .ok a ∧ Stops (f a) := by simp
    rw [or_iff_left hno]
    cases e <;> rfl
  | ok a => simp [Stops, bind, Except.bind]

theorem stops_map {x : Result α} {f : α → β} : Stops (x.map f) ↔ Stops x := by
  cases x with
  | error e => cases e <;> rfl
  | ok a => rfl

theorem stops_readText {b : Bytes} : Stops (readText t b) ↔ t.decode b = none := by
  unfold readText
  cases t.decode b <;> simp [Stops]

end Stops

/-! ## Rows -/

/-- The text is the path of a file of the directory that is not ignored, there or not. -/
def NamesIn (directory : Path) (text : String) : Prop :=
  (pyPath text).1 = "/" ∧ (pyPath text).2.dropLast = directory ∧
    isIgnoredName (Path.name (pyPath text).2) = false

/-- The file is there. -/
def NamesFile (fs : Table Path Bytes) (directory : Path) (text : String) : Prop :=
  NamesIn directory text ∧ (fs.get (pyPath text).2).isSome

/-- `exists()` raises for it. -/
def PathRaises (t : HashTools) (fs : Table Path Bytes) (directory : Path) (text : String) : Prop :=
  NamesIn directory text ∧ fs.get (pyPath text).2 = none ∧ t.statRaises (pyPath text).2

/-- The rows name files up to one for which `exists()` raises. -/
def FirstRaises (t : HashTools) (fs : Table Path Bytes) (directory : Path)
    (paths : List (Option String)) : Prop :=
  ∃ before path after, paths = before ++ some path :: after ∧
    (∀ q ∈ before, ∃ path, q = some path ∧ NamesFile fs directory path) ∧
    PathRaises t fs directory path

theorem validateCacheRowPath_cases (lineNumber : Nat) (text : String) :
    (NamesFile fs directory text ∧
        validateCacheRowPath t fs source lineNumber text directory = .ok (pyPath text).2) ∨
      (PathRaises t fs directory text ∧
        validateCacheRowPath t fs source lineNumber text directory = .error .os) ∨
      (¬ NamesFile fs directory text ∧ ¬ PathRaises t fs directory text ∧
        ∃ message, validateCacheRowPath t fs source lineNumber text directory =
          .error (.parse source lineNumber message)) := by
  unfold validateCacheRowPath NamesFile PathRaises NamesIn
  dsimp only
  split_ifs with hrelative hforeign hignored hfile hraises
  · simp [hrelative]
  · rcases hforeign with hroot | hparent
    · simp [hroot]
    · simp [hparent]
  · simp [hignored]
  all_goals
    obtain ⟨hroot, hparent⟩ := not_or.mp hforeign
    simp_all

theorem firstRaises_nil : ¬ FirstRaises t fs directory [] := by
  rintro ⟨before, path, after, h, -⟩
  cases before <;> cases h

theorem firstRaises_cons {q : Option String} {paths : List (Option String)} :
    FirstRaises t fs directory (q :: paths) ↔
      ∃ path, q = some path ∧ (PathRaises t fs directory path ∨
        NamesFile fs directory path ∧ FirstRaises t fs directory paths) := by
  constructor
  · rintro ⟨before, path, after, h, hbefore, hraises⟩
    cases before with
    | nil =>
      cases h
      exact ⟨path, rfl, .inl hraises⟩
    | cons q' before =>
      cases h
      obtain ⟨path', rfl, hfile⟩ := hbefore _ List.mem_cons_self
      exact ⟨path', rfl, .inr ⟨hfile, before, path, after, rfl,
        fun q hq => hbefore q (List.mem_cons_of_mem _ hq), hraises⟩⟩
  · rintro ⟨path, rfl, hraises | ⟨hfile, before, path', after, rfl, hbefore, hraises⟩⟩
    · exact ⟨[], path, paths, rfl, by simp, hraises⟩
    · refine ⟨some path :: before, path', after, rfl, fun q hq => ?_, hraises⟩
      rcases List.mem_cons.mp hq with rfl | hq
      · exact ⟨path, rfl, hfile⟩
      · exact hbefore q hq

/-- A row is checked and the rest goes on only when it names a file. -/
theorem stops_row {β : Type} (lineNumber : Nat) (text : String) {f : Path → Result β} :
    Stops (validateCacheRowPath t fs source lineNumber text directory >>= f) ↔
      PathRaises t fs directory text ∨
        NamesFile fs directory text ∧ Stops (f (pyPath text).2) := by
  rcases @validateCacheRowPath_cases t fs directory source lineNumber text with
    ⟨hfile, h⟩ | ⟨hraises, h⟩ | ⟨hfile, hraises, _, h⟩
  · have hno : ¬ PathRaises t fs directory text := fun hraises => by
      have hget := hfile.2
      rw [hraises.2.1] at hget
      cases hget
    rw [h]
    exact ⟨fun hs => .inr ⟨hfile, hs⟩, fun hs => (hs.resolve_left hno).2⟩
  · rw [h]
    exact ⟨fun _ => .inl hraises, fun _ => trivial⟩
  · rw [h]
    exact ⟨fun hs => hs.elim, fun hs => hs.elim hraises fun hs => hfile hs.1⟩

theorem stops_directoryRows : ∀ {rows : List (String × String × String)} {lineNumber : Nat},
    Stops (directoryRows t fs source directory lineNumber rows) ↔
      FirstRaises t fs directory (rows.map fun row => some row.2.2)
  | [], _ => iff_of_false (not_stops_ok _) firstRaises_nil
  | (sha1Value, sha256Value, pathValue) :: rows, lineNumber => by
    rw [directoryRows, stops_row, List.map_cons, firstRaises_cons, stops_bind,
      stops_directoryRows]
    simp [not_stops_ok, pure, Except.pure]

theorem stops_parseHashesV1Rows : ∀ {lines : List (List Char)} {lineNumber : Nat},
    Stops (parseHashesV1Rows t fs source directory lineNumber lines) ↔
      FirstRaises t fs directory (lines.map v1RowPath)
  | [], _ => iff_of_false (not_stops_ok _) firstRaises_nil
  | line :: lines, lineNumber => by
    rw [parseHashesV1Rows, List.map_cons, firstRaises_cons]
    cases hrow : sha1Row line with
    | none => simp [v1RowPath, hrow, not_stops_parse]
    | some row =>
      dsimp only
      rw [stops_row, stops_bind, stops_parseHashesV1Rows]
      simp [v1RowPath, hrow, not_stops_ok, pure, Except.pure]

theorem not_stops_required {seen : List Path} :
    ¬ Stops (validateRequiredRows fs source seen directory) := by
  unfold validateRequiredRows
  dsimp only
  split
  · exact not_stops_ok _
  · exact not_stops_parse _ _

theorem not_stops_checked {α : Type} {seen : List Path} {rows : α} :
    ¬ Stops (validateRequiredRows fs source seen directory >>= fun _ => .ok rows) := by
  rw [stops_bind, not_or]
  exact ⟨not_stops_required, fun ⟨_, _, hs⟩ => not_stops_ok _ hs⟩

theorem not_stops_v2Row {lineNumber : Nat} {line : List Char} :
    ¬ Stops (parseHashesV2Row source lineNumber line) := by
  unfold parseHashesV2Row
  split
  · split_ifs
    · exact not_stops_parse _ _
    · exact not_stops_parse _ _
    · exact not_stops_parse _ _
    · exact not_stops_ok _
  · exact not_stops_parse _ _

theorem not_stops_v2Rows : ∀ {lines : List (List Char)} {lineNumber : Nat},
    ¬ Stops (parseHashesV2Rows source lineNumber lines)
  | [], _ => not_stops_ok _
  | line :: lines, lineNumber => by
    rw [parseHashesV2Rows, stops_bind, not_or]
    refine ⟨not_stops_v2Row, ?_⟩
    rintro ⟨row, -, hs⟩
    rcases stops_bind.mp hs with hs | ⟨rows, -, hs⟩
    · exact not_stops_v2Rows hs
    · exact not_stops_ok _ hs

theorem not_stops_v2Lines {text : String} : ¬ Stops (parseHashesV2Lines text source) := by
  unfold parseHashesV2Lines
  split
  · exact not_stops_parse _ _
  · split_ifs
    · exact not_stops_parse _ _
    · split
      · exact not_stops_parse _ _
      · split
        · exact not_stops_parse _ _
        · rw [stops_bind, not_or]
          exact ⟨not_stops_v2Rows, fun ⟨_, _, hs⟩ => not_stops_ok _ hs⟩

theorem columns_of_v2RowPath {line : List Char} (h : v2RowPath line ≠ none) :
    ∃ sha1Value sha256Value pathValue, columns line = [sha1Value, sha256Value, pathValue] ∧
      isHexOf 40 sha1Value = true ∧ isHexOf 64 sha256Value = true ∧ pathValue.isEmpty = false := by
  unfold v2RowPath at h
  split at h
  · next sha1Value sha256Value pathValue hcolumns =>
    split_ifs at h with hvalid
    · simp only [Bool.and_eq_true, Bool.not_eq_true'] at hvalid
      exact ⟨sha1Value, sha256Value, pathValue, hcolumns, hvalid.1.1, hvalid.1.2, hvalid.2⟩
    · exact absurd rfl h
  · exact absurd rfl h

/-- A row that names a path is accepted. -/
theorem exists_v2Row {line : List Char} {lineNumber : Nat} (h : v2RowPath line ≠ none) :
    ∃ row, parseHashesV2Row source lineNumber line = .ok row := by
  obtain ⟨_, _, _, hcolumns, hsha1, hsha256, hpath⟩ := columns_of_v2RowPath h
  unfold parseHashesV2Row
  rw [hcolumns]
  simp [hsha1, hsha256, hpath]

/-- Rows are accepted when each of them names a path. -/
theorem exists_v2Rows : ∀ {lines : List (List Char)} (lineNumber : Nat),
    none ∉ lines.map v2RowPath →
      ∃ rows, parseHashesV2Rows source lineNumber lines = .ok rows
  | [], _, _ => ⟨[], rfl⟩
  | line :: lines, lineNumber, h => by
    rw [List.map_cons, List.mem_cons, not_or] at h
    obtain ⟨rows, hrows⟩ := exists_v2Rows (lineNumber + 1) h.2
    obtain ⟨row, hrow⟩ := @exists_v2Row source line lineNumber fun hnone => h.1 hnone.symm
    refine ⟨row :: rows, ?_⟩
    rw [parseHashesV2Rows, hrow]
    dsimp only [bind, Except.bind]
    rw [hrows]
    rfl

/-! ## Caches -/

/-- A `.hashes.v2` with these bytes raises. -/
def V2Raises (t : HashTools) (fs : Table Path Bytes) (directory : Path) (b : Bytes)
    (expected : String) : Prop :=
  t.decode b = none ∨ ∃ text header lines, t.decode b = some text ∧
    splitLines text = "CACHE_SCHEMA v2".toList :: header :: lines ∧
    directoryHashHeader header = some expected ∧ none ∉ lines.map v2RowPath ∧
    FirstRaises t fs directory (lines.map v2RowPath)

/-- A legacy cache with these bytes raises. -/
def V1Raises (t : HashTools) (fs : Table Path Bytes) (directory : Path) (b : Bytes)
    (expected : String) : Prop :=
  t.decode b = none ∨ ∃ text header lines, t.decode b = some text ∧
    splitLines text = header :: lines ∧
    directoryHashHeader (stripBy isPySpace header) = some expected ∧
    FirstRaises t fs directory (lines.map v1RowPath)

theorem stops_parseHashesV2Cache {b : Bytes} {expected : String} :
    Stops (parseHashesV2Cache t fs directory b expected) ↔ V2Raises t fs directory b expected := by
  unfold parseHashesV2Cache V2Raises
  dsimp only
  rw [stops_bind, stops_readText]
  refine or_congr Iff.rfl ?_
  constructor
  · rintro ⟨text, htext, hs⟩
    obtain ⟨⟨hash, parsed⟩, hparsed, hrest⟩ := (stops_bind.mp hs).resolve_left not_stops_v2Lines
    obtain ⟨header, lines, hlines, hheader, hrows⟩ := parseHashesV2Lines_eq_ok.mp hparsed
    dsimp only at hrest
    split_ifs at hrest with hstale
    · exact (not_stops_parse _ _ hrest).elim
    obtain rfl : hash = expected := not_not.mp hstale
    have hraises := (stops_bind.mp hrest).resolve_right fun ⟨_, _, hs⟩ => not_stops_checked hs
    refine ⟨text, header, lines, readText_ok.mp htext, hlines, hheader, ?_, ?_⟩
    · rw [parseHashesV2Rows_ok hrows]
      simp
    · rw [parseHashesV2Rows_ok hrows]
      exact stops_directoryRows.mp hraises
  · rintro ⟨text, header, lines, hdecode, hlines, hheader, hpaths, hraises⟩
    obtain ⟨rows, hrows⟩ :=
      @exists_v2Rows (Path.str (directory ++ [hashfileV2Name])) lines 3 hpaths
    refine ⟨text, readText_ok.mpr hdecode, stops_bind.mpr (.inr ⟨(expected, rows),
      parseHashesV2Lines_eq_ok.mpr ⟨header, lines, hlines, hheader, hrows⟩, ?_⟩)⟩
    rw [if_neg (not_not.mpr rfl), stops_bind]
    rw [parseHashesV2Rows_ok hrows] at hraises
    exact .inl (stops_directoryRows.mpr hraises)

theorem stops_parseHashesV1Cache {name : String} {b : Bytes} {expected : String} :
    Stops (parseHashesV1Cache t fs directory name b expected) ↔
      V1Raises t fs directory b expected := by
  unfold parseHashesV1Cache V1Raises
  dsimp only
  rw [stops_bind, stops_readText]
  refine or_congr Iff.rfl ?_
  constructor
  · rintro ⟨text, htext, hs⟩
    cases hlines : splitLines text with
    | nil => rw [hlines] at hs; exact (not_stops_parse _ _ hs).elim
    | cons header lines =>
      rw [hlines] at hs
      dsimp only at hs
      cases hheader : directoryHashHeader (stripBy isPySpace header) with
      | none => rw [hheader] at hs; exact (not_stops_parse _ _ hs).elim
      | some hash =>
        rw [hheader] at hs
        dsimp only at hs
        split_ifs at hs with hstale
        · exact (not_stops_parse _ _ hs).elim
        cases not_not.mp hstale
        have hraises := (stops_bind.mp hs).resolve_right fun ⟨_, _, hs⟩ => not_stops_checked hs
        exact ⟨text, header, lines, readText_ok.mp htext, hlines, hheader,
          stops_parseHashesV1Rows.mp hraises⟩
  · rintro ⟨text, header, lines, hdecode, hlines, hheader, hraises⟩
    refine ⟨text, readText_ok.mpr hdecode, ?_⟩
    rw [hlines]
    dsimp only
    rw [hheader]
    dsimp only
    rw [if_neg (not_not.mpr rfl), stops_bind]
    exact .inl (stops_parseHashesV1Rows.mpr hraises)

/-- The cache file that is consulted raises. -/
def CacheRaises (t : HashTools) (fs : Table Path Bytes) (directory : Path) (expected : String) :
    Prop :=
  match fs.get (directory ++ [hashfileV2Name]) with
  | some b => V2Raises t fs directory b expected
  | none =>
    match findV1Cache fs directory with
    | some (_, b) => V1Raises t fs directory b expected
    | none => False

/-- The cache file that is consulted is accepted. -/
def CacheAccepted (t : HashTools) (fs : Table Path Bytes) (directory : Path)
    (expected : String) : Prop :=
  match fs.get (directory ++ [hashfileV2Name]) with
  | some b => ∃ rows, parseHashesV2Cache t fs directory b expected = .ok rows
  | none =>
    match findV1Cache fs directory with
    | some (name, b) => ∃ rows, parseHashesV1Cache t fs directory name b expected = .ok rows
    | none => False

/-! ## The plan -/

theorem planFrom_eq {kind : PlanSource} {rows : Result (List String)} (h : ¬ Stops rows) :
    (∃ values, rows = .ok values ∧
        planFrom env t fs directory kind rows = .ok ⟨directory, kind, values, false⟩) ∨
      (∀ values, rows ≠ .ok values) ∧
        planFrom env t fs directory kind rows = .ok ⟨directory, .recompute,
          (rehashDirectoryRows env t fs directory).map (·.sha256), true⟩ := by
  cases rows with
  | ok values => exact .inl ⟨values, rfl, rfl⟩
  | error e =>
    cases e with
    | parse source lineNumber message => exact .inr ⟨by simp, rfl⟩
    | hashImport message => exact absurd trivial h
    | unicodeDecode => exact absurd trivial h
    | os => exact absurd trivial h

theorem planFrom_stops {kind : PlanSource} {rows : Result (List String)} (h : Stops rows)
    (plan : HashImportDirectoryPlan) : planFrom env t fs directory kind rows ≠ .ok plan := by
  cases rows with
  | ok values => exact h.elim
  | error e => cases e <;> first | exact h.elim | simp [planFrom]

/-- The importable files of a directory in the order of the bytes of their names. -/
structure InByteOrder (fs : Table Path Bytes) (directory : Path) (files : List Path) : Prop where
  mem : ∀ p, p ∈ files ↔ ((fs.get p).isSome ∧ p ≠ [] ∧ p.dropLast = directory) ∧
    isIgnoredName p.name = false
  sorted : files.Pairwise fun p q => utf8 p.name < utf8 q.name

theorem eq_of_name_eq {p q : Path} (hp : p ≠ []) (hq : q ≠ []) (hdir : p.dropLast = q.dropLast)
    (hname : p.name = q.name) : p = q := by
  simp only [Path.name, List.getLast?_eq_some_getLast hp, List.getLast?_eq_some_getLast hq,
    Option.getD_some] at hname
  rw [← List.dropLast_append_getLast hp, ← List.dropLast_append_getLast hq, hdir, hname]

theorem mem_iterImportableFiles {p : Path} : p ∈ iterImportableFiles fs directory ↔
    ((fs.get p).isSome ∧ p ≠ [] ∧ p.dropLast = directory) ∧ isIgnoredName p.name = false := by
  simp only [iterImportableFiles, filesIn, List.mem_insertionSort, List.mem_filter,
    Table.mem_keys_iff, Option.isSome_iff_exists, Bool.not_eq_true', decide_eq_true_eq]

theorem inByteOrder_iterImportableFiles (fs : Table Path Bytes) (directory : Path) :
    InByteOrder fs directory (iterImportableFiles fs directory) := by
  refine ⟨fun p => mem_iterImportableFiles, ?_⟩
  have hsorted : (iterImportableFiles fs directory).Pairwise fun p q => p.name ≤ q.name :=
    ((List.pairwise_insertionSort (fun p q : Path => decide (p.name ≤ q.name)) _).imp
      fun h => of_decide_eq_true h)
  refine ((hsorted.and (nodup_iterImportableFiles fs directory)).imp_of_mem ?_)
  rintro p q hp hq ⟨hle, hne⟩
  obtain ⟨⟨_, hp, hpdir⟩, _⟩ := mem_iterImportableFiles.mp hp
  obtain ⟨⟨_, hq, hqdir⟩, _⟩ := mem_iterImportableFiles.mp hq
  refine utf8_lt (lt_of_le_of_ne hle fun hname => hne ?_)
  exact eq_of_name_eq hp hq (hpdir.trans hqdir.symm) hname

/-- The directory has a plan, and when no cache is accepted it has the hashes of
the importable files in byte order. -/
def HasPlan (env : Env) (t : HashTools) (fs : Table Path Bytes) (directory : Path)
    (expected : String) : Prop :=
  ∃ plan, buildHashImportDirectoryPlan env t fs directory = .ok plan ∧
    (¬ CacheAccepted t fs directory expected → ∃ files, InByteOrder fs directory files ∧
      plan.sha256Values = files.map fun p => env.sha256 ((fs.get p).getD []))

theorem recomputed_eq : (rehashDirectoryRows env t fs directory).map (·.sha256) =
    (iterImportableFiles fs directory).map fun p => env.sha256 ((fs.get p).getD []) := by
  rw [rehashDirectoryRows, List.map_map]
  rfl

theorem exists_map_ok {α β : Type} {x : Result α} {f : α → β} :
    (∃ b, x.map f = .ok b) ↔ ∃ a, x = .ok a := by
  cases x with
  | error e => simp [Except.map]
  | ok a => simp [Except.map]

/-- A consulted cache gives a plan unless its parser stops. -/
theorem hasPlan_of_planFrom {kind : PlanSource} {rows : Result (List String)} {expected : String}
    (hbuild : buildHashImportDirectoryPlan env t fs directory =
      planFrom env t fs directory kind rows)
    (haccepted : CacheAccepted t fs directory expected ↔ ∃ values, rows = .ok values) :
    HasPlan env t fs directory expected ↔ ¬ Stops rows := by
  constructor
  · rintro ⟨plan, hplan, _⟩ hs
    exact planFrom_stops hs plan (hbuild.symm.trans hplan)
  · intro hs
    rcases @planFrom_eq env t fs directory kind rows hs with
      ⟨values, hvalues, hplan⟩ | ⟨hvalues, hplan⟩
    · exact ⟨_, hbuild.trans hplan, fun hno => absurd (haccepted.mpr ⟨values, hvalues⟩) hno⟩
    · exact ⟨_, hbuild.trans hplan, fun _ =>
        ⟨_, inByteOrder_iterImportableFiles fs directory, recomputed_eq⟩⟩

/-! A consulted `.hashes.v2`, a consulted legacy cache, and no cache. -/

section Consulted
variable {expected : String} (h : t.directoryHash directory = .ok expected)
include h

theorem build_v2 {b : Bytes} (hv2 : fs.get (directory ++ [hashfileV2Name]) = some b) :
    buildHashImportDirectoryPlan env t fs directory = planFrom env t fs directory .cacheV2
      ((parseHashesV2Cache t fs directory b expected).map fun rows => rows.map (·.sha256)) := by
  unfold buildHashImportDirectoryPlan
  rw [h]
  dsimp only
  rw [hv2]

theorem build_v1 {name : String} {b : Bytes} (hv2 : fs.get (directory ++ [hashfileV2Name]) = none)
    (hv1 : findV1Cache fs directory = some (name, b)) :
    buildHashImportDirectoryPlan env t fs directory = planFrom env t fs directory .backfillV1
      ((parseHashesV1Cache t fs directory name b expected).map fun rows =>
        rows.map fun row => sha256Of env fs row.2) := by
  unfold buildHashImportDirectoryPlan
  rw [h]
  dsimp only
  rw [hv2]
  dsimp only
  rw [hv1]

theorem build_recompute (hv2 : fs.get (directory ++ [hashfileV2Name]) = none)
    (hv1 : findV1Cache fs directory = none) :
    buildHashImportDirectoryPlan env t fs directory = .ok ⟨directory, .recompute,
      (rehashDirectoryRows env t fs directory).map (·.sha256), false⟩ := by
  unfold buildHashImportDirectoryPlan
  rw [h]
  dsimp only
  rw [hv2]
  dsimp only
  rw [hv1]

end Consulted

/-- For every directory whose hash can be taken and every content of its cache files: it has
its plan exactly when the consulted cache does not raise. -/
theorem plan_built_iff (env : Env) (t : HashTools) (fs : Table Path Bytes) (directory : Path)
    {expected : String} (h : t.directoryHash directory = .ok expected) :
    HasPlan env t fs directory expected ↔ ¬ CacheRaises t fs directory expected := by
  unfold CacheRaises
  cases hv2 : fs.get (directory ++ [hashfileV2Name]) with
  | some b =>
    have haccepted : CacheAccepted t fs directory expected ↔
        ∃ rows, parseHashesV2Cache t fs directory b expected = .ok rows := by
      rw [CacheAccepted, hv2]
    rw [hasPlan_of_planFrom (build_v2 h hv2) (haccepted.trans exists_map_ok.symm), stops_map,
      stops_parseHashesV2Cache]
  | none =>
    cases hv1 : findV1Cache fs directory with
    | some cache =>
      have haccepted : CacheAccepted t fs directory expected ↔
          ∃ rows, parseHashesV1Cache t fs directory cache.1 cache.2 expected = .ok rows := by
        rw [CacheAccepted, hv2]
        dsimp only
        rw [hv1]
      rw [hasPlan_of_planFrom (build_v1 h hv2 hv1) (haccepted.trans exists_map_ok.symm), stops_map,
        stops_parseHashesV1Cache]
    | none =>
      exact iff_of_true ⟨_, build_recompute h hv2 hv1, fun _ =>
        ⟨_, inByteOrder_iterImportableFiles fs directory, recomputed_eq⟩⟩ id

/-! One photo beside a `.hashes.v2` with other contents. -/

open SyncImport (asciiTools)

def besideCache (b : Bytes) : Table Path Bytes := photoLibrary.put ["library", ".hashes.v2"] b

/-- A text without the header is replaced by the hash of the photo. -/
theorem garbage_replaced :
    asciiTools.directoryHash ["library"] = .ok "adc83b19e793491b1c6ea0fd8b46cd9f32e592fc" ∧
      HasPlan sampleEnv asciiTools (besideCache [120]) ["library"]
        "adc83b19e793491b1c6ea0fd8b46cd9f32e592fc" := by
  refine ⟨rfl, (plan_built_iff sampleEnv asciiTools (besideCache [120]) ["library"] rfl).mpr ?_⟩
  have hv2 : (besideCache [120]).get (["library"] ++ [hashfileV2Name]) = some [120] := by
    decide +kernel
  rw [CacheRaises, hv2]
  rintro (hdecode | ⟨text, header, lines, hdecode, hlines, _⟩)
  · exact absurd hdecode (by decide +kernel)
  · have htext : text = "x" := (Option.some.inj hdecode).symm
    have hsplit : splitLines "x" = [['x']] := by decide +kernel
    rw [htext, hsplit] at hlines
    cases (List.cons.inj hlines).2

/-- Bytes that are no text stop the import. -/
theorem undecodable_stops :
    ¬ (asciiTools.directoryHash ["library"] = .ok "adc83b19e793491b1c6ea0fd8b46cd9f32e592fc" →
      HasPlan sampleEnv asciiTools (besideCache [255]) ["library"]
        "adc83b19e793491b1c6ea0fd8b46cd9f32e592fc") := by
  intro hall
  obtain ⟨plan, hplan, _⟩ := hall rfl
  have herror : buildHashImportDirectoryPlan sampleEnv asciiTools (besideCache [255]) ["library"] =
      .error .unicodeDecode := by decide +kernel
  rw [herror] at hplan
  cases hplan

end Nightfall.HashImport
