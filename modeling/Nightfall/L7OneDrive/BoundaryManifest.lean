import Nightfall.Core.Utf8
import Nightfall.L2Registry.JournalText
import Nightfall.L3Flows.HashImport
import Nightfall.L1Storage.PosixPath
import Nightfall.L4System.StoragePaths
import Nightfall.L7OneDrive.Cursor
import Nightfall.L7OneDrive.StagingNames

/-!
# The boundary manifest (`adapters/onedrive/client.py`)

The manifest of an account is a file in its staging directory with one row a line, written
while the candidates of a page are downloaded; the same rows go to the page processor.
`diskHandle` is the machine of `Client` with that file kept among the staged ones.

How a line is decoded is a parameter (`JsonLib`), as for the journal.

* `load_manifest`: what is loaded from the lines of some rows are these rows.
* `copied_deltaPages`: with a page processor, the file and what was handed over grow by the
  same rows.
* `manifest_copies_handoff`: with a page processor, a poll that returns leaves a file from which
  exactly the rows handed over in it are loaded.
* `not_copiesHandoff`: without one the rows are in the file and nowhere else.
-/
namespace Nightfall.OneDrive
open Nightfall.Core Storage Prog

/-! ## Writing a row -/

/-- `json.dumps` of a size. -/
def sizeText : Option Int → List Char
  | none => "null".toList
  | some n => (toString n).toList

namespace DownloadedHandoffCandidate

/-- The payload of the entry, its keys sorted, with the text of each value.
mirrors src/nightfall_photo_ingress/adapters/onedrive/client.py:1318-1326 -/
def fields (row : DownloadedHandoffCandidate) : List (String × List Char) :=
  [("account_name", jsonString row.accountName), ("modified_time", jsonString row.modifiedTime),
    ("onedrive_id", jsonString row.onedriveId),
    ("original_filename", jsonString row.originalFilename),
    ("relative_path", jsonString row.relativePath), ("size_bytes", sizeText row.sizeBytes),
    ("staging_path", jsonString row.stagingPath.str)]

/-- `json.dumps(payload, sort_keys=True)`. -/
def dumps (row : DownloadedHandoffCandidate) : List Char :=
  '{' :: ", ".toList.intercalate (row.fields.map fun f => jsonString f.1 ++ ": ".toList ++ f.2) ++
    ['}']

/-- The object it is read back as. -/
def payload (row : DownloadedHandoffCandidate) : Payload :=
  [("account_name", .str row.accountName), ("modified_time", .str row.modifiedTime),
    ("onedrive_id", .str row.onedriveId), ("original_filename", .str row.originalFilename),
    ("relative_path", .str row.relativePath),
    ("size_bytes", row.sizeBytes.elim .null fun n => .num (toString n)),
    ("staging_path", .str row.stagingPath.str)]

def line (row : DownloadedHandoffCandidate) : List Char := row.dumps ++ ['\n']

end DownloadedHandoffCandidate

/-- The bytes appended for some rows. -/
def manifestBytes (rows : List DownloadedHandoffCandidate) : Bytes :=
  utf8 (String.ofList (rows.flatMap (·.line)))

/-! ## Loading -/

/-- A row as it is loaded: the size is the decoded value, the path what `Path` makes of its
text. -/
structure LoadedHandoffCandidate where
  accountName : String
  onedriveId : String
  originalFilename : String
  relativePath : String
  modifiedTime : String
  sizeBytes : Json
  stagingPath : String × Path

/-- mirrors src/nightfall_photo_ingress/adapters/onedrive/client.py:1346-1355 -/
def loadedOf (lib : JsonLib) (payload : Payload) : LoadedHandoffCandidate where
  accountName := lib.field payload "account_name"
  onedriveId := lib.field payload "onedrive_id"
  originalFilename := lib.field payload "original_filename"
  relativePath := lib.field payload "relative_path"
  modifiedTime := lib.field payload "modified_time"
  sizeBytes := payload.get "size_bytes"
  stagingPath := HashImport.pyPath (lib.field payload "staging_path")

/-- One line; a text that is no object raises. -/
def loadLine (lib : JsonLib) (raw : List Char) : Except Unit (List LoadedHandoffCandidate) :=
  if stripBy isPySpace raw = [] then .ok []
  else
    match lib.loads raw with
    | some (.obj payload) => .ok [loadedOf lib payload]
    | _ => .error ()

def loadLines (lib : JsonLib) : List (List Char) → Except Unit (List LoadedHandoffCandidate)
  | [] => .ok []
  | raw :: lines => do return (← loadLine lib raw) ++ (← loadLines lib lines)

/-- mirrors src/nightfall_photo_ingress/adapters/onedrive/client.py:1333-1357 -/
def loadBoundaryHandoffCandidates (lib : JsonLib) (fs : Table Path Bytes)
    (manifestPath : Option Path) : Except Unit (List LoadedHandoffCandidate) :=
  match manifestPath.bind fs.get with
  | none => .ok []
  | some bytes =>
    match String.fromUTF8? bytes.toByteArray with
    | none => .error ()
    | some text => loadLines lib (HashImport.splitLines text)

/-- The row, as loading gives it back. -/
def DownloadedHandoffCandidate.loaded (row : DownloadedHandoffCandidate) :
    LoadedHandoffCandidate where
  accountName := row.accountName
  onedriveId := row.onedriveId
  originalFilename := row.originalFilename
  relativePath := row.relativePath
  modifiedTime := row.modifiedTime
  sizeBytes := row.sizeBytes.elim .null fun n => .num (toString n)
  stagingPath := ("/", row.stagingPath)

/-! ## A row is one line -/

theorem not_lineEnd_of_printable {c : Char} (h : IsPrintable c) :
    HashImport.isLineEnd c = false := by
  simp only [HashImport.isLineEnd, Bool.or_eq_false_iff, beq_eq_false_iff_ne]
  exact ⟨⟨⟨⟨⟨⟨⟨⟨⟨h.ne (by decide), h.ne (by decide)⟩, h.ne (by decide)⟩, h.ne (by decide)⟩,
    h.ne (by decide)⟩, h.ne (by decide)⟩, h.ne (by decide)⟩, h.ne (by decide)⟩,
    h.ne (by decide)⟩, h.ne (by decide)⟩

theorem printable_of_isDigit {c : Char} (h : c.isDigit = true) : IsPrintable c := by
  simp only [Char.isDigit, Bool.and_eq_true, decide_eq_true_eq] at h
  have hlo : 48 ≤ c.toNat := h.1
  have hhi : c.toNat ≤ 57 := h.2
  exact ⟨by omega, by omega⟩

theorem printable_toString (n : Int) : ∀ c ∈ (toString n).toList, IsPrintable c := by
  have hnat : ∀ m : Nat, ∀ c ∈ m.repr.toList, IsPrintable c := by
    intro m c hc
    rw [Nat.toList_repr] at hc
    exact printable_of_isDigit (Nat.isDigit_of_mem_toDigits (by decide) (by decide) hc)
  cases n with
  | ofNat m => exact hnat m
  | negSucc m =>
    have htext : (toString (Int.negSucc m)).toList = '-' :: (m + 1).repr.toList := by
      simp [Int.toString_eq_repr, Int.repr]
    rw [htext, List.forall_mem_cons]
    exact ⟨by unfold IsPrintable; decide, hnat (m + 1)⟩

theorem printable_sizeText (size : Option Int) : ∀ c ∈ sizeText size, IsPrintable c := by
  cases size with
  | none => exact printable_of_all (by decide)
  | some n => exact printable_toString n

theorem printable_row (row : DownloadedHandoffCandidate) : ∀ c ∈ row.dumps, IsPrintable c := by
  have hfield : ∀ f ∈ row.fields, ∀ c ∈ f.2, IsPrintable c := by
    simp only [DownloadedHandoffCandidate.fields, List.forall_mem_cons]
    exact ⟨printable_jsonString _, printable_jsonString _, printable_jsonString _,
      printable_jsonString _, printable_jsonString _, printable_sizeText _,
      printable_jsonString _, by simp⟩
  have hfields : ∀ c ∈ ", ".toList.intercalate
      (row.fields.map fun f => jsonString f.1 ++ ": ".toList ++ f.2), IsPrintable c := by
    refine forall_mem_intercalate (printable_of_all (by decide)) fun part hpart => ?_
    obtain ⟨f, hf, rfl⟩ := List.mem_map.mp hpart
    rw [List.forall_mem_append, List.forall_mem_append]
    exact ⟨⟨printable_jsonString _, printable_of_all (by decide)⟩, hfield f hf⟩
  rw [DownloadedHandoffCandidate.dumps, List.cons_append, List.forall_mem_cons,
    List.forall_mem_append]
  exact ⟨by decide, hfields, printable_of_all (by decide)⟩

theorem splitLinesGo_line {line : List Char} (h : ∀ c ∈ line, HashImport.isLineEnd c = false)
    (rest : List Char) : ∀ acc : List Char, HashImport.splitLinesGo acc (line ++ '\n' :: rest) =
      (acc.reverse ++ line) :: HashImport.splitLinesGo [] rest := by
  induction line with
  | nil =>
    intro acc
    rw [List.nil_append, List.append_nil, HashImport.splitLinesGo_cons (by decide),
      if_pos (by decide)]
  | cons c line ih =>
    intro acc
    rw [List.forall_mem_cons] at h
    have hne : c ≠ '\r' := by
      rintro rfl
      exact absurd h.1 (by decide)
    rw [List.cons_append, HashImport.splitLinesGo_cons hne, if_neg (by simp [h.1]), ih h.2,
      List.reverse_cons, List.append_assoc, List.singleton_append]

theorem toList_str (p : Path) :
    p.str.toList = '/' :: ['/'].intercalate (p.map String.toList) := by
  simp [Path.str, String.toList_intercalate]

/-- No second slash is at the start. -/
theorem takeWhile_slash_str {p : Path} (h : ∀ part ∈ p, IsPart part) :
    (p.str.toList.takeWhile (· == '/')).length = 1 := by
  rw [toList_str, List.takeWhile_cons_of_pos (by simp)]
  cases p with
  | nil => rfl
  | cons part p =>
    have hpart := h part List.mem_cons_self
    obtain ⟨c, cs, hcs⟩ : ∃ c cs, part.toList = c :: cs :=
      List.exists_cons_of_ne_nil fun hnil => hpart.ne_empty (String.toList_eq_nil_iff.mp hnil)
    have hne : c ≠ '/' := by
      rintro rfl
      exact hpart.noSlash (hcs ▸ List.mem_cons_self)
    cases p <;> simp [List.intercalate, hcs, hne]

/-- Between the slashes are the components, and an empty piece before them. -/
theorem splitOn_str {p : Path} (h : ∀ part ∈ p, IsPart part) :
    (p.str.toList.splitOn '/').filter (fun part => part ≠ [] ∧ part ≠ ['.']) =
      p.map String.toList := by
  have hkeep : ∀ cs ∈ p.map String.toList, decide (cs ≠ [] ∧ cs ≠ ['.']) = true := by
    intro cs hcs
    obtain ⟨part, hpart, rfl⟩ := List.mem_map.mp hcs
    have hok := h part hpart
    rw [decide_eq_true_eq]
    refine ⟨fun hnil => hok.ne_empty (String.toList_eq_nil_iff.mp hnil), fun hdot => ?_⟩
    exact hok.ne_dot (String.toList_inj.mp hdot)
  rw [toList_str, ← List.nil_append ('/' :: _),
    List.splitOn_append_cons_self_of_not_mem (by simp)]
  cases p with
  | nil => rfl
  | cons part p =>
    rw [List.splitOn_intercalate _ ?_ (by simp), List.filter_cons_of_neg (by simp),
      List.filter_eq_self.mpr hkeep]
    intro cs hcs
    obtain ⟨part, hpart, rfl⟩ := List.mem_map.mp hcs
    exact (h part hpart).noSlash

/-- A path is what its text is read as. -/
theorem pyPath_str {p : Path} (h : ∀ part ∈ p, IsPart part) :
    HashImport.pyPath p.str = ("/", p) := by
  unfold HashImport.pyPath
  simp only [takeWhile_slash_str h, splitOn_str h, List.map_map]
  simp [Function.comp_def]

theorem fromUTF8_utf8 (text : String) :
    String.fromUTF8? (utf8 text).toByteArray = some text := by
  have hbytes : (utf8 text).toByteArray = text.toByteArray := by
    rw [← String.utf8Encode_toList]
    rfl
  rw [hbytes, String.fromUTF8?, dif_pos text.isValidUTF8]
  rfl

/-! ## What is loaded -/

/-- What is relied on of the decoder: it inverts the encoding of the row. -/
def Inverts (lib : JsonLib) (row : DownloadedHandoffCandidate) : Prop :=
  lib.loads row.dumps = some (.obj row.payload)

theorem loadedOf_payload (lib : JsonLib) {row : DownloadedHandoffCandidate}
    (hpath : ∀ part ∈ row.stagingPath, IsPart part) : loadedOf lib row.payload = row.loaded := by
  have hfield : ∀ key s, row.payload.lookup key = some (.str s) → lib.field row.payload key = s :=
    fun key s => JsonLib.field_of_str
  unfold loadedOf
  rw [hfield "account_name" row.accountName rfl, hfield "onedrive_id" row.onedriveId rfl,
    hfield "original_filename" row.originalFilename rfl,
    hfield "relative_path" row.relativePath rfl, hfield "modified_time" row.modifiedTime rfl,
    hfield "staging_path" row.stagingPath.str rfl, pyPath_str hpath]
  rfl

theorem loadLine_dumps {lib : JsonLib} {row : DownloadedHandoffCandidate} (h : Inverts lib row)
    (hpath : ∀ part ∈ row.stagingPath, IsPart part) :
    loadLine lib row.dumps = .ok [row.loaded] := by
  have hne : stripBy isPySpace row.dumps ≠ [] :=
    stripBy_ne_nil (c := '{') (by simp [DownloadedHandoffCandidate.dumps]) (by decide)
  rw [loadLine, if_neg hne, h, ← loadedOf_payload lib hpath]

theorem splitLines_rows : ∀ rows : List DownloadedHandoffCandidate,
    HashImport.splitLinesGo [] (rows.flatMap (·.line)) = rows.map (·.dumps)
  | [] => rfl
  | row :: rows => by
    have hline := splitLinesGo_line (fun c hc => not_lineEnd_of_printable (printable_row row c hc))
      (rows.flatMap (·.line)) []
    rw [List.flatMap_cons, DownloadedHandoffCandidate.line, List.append_assoc,
      List.singleton_append, hline, splitLines_rows rows]
    rfl

theorem loadLines_rows {lib : JsonLib} : ∀ {rows : List DownloadedHandoffCandidate},
    (∀ row ∈ rows, Inverts lib row) → (∀ row ∈ rows, ∀ part ∈ row.stagingPath, IsPart part) →
      loadLines lib (rows.map (·.dumps)) = .ok (rows.map (·.loaded))
  | [], _, _ => rfl
  | row :: rows, h, hpath => by
    rw [List.forall_mem_cons] at h hpath
    rw [List.map_cons, loadLines, loadLine_dumps h.1 hpath.1, loadLines_rows h.2 hpath.2]
    rfl

theorem manifestBytes_append (rows rows' : List DownloadedHandoffCandidate) :
    manifestBytes (rows ++ rows') = manifestBytes rows ++ manifestBytes rows' := by
  simp [manifestBytes, utf8]

theorem eq_nil_of_manifestBytes {rows : List DownloadedHandoffCandidate}
    (h : manifestBytes rows = []) : rows = [] := by
  cases rows with
  | nil => rfl
  | cons row rows =>
    have hbrace : String.utf8EncodeChar '{' ≠ [] := by decide
    simp [manifestBytes, utf8, DownloadedHandoffCandidate.line, DownloadedHandoffCandidate.dumps,
      hbrace] at h

/-- A file with the lines of some rows, and an absent one when there are none. -/
theorem load_manifest {lib : JsonLib} {fs : Table Path Bytes} {manifest : Path}
    {rows : List DownloadedHandoffCandidate}
    (hfile : (fs.get manifest).getD [] = manifestBytes rows)
    (h : ∀ row ∈ rows, Inverts lib row)
    (hpath : ∀ row ∈ rows, ∀ part ∈ row.stagingPath, IsPart part) :
    loadBoundaryHandoffCandidates lib fs (some manifest) = .ok (rows.map (·.loaded)) := by
  unfold loadBoundaryHandoffCandidates
  rw [Option.bind_some]
  cases hget : fs.get manifest with
  | none =>
    rw [hget, Option.getD_none] at hfile
    rw [eq_nil_of_manifestBytes hfile.symm]
    rfl
  | some bytes =>
    rw [hget, Option.getD_some] at hfile
    simp only [hfile, manifestBytes, fromUTF8_utf8, HashImport.splitLines, String.toList_ofList,
      splitLines_rows]
    exact loadLines_rows h hpath

/-! ## The manifest among the files -/

def PollArgs.boundaryManifest (a : PollArgs) : Path := a.stagingDir ++ ["_boundary_handoff.jsonl"]

/-- What an operation that was done does to the file of the manifest. -/
def FileOp.onManifest (manifest : Path) : FileOp → Table Path Bytes → Table Path Bytes
  | .unlinkManifest, fs => fs.drop manifest
  | .appendManifest row, fs => fs.put manifest ((fs.get manifest).getD [] ++ manifestBytes [row])
  | _, fs => fs

/-- `clientHandle` with the manifest a file among the staged ones.
mirrors src/nightfall_photo_ingress/adapters/onedrive/client.py:1303-1330 -/
def diskHandle (out : Outside) (manifest : Path) : Handler ClientOps ClientState
  | .file f, w =>
    ((clientHandle out (.file f) w).1,
      if (clientHandle out (.file f) w).1 then
        { (clientHandle out (.file f) w).2 with
          staging := f.onManifest manifest (clientHandle out (.file f) w).2.staging }
      else (clientHandle out (.file f) w).2)
  | o, w => clientHandle out o w

/-- Operations that leave the file at `manifest` and what was handed over alone. -/
def ClientOp.Spares (manifest : Path) : ClientOp → Prop
  | .file .unlinkManifest => False
  | .file (.appendManifest _) => False
  | .file (.unlink p) => p ≠ manifest
  | .file (.openWb p) => p ≠ manifest
  | .file (.write p _) => p ≠ manifest
  | .file (.replace src dst) => src ≠ manifest ∧ dst ≠ manifest
  | .pageHandoff _ _ => False
  | _ => True

/-- The manifest, as rows and as a file, grew by the first rows, what was handed over by the
second. -/
structure Added (manifest : Path) (rows handed : List DownloadedHandoffCandidate)
    (w w' : ClientState) : Prop where
  listed : w'.manifest = w.manifest ++ rows
  file : (w'.staging.get manifest).getD [] =
    (w.staging.get manifest).getD [] ++ manifestBytes rows
  handed : w'.handed = w.handed ++ handed

section Disk
variable {out : Outside} {manifest : Path} {w : ClientState}

theorem Added.refl (w : ClientState) : Added manifest [] [] w w :=
  ⟨by simp, by simp [manifestBytes, utf8], by simp⟩

theorem Added.trans {rows rows' handed handed' : List DownloadedHandoffCandidate}
    {u v w : ClientState} (h : Added manifest rows handed u v)
    (h' : Added manifest rows' handed' v w) :
    Added manifest (rows ++ rows') (handed ++ handed') u w where
  listed := by rw [h'.listed, h.listed, List.append_assoc]
  file := by rw [h'.file, h.file, manifestBytes_append, List.append_assoc]
  handed := by rw [h'.handed, h.handed, List.append_assoc]

theorem Added.of_eq {w' : ClientState} (hrows : w'.manifest = w.manifest)
    (hfile : w'.staging.get manifest = w.staging.get manifest)
    (hhanded : w'.handed = w.handed) : Added manifest [] [] w w' :=
  ⟨by simp [hrows], by simp [hfile, manifestBytes, utf8], by simp [hhanded]⟩

theorem FileOp.apply_spares {f : FileOp} (h : (ClientOp.file f).Spares manifest) :
    (f.apply w).manifest = w.manifest ∧
      (f.apply w).staging.get manifest = w.staging.get manifest ∧
      (f.apply w).handed = w.handed ∧ ∀ fs, f.onManifest manifest fs = fs := by
  cases f with
  | unlinkManifest => exact h.elim
  | appendManifest _ => exact h.elim
  | unlink p => exact ⟨rfl, (Table.get_drop _ _ _).trans (if_neg h.symm), rfl, fun _ => rfl⟩
  | openWb p => exact ⟨rfl, (Table.get_put _ _ _ _).trans (if_neg h.symm), rfl, fun _ => rfl⟩
  | write p chunk =>
    exact ⟨rfl, (Table.get_modify _ _ _ _).trans (if_neg h.symm), rfl, fun _ => rfl⟩
  | replace src dst =>
    simp only [FileOp.apply]
    cases w.staging.get src with
    | none => exact ⟨rfl, rfl, rfl, fun _ => rfl⟩
    | some b =>
      refine ⟨rfl, ?_, rfl, fun _ => rfl⟩
      rw [Table.get_put, if_neg (Ne.symm h.2), Table.get_drop, if_neg (Ne.symm h.1)]
  | _ => exact ⟨rfl, rfl, rfl, fun _ => rfl⟩

/-- Both machines do the same where the manifest is spared. -/
theorem diskHandle_spares {o : ClientOp} (h : o.Spares manifest) :
    diskHandle out manifest o w = clientHandle out o w := by
  cases o with
  | file f =>
    obtain ⟨-, -, -, hkeep⟩ := FileOp.apply_spares (w := w) h
    simp only [diskHandle, hkeep, ite_self]
  | _ => rfl

theorem spares_step (o : ClientOp) (w : ClientState) (h : o.Spares manifest) :
    Added manifest [] [] w (diskHandle out manifest o w).2 := by
  rw [diskHandle_spares h]
  cases o with
  | file f =>
    obtain ⟨hrows, hfile, hhanded, -⟩ := FileOp.apply_spares (w := w) h
    simp only [clientHandle, effect]
    split
    · exact .of_eq rfl rfl rfl
    · exact .of_eq hrows hfile hhanded
  | pageHandoff _ _ => exact h.elim
  | get url bearer =>
    cases bearer <;> exact .of_eq rfl rfl rfl
  | _ => exact .of_eq rfl rfl rfl

theorem wp_spares {α : Type} {p : ClientFlow α} (h : p.Calls (ClientOp.Spares manifest))
    {Q : Except ClientError α → ClientState → Prop}
    (hQ : ∀ r w', Added manifest [] [] w w' → Q r w') : p.Wp (diskHandle out manifest) w Q :=
  h.wp Added.refl (fun _ _ _ => Added.trans) spares_step hQ

end Disk

/-! ## The names of the files -/

/-- A base name: it starts with no dot, underscore or dash and has no separator. -/
structure IsBasename (base : String) : Prop where
  head : ∃ c, base.toList.head? = some c ∧ c ≠ '.' ∧ c ≠ '_'
  noSlash : '/' ∉ base.toList

theorem mem_subRuns {keep : Char → Bool} {c : Char} : ∀ {b : Bool} {cs : List Char},
    c ∈ subRuns keep b cs → keep c = true ∨ c = '_'
  | _, [], h => by simp [subRuns] at h
  | b, d :: cs, h => by
    unfold subRuns at h
    split at h
    · rcases List.mem_cons.mp h with rfl | h
      · exact .inl (by assumption)
      · exact mem_subRuns h
    · split at h
      · exact mem_subRuns h
      · rcases List.mem_cons.mp h with rfl | h
        · exact .inr rfl
        · exact mem_subRuns h

theorem isBasename_safeStagingBasename (itemId : String) :
    IsBasename (safeStagingBasename itemId) := by
  unfold safeStagingBasename
  simp only
  split
  · exact ⟨⟨'i', by decide, by decide, by decide⟩, by decide⟩
  · next hne =>
    obtain ⟨c, cs, hcs⟩ := List.exists_cons_of_ne_nil (by simpa using hne)
    have hhead := stripBy_head _ _ c (by rw [hcs, List.head?_cons])
    simp only [Bool.or_eq_false_iff, beq_eq_false_iff_ne] at hhead
    refine ⟨⟨c, by simp [hcs], hhead.1.1, hhead.1.2⟩, fun hslash => ?_⟩
    rw [String.toList_ofList] at hslash
    rcases mem_subRuns (mem_stripBy (List.mem_of_mem_take hslash)) with h | h
    · exact absurd h (by decide)
    · exact absurd h (by decide)

theorem IsBasename.append {base ext : String} (h : IsBasename base) (hext : '/' ∉ ext.toList) :
    IsBasename (base ++ ext) := by
  obtain ⟨⟨c, hc, hne⟩, hslash⟩ := h
  refine ⟨⟨c, by simp [hc], hne⟩, ?_⟩
  rw [String.toList_append, List.mem_append, not_or]
  exact ⟨hslash, hext⟩

/-- The digest is made of hexadecimal digits. -/
def HexDigests (lib : ClientLib) : Prop :=
  ∀ text, ∀ c ∈ (lib.sha256Text text).toList, isHexDigit c = true

theorem isBasename_unique {lib : ClientLib} (hhex : HexDigests lib) (itemId : String)
    (used : List String) : IsBasename (uniqueStagingBasename lib.sha256Text itemId used).1 := by
  have hbase := isBasename_safeStagingBasename itemId
  unfold uniqueStagingBasename
  simp only
  split
  · refine (hbase.append (by decide)).append fun hslash => ?_
    rw [String.toList_ofList] at hslash
    exact absurd (hhex itemId _ (List.mem_of_mem_take hslash)) (by decide)
  · exact hbase

theorem noSlash_safeExtension (name : String) : '/' ∉ (safeExtension name).toList := by
  unfold safeExtension
  split
  · next ext _ =>
    split
    · next hext =>
      rw [Bool.and_eq_true] at hext
      rw [String.toList_ofList, List.mem_cons, not_or]
      exact ⟨by decide, not_mem_of_alnum (by decide) hext.1⟩
    · decide
  · decide

theorem IsBasename.isPart {name : String} (h : IsBasename name) : IsPart name := by
  obtain ⟨⟨c, hc, hdot, -⟩, hslash⟩ := h
  refine ⟨?_, ?_, hslash⟩
  · rintro rfl
    cases hc
  · rintro rfl
    exact hdot (Option.some_inj.mp hc).symm

/-- A file with such a name in the staging directory is not the manifest. -/
theorem IsBasename.ne_manifest {name : String} (h : IsBasename name) (a : PollArgs) :
    a.stagingDir ++ [name] ≠ a.boundaryManifest := by
  obtain ⟨⟨c, hc, -, hne⟩, -⟩ := h
  intro heq
  obtain rfl : name = "_boundary_handoff.jsonl" := by simpa [PollArgs.boundaryManifest] using heq
  exact hne (Option.some_inj.mp hc).symm

theorem IsBasename.tmp_ne_manifest {base : String} (h : IsBasename base) (a : PollArgs) :
    a.stagingDir ++ [base ++ ".tmp"] ≠ a.boundaryManifest :=
  IsBasename.ne_manifest (h.append (by decide)) a

theorem below_ne_manifest (a : PollArgs) (directory name : String) :
    a.stagingDir ++ [directory, name] ≠ a.boundaryManifest := by
  simp [PollArgs.boundaryManifest]

/-! ## One candidate -/

/-- A row whose path has proper components. -/
def DownloadedHandoffCandidate.Placed (row : DownloadedHandoffCandidate) : Prop :=
  ∀ part ∈ row.stagingPath, IsPart part

section Download
variable {lib : ClientLib} {a : PollArgs} {out : Outside} {w : ClientState}

/-- A stretch that spares the manifest, and what follows it. -/
theorem wp_after_spares {α β : Type} {p : ClientFlow α} {f : α → ClientFlow β}
    {Q : β → ClientState → ClientState → Prop} (hp : p.Calls (ClientOp.Spares a.boundaryManifest))
    (hQ : ∀ {u v w : ClientState} {y}, Added a.boundaryManifest [] [] u v → Q y v w → Q y u w)
    (hf : ∀ x w', (f x).Wp (diskHandle out a.boundaryManifest) w' (onOk fun y w'' => Q y w' w'')) :
    (p >>= f).Wp (diskHandle out a.boundaryManifest) w (onOk fun y w'' => Q y w w'') := by
  refine wp_bind.mpr (wp_spares hp fun r w' hw => ?_)
  cases r with
  | error _ => trivial
  | ok x =>
    refine wp_mono ?_ (hf x w')
    rintro (e | y) w'' h
    · trivial
    · exact hQ hw h

theorem admits_spares {c : RemoteCandidate} {tmp : Path} (htmp : tmp ≠ a.boundaryManifest) :
    ClientOp.Admits (ClientOp.Spares a.boundaryManifest) c tmp where
  asks o h := by
    cases o with
    | get _ _ => trivial
    | refreshAccessToken => trivial
    | sleep _ _ _ => trivial
    | countRetry _ => trivial
    | _ => exact h.elim
  transfers o h := by
    cases o with
    | file f =>
      cases f with
      | unlink p => exact (h : p = tmp) ▸ htmp
      | openWb p => exact (h : p = tmp) ▸ htmp
      | write p _ => exact (h : p = tmp) ▸ htmp
      | _ => exact h.elim
    | get _ _ => trivial
    | sleep _ _ _ => trivial
    | countRetry _ => trivial
    | _ => exact h.elim
  ghost _ := trivial
  clock := trivial
  lifecycle _ := trivial

/-- What a candidate adds: its row to the file and nothing to what was handed over. -/
def AddsRow (a : PollArgs) (row : Option DownloadedHandoffCandidate) (w w' : ClientState) : Prop :=
  Added a.boundaryManifest row.toList [] w w' ∧ ∀ r ∈ row, r.Placed

theorem AddsRow.after {row : Option DownloadedHandoffCandidate} {u v w : ClientState}
    (h : Added a.boundaryManifest [] [] u v) (h' : AddsRow a row v w) : AddsRow a row u w :=
  ⟨h.trans h'.1, h'.2⟩

theorem addsRow_none (w : ClientState) : AddsRow a none w w := ⟨.refl w, by simp⟩

theorem wp_appendManifest (row : DownloadedHandoffCandidate) :
    (file (.appendManifest row)).Wp (diskHandle out a.boundaryManifest) w
      (onOk fun _ w' => Added a.boundaryManifest [row] [] w w') := by
  refine wp_op.mpr ?_
  simp only [diskHandle, clientHandle, effect]
  split
  · exact wp_err.mpr trivial
  · refine wp_ret.mpr ⟨rfl, ?_, by simp [FileOp.apply]⟩
    simp [FileOp.onManifest, FileOp.apply]

theorem addsRow_finishDownload (hdir : ∀ part ∈ a.stagingDir, IsPart part) (c : RemoteCandidate)
    {base : String} (hbase : IsBasename base) (ghosts : Counts) :
    (finishDownload a c base ghosts).Wp (diskHandle out a.boundaryManifest) w
      (onOk fun x w' => AddsRow a x.2 w w') := by
  have htmp := hbase.tmp_ne_manifest a
  have hname := hbase.append (noSlash_safeExtension c.name)
  have hadmits := admits_spares (c := c) htmp
  refine wp_after_spares (hadmits.appendLifecycleEvent _ _) .after fun _ w₁ => ?_
  simp only
  split
  · refine wp_after_spares (calls_file ⟨htmp, below_ne_manifest a _ _⟩) .after fun _ w₂ => ?_
    refine wp_after_spares (calls_recordGhost _ hadmits.ghost _) .after fun ghosts w₃ => ?_
    refine wp_after_spares (hadmits.appendLifecycleEvent _ _) .after fun _ w₄ => ?_
    exact wp_ret.mpr (addsRow_none w₄)
  · refine wp_after_spares (calls_file ⟨htmp, hname.ne_manifest a⟩) .after fun _ w₂ => ?_
    refine wp_after_spares (hadmits.appendLifecycleEvent _ _) .after fun _ w₃ => ?_
    refine wp_bind_onOk (wp_appendManifest _) fun _ w₄ hw => wp_ret.mpr ⟨hw, ?_⟩
    rintro row ⟨⟩ part hpart
    rcases List.mem_append.mp hpart with hpart | hpart
    · exact hdir part hpart
    · exact List.mem_singleton.mp hpart ▸ hname.isPart

theorem addsRow_downloadCandidate (hdir : ∀ part ∈ a.stagingDir, IsPart part) (c : RemoteCandidate)
    {base : String} (hbase : IsBasename base) (ghosts : Counts) :
    (downloadCandidate lib a c base ghosts).Wp (diskHandle out a.boundaryManifest) w
      (onOk fun x w' => AddsRow a x.2 w w') := by
  have htmp := hbase.tmp_ne_manifest a
  have hadmits := admits_spares (c := c) htmp
  unfold downloadCandidate
  simp only
  split
  · exact wp_after_spares (calls_recordGhost _ hadmits.ghost _) .after fun ghosts w₁ =>
      wp_ret.mpr (addsRow_none w₁)
  · refine wp_after_spares (hadmits.appendLifecycleEvent _ _) .after fun _ w₁ => ?_
    refine wp_after_spares (hadmits.initialDownloadUrl lib ghosts) .after ?_
    rintro ⟨ghosts, url | url⟩ w₂
    · exact wp_ret.mpr (addsRow_none w₂)
    refine wp_after_spares (hadmits.downloadRefreshing lib url ghosts) .after ?_
    rintro ⟨ghosts, done | done⟩ w₃
    · exact wp_ret.mpr (addsRow_none w₃)
    exact addsRow_finishDownload hdir c hbase ghosts

/-- The rows of some candidates: added to the file, and to what the loop returns. -/
def AddsRows (a : PollArgs) (d d' : Downloads) (w w' : ClientState) : Prop :=
  ∃ rows, d'.rows = d.rows ++ rows ∧ Added a.boundaryManifest rows [] w w' ∧
    ∀ row ∈ rows, row.Placed

/-- By induction on the candidates. -/
theorem addsRows_downloadLoop (hhex : HexDigests lib) (hdir : ∀ part ∈ a.stagingDir, IsPart part)
    (limit : Int) : ∀ (cs : List RemoteCandidate) (index : Nat) (used : List String)
      (d : Downloads) (w : ClientState),
      (downloadLoop lib a limit index cs used d).Wp (diskHandle out a.boundaryManifest) w
        (onOk fun d' w' => AddsRows a d d' w w') := by
  have hnone : ∀ d w, AddsRows a d d w w := fun d w => ⟨[], by simp, .refl w, by simp⟩
  intro cs
  induction cs with
  | nil => exact fun _ _ d w => wp_ret.mpr (hnone d w)
  | cons c cs ih =>
    intro index used d w
    rw [downloadLoop]
    split
    · exact wp_ret.mpr (hnone d w)
    · refine wp_bind_onOk (addsRow_downloadCandidate hdir c
        (isBasename_unique hhex c.itemId used) d.ghosts) ?_
      rintro ⟨ghosts, row⟩ w₁ ⟨hadded, hplaced⟩
      refine wp_mono ?_ (ih (index + 1) _ _ w₁)
      rintro (e | d') w₂ hrest
      · trivial
      · obtain ⟨rows, hrows, hadded', hplaced'⟩ := hrest
        refine ⟨row.toList ++ rows, by rw [hrows, List.append_assoc], hadded.trans hadded', ?_⟩
        rw [List.forall_mem_append]
        exact ⟨fun r hr => hplaced r (Option.mem_toList.mp hr), hplaced'⟩

end Download

/-! ## The pages -/

/-- The rows that go to the processor of a poll when these are written. -/
def PollArgs.handedRows (a : PollArgs) (rows : List DownloadedHandoffCandidate) :
    List DownloadedHandoffCandidate :=
  if a.hasProcessor then rows else []

theorem handedRows_append (a : PollArgs) (rows rows' : List DownloadedHandoffCandidate) :
    a.handedRows (rows ++ rows') = a.handedRows rows ++ a.handedRows rows' := by
  unfold PollArgs.handedRows
  split <;> simp

theorem handedRows_nil (a : PollArgs) : a.handedRows [] = [] := by simp [PollArgs.handedRows]

/-- The manifest grew by some rows, and what was handed over by those that go to the
processor. -/
def Copied (a : PollArgs) (w w' : ClientState) : Prop :=
  ∃ rows, Added a.boundaryManifest rows (a.handedRows rows) w w' ∧ ∀ row ∈ rows, row.Placed

theorem Copied.trans {a : PollArgs} {u v w : ClientState} (h : Copied a u v) (h' : Copied a v w) :
    Copied a u w := by
  obtain ⟨rows, hadded, hplaced⟩ := h
  obtain ⟨rows', hadded', hplaced'⟩ := h'
  refine ⟨rows ++ rows', ?_, List.forall_mem_append.mpr ⟨hplaced, hplaced'⟩⟩
  rw [handedRows_append]
  exact hadded.trans hadded'

theorem Added.copied {a : PollArgs} {w w' : ClientState}
    (h : Added a.boundaryManifest [] [] w w') : Copied a w w' :=
  ⟨[], (handedRows_nil a).symm ▸ h, by simp⟩

/-- A program that returns with both grown so, from any state. -/
def Copies {α : Type} (out : Outside) (a : PollArgs) (p : ClientFlow α) : Prop :=
  ∀ w, p.Wp (diskHandle out a.boundaryManifest) w (onOk fun _ w' => Copied a w w')

section Pages
variable {α β : Type} {lib : ClientLib} {a : PollArgs} {out : Outside}

theorem copies_ret {x : α} : Copies out a (.ret x) := fun w => wp_ret.mpr (Added.refl w).copied

theorem copies_err {e : ClientError} : Copies out a (.err e : ClientFlow α) :=
  fun _ => wp_err.mpr trivial

theorem copies_bind {p : ClientFlow α} {f : α → ClientFlow β} (hp : Copies out a p)
    (hf : ∀ x, Copies out a (f x)) : Copies out a (p >>= f) := by
  intro w
  refine wp_bind_onOk (hp w) fun x w₁ hw₁ => wp_mono ?_ (hf x w₁)
  rintro (e | y) w₂ hw₂
  · trivial
  · exact hw₁.trans hw₂

theorem copies_of_calls {p : ClientFlow α} (h : p.Calls (ClientOp.Spares a.boundaryManifest)) :
    Copies out a p := fun _ => wp_spares h fun r _ hw => match r with
  | .ok _ => hw.copied
  | .error _ => trivial

theorem ClientOp.Asks.spares {url : String} {o : ClientOp} (h : o.Asks url) :
    o.Spares a.boundaryManifest := by
  cases o with
  | file f => exact h.elim
  | pageHandoff _ _ => exact h.elim
  | _ => trivial

theorem spares_orRaise (x : Except Unit α) :
    (orRaise x).Calls (ClientOp.Spares a.boundaryManifest) := by
  cases x with
  | error _ => exact .err
  | ok _ => exact .ret

theorem spares_checkpoint (link : String) :
    (checkpoint link).Calls (ClientOp.Spares a.boundaryManifest) :=
  .bind (calls_file trivial) fun _ => calls_file trivial

theorem spares_markResyncRequired (name url reason : String) (resyncUrl : Option String) :
    (markResyncRequired name url reason resyncUrl).Calls (ClientOp.Spares a.boundaryManifest) :=
  .op trivial fun _ => calls_file trivial

/-- The rows of a page go to the manifest, and to the page processor if there is one. -/
theorem copies_downloadPage (hhex : HexDigests lib) (hdir : ∀ part ∈ a.stagingDir, IsPart part)
    (t : Traversal) (candidates : List RemoteCandidate) :
    Copies out a (downloadPage lib a t candidates) := by
  intro w
  unfold downloadPage
  simp only
  split
  swap
  · exact copies_ret w
  refine wp_op.mpr (wp_bind_onOk (addsRows_downloadLoop hhex hdir _ candidates 0 [] ⟨∅, []⟩ _)
    fun d w₁ hd => ?_)
  obtain ⟨rows, hrows, hadded, hplaced⟩ := hd
  rw [List.nil_append] at hrows
  have henter := @spares_step out a.boundaryManifest
    (.enterDownload candidates (remainingDownloadBudget a t)) w trivial
  have hfile := henter.trans hadded
  rw [← hrows] at hfile hplaced
  split
  · refine wp_op.mpr ?_
    simp only [diskHandle, clientHandle, effect]
    split
    · next hproc _ =>
      refine wp_ret.mpr ⟨d.rows, ⟨hfile.listed, hfile.file, ?_⟩, hplaced⟩
      simp [hfile.handed, PollArgs.handedRows, hproc.1]
    · exact wp_err.mpr trivial
  · next hnone =>
    refine wp_ret.mpr ⟨d.rows, ⟨hfile.listed, hfile.file, ?_⟩, hplaced⟩
    have hempty : a.handedRows d.rows = [] := by
      unfold PollArgs.handedRows
      split
      · next hproc => simpa [hproc] using hnone
      · rfl
    rw [hempty]
    exact hfile.handed

theorem copies_processDeltaPage (hhex : HexDigests lib)
    (hdir : ∀ part ∈ a.stagingDir, IsPart part) (t : Traversal) (payload : Payload) :
    Copies out a (processDeltaPage lib a t payload) := by
  refine copies_bind (copies_of_calls (.op trivial fun _ => .ret)) fun _ => ?_
  refine copies_bind (copies_of_calls (spares_orRaise _)) fun reducer => ?_
  refine copies_bind (copies_of_calls (.op trivial fun _ => .ret)) fun _ => ?_
  refine copies_bind (copies_of_calls (spares_orRaise _)) fun candidates => ?_
  refine copies_bind (copies_downloadPage hhex hdir _ candidates) fun t => ?_
  cases nextLink lib.toPyValues payload with
  | none => exact copies_ret
  | some link => exact copies_bind (copies_of_calls (spares_checkpoint link)) fun _ => copies_ret

theorem spares_incrementLoopIncident :
    incrementLoopIncident.Calls (ClientOp.Spares a.boundaryManifest) := by
  refine .op trivial fun s => ?_
  exact .bind (p := file (.saveIncidentState _)) (calls_file trivial) fun _ => .ret

theorem spares_resetLoopIncidents :
    resetLoopIncidents.Calls (ClientOp.Spares a.boundaryManifest) :=
  .op trivial fun _ => calls_file trivial

theorem copies_loopDetected (t : Traversal) (url : String) :
    Copies out a (loopDetected a t url) := by
  refine copies_bind (copies_of_calls spares_incrementLoopIncident) fun incidents => ?_
  split
  · refine copies_bind (copies_of_calls (spares_markResyncRequired ..)) fun _ => ?_
    exact copies_bind (copies_of_calls spares_resetLoopIncidents) fun _ => copies_ret
  · exact copies_err

theorem copies_deltaPage (hhex : HexDigests lib) (hdir : ∀ part ∈ a.stagingDir, IsPart part)
    (t : Traversal) (url : String) :
    Copies out a (deltaPage lib a t url) := by
  unfold deltaPage
  split
  · exact copies_loopDetected t url
  · refine copies_bind (copies_of_calls ((calls_fetchDeltaPage a url).imp fun _ =>
      ClientOp.Asks.spares)) fun r => ?_
    cases r with
    | error resyncUrl =>
      exact copies_bind (copies_of_calls (spares_markResyncRequired ..)) fun _ => copies_ret
    | ok payload => exact copies_processDeltaPage hhex hdir _ payload

/-- By induction on the pages that may still be fetched. -/
theorem copied_deltaPages (hhex : HexDigests lib) (hdir : ∀ part ∈ a.stagingDir, IsPart part)
    (start : Int) : ∀ (remaining : Nat) (next : Option String)
      (t : Traversal), Copies out a (deltaPages lib a start remaining next t) := by
  intro remaining
  induction remaining with
  | zero =>
    intro next t
    unfold deltaPages
    split
    · exact copies_ret
    · split
      · exact copies_ret
      · refine copies_bind (copies_of_calls (.op trivial fun _ => .ret)) fun now => ?_
        split <;> exact copies_err
  | succ remaining ih =>
    intro next t
    unfold deltaPages
    split
    · exact copies_ret
    · next url _ =>
      split
      · exact copies_ret
      · refine copies_bind (copies_of_calls (.op trivial fun _ => .ret)) fun now => ?_
        split
        · exact copies_err
        · refine copies_bind (copies_deltaPage hhex hdir t url) fun outcome => ?_
          cases outcome with
          | resync _ => exact copies_ret
          | next link t => exact ih link t

end Pages

/-! ## One poll -/

section Poll
variable {lib : ClientLib} {a : PollArgs} {out : Outside}

theorem spares_recovered (now : Int) {tmps : List (Path × Int)}
    (h : ∀ tmp ∈ tmps, tmp.1 ≠ a.boundaryManifest) :
    (tmps.forM fun (path, age) =>
      if age < seconds (max a.tmpTtlMinutes 0 * 60) then return ()
      else file (.replace path (a.stagingDir ++ ["_recovery_quarantine",
        path.name ++ "." ++ toString (now / seconds 1)])) : ClientFlow Unit).Calls
      (ClientOp.Spares a.boundaryManifest) := by
  induction tmps with
  | nil => exact .ret
  | cons tmp tmps ih =>
    rw [List.forall_mem_cons] at h
    refine .bind ?_ fun _ => ih h.2
    exact .ite .ret (calls_file ⟨h.1, below_ne_manifest a _ _⟩)

/-- The manifest is no temporary file. -/
theorem copies_recoverStagingTmpFiles : Copies out a (recoverStagingTmpFiles a) := by
  refine copies_bind (copies_of_calls (.op trivial fun _ => .ret)) fun now w => ?_
  refine wp_op.mpr (wp_spares (spares_recovered now ?_) fun r w' hw => ?_)
  · intro tmp htmp
    obtain ⟨p, hp, rfl⟩ := List.mem_map.mp htmp
    have htmpOf := (List.mem_filter.mp hp).2
    rintro (rfl : p = a.boundaryManifest)
    have hsuffix : (splitSuffix "_boundary_handoff.jsonl".toList).2 ≠ ".tmp".toList := by
      decide +kernel
    simp only [isTmpOf, PollArgs.boundaryManifest, Path.name, List.getLast?_concat,
      Option.getD_some, Bool.and_eq_true, beq_iff_eq] at htmpOf
    exact hsuffix htmpOf.2
  · have hlist := @spares_step out a.boundaryManifest (.tmpFiles a.stagingDir) w trivial
    cases r with
    | ok _ => exact (hlist.trans hw).copied
    | error _ => trivial

/-- The file holds the rows of the manifest, and those that go to the processor were handed
over behind `before`. -/
structure Mirrors (a : PollArgs) (before : List DownloadedHandoffCandidate) (w' : ClientState) :
    Prop where
  file : (w'.staging.get a.boundaryManifest).getD [] = manifestBytes w'.manifest
  handed : w'.handed = before ++ a.handedRows w'.manifest
  placed : ∀ row ∈ w'.manifest, row.Placed

theorem Mirrors.copied {before : List DownloadedHandoffCandidate} {v w : ClientState}
    (h : Mirrors a before v) (h' : Copied a v w) : Mirrors a before w := by
  obtain ⟨rows, hadded, hplaced⟩ := h'
  refine ⟨?_, ?_, ?_⟩
  · rw [hadded.file, h.file, hadded.listed, manifestBytes_append]
  · rw [hadded.handed, h.handed, hadded.listed, handedRows_append, List.append_assoc]
  · rw [hadded.listed]
    exact List.forall_mem_append.mpr ⟨h.placed, hplaced⟩

theorem wp_mirrors {α β : Type} {p : ClientFlow α} {f : α → ClientFlow β}
    {before : List DownloadedHandoffCandidate} {w : ClientState}
    (hp : p.Wp (diskHandle out a.boundaryManifest) w (onOk fun _ w' => Mirrors a before w'))
    (hf : ∀ x, Copies out a (f x)) :
    (p >>= f).Wp (diskHandle out a.boundaryManifest) w (onOk fun _ w' => Mirrors a before w') := by
  refine wp_bind_onOk hp fun x w₁ hw₁ => wp_mono ?_ (hf x w₁)
  rintro (e | y) w₂ hw₂
  · trivial
  · exact hw₁.copied hw₂

theorem mirrors_unlinkManifest (w : ClientState) :
    (file .unlinkManifest).Wp (diskHandle out a.boundaryManifest) w
      (onOk fun _ w' => Mirrors a w.handed w') := by
  refine wp_op.mpr ?_
  simp only [diskHandle, clientHandle, effect]
  split
  · exact wp_err.mpr trivial
  · refine wp_ret.mpr ⟨?_, ?_, by simp [FileOp.apply]⟩
    · simp [FileOp.onManifest, FileOp.apply, Table.get_drop, manifestBytes, utf8]
    · simp [FileOp.apply, handedRows_nil]

theorem spares_isBreakerCooldownActive (s : IncidentState) :
    (isBreakerCooldownActive s).Calls (ClientOp.Spares a.boundaryManifest) := by
  unfold isBreakerCooldownActive
  cases s.cooldownUntilEpoch with
  | none => exact .ret
  | some _ => exact .op trivial fun _ => .ret

/-- The manifest of an earlier poll is removed before the cooldown is looked at. -/
theorem mirrors_preparePoll (w : ClientState) :
    (preparePoll a).Wp (diskHandle out a.boundaryManifest) w
      (onOk fun _ w' => Mirrors a w.handed w') := by
  refine wp_bind.mpr (wp_op.mpr (wp_ret.mpr (thenWp_ok.mpr ?_)))
  refine wp_mirrors (mirrors_unlinkManifest _) fun _ => ?_
  refine copies_bind (copies_of_calls (.op trivial fun _ => .ret)) fun s => ?_
  refine copies_bind (copies_of_calls (spares_isBreakerCooldownActive s)) fun active => ?_
  split
  · exact copies_ret
  · exact copies_bind copies_recoverStagingTmpFiles fun _ => copies_ret

theorem spares_armBreakers (t : Traversal) :
    (armBreakers a t).Calls (ClientOp.Spares a.boundaryManifest) := by
  have harm : ∀ n, (armBreakerCooldown n).Calls (ClientOp.Spares a.boundaryManifest) := fun n =>
    .op trivial fun _ => .op trivial fun _ => calls_file trivial
  exact .ite (.bind (harm _) fun _ => .ret) (.ite (.bind (harm _) fun _ => .ret) .ret)

theorem copies_finishPoll (t : Traversal) : Copies out a (finishPoll a t) := by
  unfold finishPoll
  split
  · exact copies_err
  · refine copies_bind (copies_of_calls (.op trivial fun _ => .ret)) fun _ => ?_
    refine copies_bind (copies_of_calls ?_) fun _ =>
      copies_bind (copies_of_calls (spares_armBreakers t)) fun _ => copies_ret
    cases t.deltaLink with
    | none => exact .ret
    | some link => exact spares_checkpoint link

theorem mirrors_pollAccountOnce (hhex : HexDigests lib) (hdir : ∀ part ∈ a.stagingDir, IsPart part)
    (w : ClientState) :
    (pollAccountOnce lib a).Wp (diskHandle out a.boundaryManifest) w
      (onOk fun _ w' => Mirrors a w.handed w') := by
  refine wp_bind.mpr (wp_op.mpr (wp_ret.mpr (thenWp_ok.mpr ?_)))
  refine wp_mirrors (mirrors_preparePoll _) fun start => ?_
  cases start with
  | none => exact copies_ret
  | some start =>
    refine copies_bind (copied_deltaPages hhex hdir start _ _ _) fun outcome => ?_
    cases outcome with
    | resync _ => exact copies_ret
    | next _ t => exact copies_finishPoll t

theorem mirrors_of_run (hhex : HexDigests lib) (hdir : ∀ part ∈ a.stagingDir, IsPart part)
    {w w' : ClientState} {result : PollResult}
    (hrun : (pollAccountOnce lib a).run (diskHandle out a.boundaryManifest) w = (.ok result, w')) :
    Mirrors a w.handed w' := by
  have hmirrors := wp_iff.mp (@mirrors_pollAccountOnce lib a out hhex hdir w)
  rw [hrun] at hmirrors
  exact hmirrors

end Poll

/-- If the poll returns, what is loaded from its manifest are the rows handed over in it. -/
def CopiesHandoff (lib : ClientLib) (json : JsonLib) (out : Outside) (a : PollArgs)
    (w : ClientState) : Prop :=
  ∀ result w', (pollAccountOnce lib a).run (diskHandle out a.boundaryManifest) w =
      (.ok result, w') →
    ∃ rows, w'.handed = w.handed ++ rows ∧
      ((∀ row ∈ rows, Inverts json row) →
        loadBoundaryHandoffCandidates json w'.staging (some a.boundaryManifest) =
          .ok (rows.map (·.loaded)))

/-- If the poll returns, nothing was handed over in it, and what is loaded from its manifest are
the rows it has written there. -/
def WritesRows (lib : ClientLib) (json : JsonLib) (out : Outside) (a : PollArgs)
    (w : ClientState) : Prop :=
  ∀ result w', (pollAccountOnce lib a).run (diskHandle out a.boundaryManifest) w =
      (.ok result, w') →
    w'.handed = w.handed ∧
      ((∀ row ∈ w'.manifest, Inverts json row) →
        loadBoundaryHandoffCandidates json w'.staging (some a.boundaryManifest) =
          .ok (w'.manifest.map (·.loaded)))

/-- With a page processor the manifest of every poll that returns is a copy of what was handed
over, also when the cooldown ends it. Without one it holds the rows that were written, and none
was handed over. -/
theorem manifest_copies_handoff (lib : ClientLib) (json : JsonLib) (out : Outside) (a : PollArgs)
    (hdir : ∀ part ∈ a.stagingDir, IsPart part) (hhex : HexDigests lib) (w : ClientState) :
    (a.hasProcessor = true → CopiesHandoff lib json out a w) ∧
      (a.hasProcessor = false → WritesRows lib json out a w) := by
  constructor
  · intro hproc result w' hrun
    obtain ⟨hfile, hhanded, hplaced⟩ := mirrors_of_run hhex hdir hrun
    rw [PollArgs.handedRows, if_pos hproc] at hhanded
    exact ⟨w'.manifest, hhanded, fun hinv => load_manifest hfile hinv hplaced⟩
  · intro hproc result w' hrun
    obtain ⟨hfile, hhanded, hplaced⟩ := mirrors_of_run hhex hdir hrun
    refine ⟨?_, fun hinv => load_manifest hfile hinv hplaced⟩
    rw [hhanded, PollArgs.handedRows, hproc]
    exact List.append_nil _

/-! ## A poll without a processor -/

/-- One page with one file. -/
def oneFile : Payload :=
  [("value", .arr [fileItem "a"]), ("@odata.deltaLink", .str "https://graph/delta?1")]

def oneFileServer : Outside :=
  { twoFilesServer with
    get := fun _ url bearer =>
      if bearer.isNone then .response ⟨200, none, [[0]], none, none⟩
      else if url = buildInitialDeltaUrl "/Camera Roll" then
        .response ⟨200, some (.obj oneFile), [], none, none⟩
      else .response ⟨404, none, [], none, none⟩ }

/-- The row of the file. -/
def oneFileRow : DownloadedHandoffCandidate where
  accountName := "alice"
  onedriveId := "a"
  originalFilename := "a.jpg"
  relativePath := ""
  modifiedTime := "2024-01-01T00:00:00Z"
  sizeBytes := some 1
  stagingPath := ["staging", "alice", "a.jpg"]

/-- `json.loads` as far as the line of one row is concerned. -/
def rowJson (row : DownloadedHandoffCandidate) : JsonLib where
  loads text := if text = row.dumps then some (.obj row.payload) else none
  str _ := ""

theorem inverts_rowJson (row : DownloadedHandoffCandidate) : Inverts (rowJson row) row := if_pos rfl

/-- The arguments of the poll, with a page processor or without. -/
def oneFileArgs (hasProcessor : Bool) : PollArgs := { plainArgs with hasProcessor := hasProcessor }

def oneFilePoll (hasProcessor : Bool) : Except ClientError PollResult × ClientState :=
  (pollAccountOnce sizeLib (oneFileArgs hasProcessor)).run
    (diskHandle oneFileServer (oneFileArgs hasProcessor).boundaryManifest) emptyState

theorem oneFilePoll_leaves :
    ∀ hasProcessor, (oneFilePoll hasProcessor).1.toOption.any (fun r =>
        (r.deltaAnomalyCounts.get "delta_breaker_cooldown_active").isNone) = true ∧
      (oneFilePoll hasProcessor).2.manifest = [oneFileRow] := by decide +kernel

/-- With a processor the row is handed over and loaded. -/
theorem one_file_copied :
    (∃ result, (oneFilePoll true).1 = .ok result) ∧
    (oneFilePoll true).2.manifest = [oneFileRow] ∧
    CopiesHandoff sizeLib (rowJson oneFileRow) oneFileServer (oneFileArgs true) emptyState := by
  refine ⟨?_, (oneFilePoll_leaves true).2, (manifest_copies_handoff sizeLib _ _ _ (by decide)
    (fun text c hc => by simp [sizeLib] at hc) emptyState).1 rfl⟩
  have hok := (oneFilePoll_leaves true).1
  cases hrun : (oneFilePoll true).1 with
  | error e =>
    rw [hrun] at hok
    cases hok
  | ok result => exact ⟨result, rfl⟩

/-- Without a processor a manifest with rows is no copy: nothing was handed over. -/
theorem not_copiesHandoff {lib : ClientLib} {json : JsonLib} {out : Outside} {a : PollArgs}
    {w w' : ClientState} {result : PollResult} (hhex : HexDigests lib)
    (hdir : ∀ part ∈ a.stagingDir, IsPart part) (hproc : a.hasProcessor = false)
    (hrun : (pollAccountOnce lib a).run (diskHandle out a.boundaryManifest) w = (.ok result, w'))
    (hinv : ∀ row ∈ w'.manifest, Inverts json row) (hne : w'.manifest ≠ []) :
    ¬ CopiesHandoff lib json out a w := by
  intro hcopies
  obtain ⟨hfile, hhanded, hplaced⟩ := mirrors_of_run hhex hdir hrun
  obtain ⟨rows, hrows, hload⟩ := hcopies result w' hrun
  obtain rfl : rows = [] := by
    rw [hhanded, PollArgs.handedRows, hproc] at hrows
    exact (List.append_cancel_left hrows).symm
  have hloaded := load_manifest hfile hinv hplaced
  rw [hload (by simp)] at hloaded
  exact hne (List.map_eq_nil_iff.mp (Except.ok.inj hloaded).symm)

/-- Without a processor the poll returns past the cooldown check and hands over nothing, but its
manifest has the row. -/
theorem manifest_without_processor :
    (oneFilePoll false).1.toOption.any (fun r =>
      (r.deltaAnomalyCounts.get "delta_breaker_cooldown_active").isNone) = true ∧
    (∀ row ∈ (oneFilePoll false).2.manifest, Inverts (rowJson oneFileRow) row) ∧
    ¬ CopiesHandoff sizeLib (rowJson oneFileRow) oneFileServer (oneFileArgs false) emptyState := by
  obtain ⟨hpast, hrow⟩ := oneFilePoll_leaves false
  have hinv : ∀ row ∈ (oneFilePoll false).2.manifest, Inverts (rowJson oneFileRow) row := by
    rw [hrow, List.forall_mem_singleton]
    exact inverts_rowJson oneFileRow
  refine ⟨hpast, hinv, ?_⟩
  cases hrun : oneFilePoll false with
  | mk r w' =>
    rw [hrun] at hpast hinv hrow
    cases r with
    | error e => cases hpast
    | ok result =>
      have hhex : HexDigests sizeLib := fun text c hc => by simp [sizeLib] at hc
      exact not_copiesHandoff hhex (by decide) rfl hrun hinv (hrow ▸ List.cons_ne_nil _ _)

end Nightfall.OneDrive
