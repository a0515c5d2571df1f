import Nightfall.Core.Json
import Nightfall.L2Registry.Journal

/-!
# The journal as text (`domain/journal.py`)

`Journal` keeps one record a line. Here the file is the characters that were
written: an append that is cut short by a crash leaves a prefix of its line, and
the next process appends behind whatever the last one left.

How a text is decoded is a parameter (`JsonLib`); the encoding is the one
`json.dumps` has for a flat object of texts, all of it printable ASCII, so a
character is a byte.

* `readAll_ofJournal`, `ofJournal_append`: `Journal` is this file as long as
  every append returns.
-/
namespace Nightfall
open Nightfall.Core Storage

/-! ## The encoding -/

/-- `"\\u" + format(n, "04x")`. -/
def unicodeEscape (n : Nat) : List Char :=
  '\\' :: 'u' :: [n / 4096, n / 256, n / 16, n].map fun d => Nat.digitChar (d % 16)

/-- A character of a JSON text: `ensure_ascii` leaves the printable ASCII ones. -/
def jsonChar (c : Char) : List Char :=
  if c = '"' then ['\\', '"']
  else if c = '\\' then ['\\', '\\']
  else if c = '\n' then ['\\', 'n']
  else if c = '\r' then ['\\', 'r']
  else if c = '\t' then ['\\', 't']
  else if c.toNat = 12 then ['\\', 'f']
  else if c.toNat = 8 then ['\\', 'b']
  else if 32 ≤ c.toNat ∧ c.toNat ≤ 126 then [c]
  else if c.toNat < 0x10000 then unicodeEscape c.toNat
  else
    let n := c.toNat - 0x10000
    unicodeEscape (0xd800 + n / 0x400) ++ unicodeEscape (0xdc00 + n % 0x400)

def jsonString (s : String) : List Char := '"' :: s.toList.flatMap jsonChar ++ ['"']

def jsonValue : Option String → List Char
  | none => "null".toList
  | some s => jsonString s

/-- `"key":value` -/
def jsonField (field : String × Option String) : List Char :=
  jsonString field.1 ++ ':' :: jsonValue field.2

/-- `json.dumps(fields, separators=(",", ":"))` of a flat object. -/
def dumps (fields : List (String × Option String)) : List Char :=
  '{' :: [','].intercalate (fields.map jsonField) ++ ['}']

/-! ## Records and lines -/

/-- The record with the texts the file has. -/
structure TextRecord where
  opId : String
  phase : String
  ts : String
  account : String
  onedriveId : String
  stagingPath : String
  destinationPath : Option String
  sha256 : Option String
  deriving DecidableEq, Repr

namespace TextRecord

/-- The payload of `append`, its keys sorted. -/
def fields (rec : TextRecord) : List (String × Option String) :=
  [("account", some rec.account), ("destination_path", rec.destinationPath),
    ("onedrive_id", some rec.onedriveId), ("op_id", some rec.opId), ("phase", some rec.phase),
    ("sha256", rec.sha256), ("staging_path", some rec.stagingPath), ("ts", some rec.ts)]

/-- The object the payload is read back as. -/
def payload (rec : TextRecord) : Payload :=
  rec.fields.map fun field => (field.1, field.2.elim .null .str)

def line (rec : TextRecord) : List Char := dumps rec.fields ++ ['\n']

/-- Reading leaves the operation id and the phase as they are. -/
structure Plain (rec : TextRecord) : Prop where
  opId : pyStrip rec.opId = rec.opId ∧ rec.opId ≠ ""
  phase : pyStrip rec.phase = rec.phase ∧ rec.phase ≠ ""

end TextRecord

/-! ## Reading -/

/-- What the reader uses of Python. -/
structure JsonLib where
  /-- `json.loads`, `none` for `JSONDecodeError` -/
  loads : List Char → Option Json
  /-- `str(value)` of a value that is no text -/
  str : Json → String

def JsonLib.text (lib : JsonLib) : Json → String
  | .str s => s
  | v => lib.str v

/-- `str(raw.get(key, ""))`. -/
def JsonLib.field (lib : JsonLib) (raw : Payload) (key : String) : String :=
  ((raw.lookup key).map lib.text).getD ""

/-- `str(raw.get(key)) if raw.get(key) is not None else None`. -/
def JsonLib.optionalField (lib : JsonLib) (raw : Payload) (key : String) : Option String :=
  match raw.get key with
  | .null => none
  | v => some (lib.text v)

/-- The record of a decoded object, `none` when it is skipped. -/
def recordOf (lib : JsonLib) (raw : Payload) : Option TextRecord :=
  let opId := pyStrip (lib.field raw "op_id")
  let phase := pyStrip (lib.field raw "phase")
  if opId = "" ∨ phase = "" then none
  else some {
    opId := opId
    phase := phase
    ts := lib.field raw "ts"
    account := lib.field raw "account"
    onedriveId := lib.field raw "onedrive_id"
    stagingPath := lib.field raw "staging_path"
    destinationPath := lib.optionalField raw "destination_path"
    sha256 := lib.optionalField raw "sha256" }

/-- One line; a value that is no object has no `get`, and the reader raises. -/
def readLine (lib : JsonLib) (line : List Char) : Except Unit (List TextRecord) :=
  let stripped := stripBy isPySpace line
  if stripped = [] then .ok []
  else
    match lib.loads stripped with
    | none => .ok []
    | some (.obj raw) => .ok (recordOf lib raw).toList
    | some _ => .error ()

def readLines (lib : JsonLib) : List (List Char) → Except Unit (List TextRecord)
  | [] => .ok []
  | line :: lines => do return (← readLine lib line) ++ (← readLines lib lines)

def readText (lib : JsonLib) (text : List Char) : Except Unit (List TextRecord) :=
  readLines lib (text.splitOn '\n')

/-- The active journal file and the rotated one; `none` when absent. -/
structure TextJournal where
  active : Option (List Char)
  rotated : Option (List Char)

namespace TextJournal

def empty : TextJournal := ⟨none, none⟩

/-- mirrors src/nightfall_photo_ingress/domain/journal.py:117-124 -/
def rotateIfNeeded (j : TextJournal) (maxBytes : Nat) : TextJournal :=
  match j.active with
  | none => j
  | some text => if text.length < maxBytes then j else ⟨none, some text⟩

/-- What an append leaves when `chunk` of its line reached the file.
mirrors src/nightfall_photo_ingress/domain/journal.py:43-72 -/
def write (j : TextJournal) (maxBytes : Nat) (chunk : List Char) : TextJournal :=
  let j := j.rotateIfNeeded maxBytes
  { j with active := some (j.active.getD [] ++ chunk) }

/-- mirrors src/nightfall_photo_ingress/domain/journal.py:74-110 -/
def readAll (j : TextJournal) (lib : JsonLib) : Except Unit (List TextRecord) :=
  match j.active with
  | none => .ok []
  | some text => readText lib text

end TextJournal

/-! ## What the encoding looks like -/

theorem isPySpace_brace : isPySpace '{' = false ∧ isPySpace '}' = false := by decide

/-- The characters `ensure_ascii` leaves. -/
def IsPrintable (c : Char) : Prop := 32 ≤ c.toNat ∧ c.toNat ≤ 126

instance (c : Char) : Decidable (IsPrintable c) := inferInstanceAs (Decidable (_ ∧ _))

theorem IsPrintable.ne {c d : Char} (h : IsPrintable c) (hd : ¬ IsPrintable d) : c ≠ d := by
  rintro rfl
  exact hd h

theorem printable_of_all {cs : List Char} (h : cs.all (IsPrintable ·) = true) :
    ∀ d ∈ cs, IsPrintable d := fun d hd => of_decide_eq_true (List.all_eq_true.mp h d hd)

theorem printable_unicodeEscape (n : Nat) : ∀ d ∈ unicodeEscape n, IsPrintable d := by
  have hdigit : ∀ m, IsPrintable (Nat.digitChar (m % 16)) := by
    have hall : ∀ m < 16, IsPrintable (Nat.digitChar m) := by decide
    exact fun m => hall _ (Nat.mod_lt m (by omega))
  rw [unicodeEscape, List.forall_mem_cons, List.forall_mem_cons, List.forall_mem_map]
  exact ⟨by decide, by decide, fun d _ => hdigit d⟩

theorem printable_ite {p : Prop} [Decidable p] {cs cs' : List Char}
    (h : p → ∀ d ∈ cs, IsPrintable d) (h' : ∀ d ∈ cs', IsPrintable d) :
    ∀ d ∈ if p then cs else cs', IsPrintable d :=
  iteInduction (motive := fun cs => ∀ d ∈ cs, IsPrintable d) h fun _ => h'

theorem printable_jsonChar (c : Char) : ∀ d ∈ jsonChar c, IsPrintable d := by
  unfold jsonChar
  refine printable_ite (fun _ => printable_of_all (by decide)) ?_
  refine printable_ite (fun _ => printable_of_all (by decide)) ?_
  refine printable_ite (fun _ => printable_of_all (by decide)) ?_
  refine printable_ite (fun _ => printable_of_all (by decide)) ?_
  refine printable_ite (fun _ => printable_of_all (by decide)) ?_
  refine printable_ite (fun _ => printable_of_all (by decide)) ?_
  refine printable_ite (fun _ => printable_of_all (by decide)) ?_
  refine printable_ite (fun hascii => List.forall_mem_singleton.mpr hascii) ?_
  refine printable_ite (fun _ => printable_unicodeEscape _) ?_
  exact List.forall_mem_append.mpr ⟨printable_unicodeEscape _, printable_unicodeEscape _⟩

theorem printable_jsonString (s : String) : ∀ c ∈ jsonString s, IsPrintable c := by
  simp only [jsonString, List.cons_append, List.forall_mem_cons, List.forall_mem_append,
    List.forall_mem_flatMap]
  exact ⟨by decide, fun c _ => printable_jsonChar c, by decide, nofun⟩

theorem printable_jsonField (field : String × Option String) :
    ∀ c ∈ jsonField field, IsPrintable c := by
  obtain ⟨key, value⟩ := field
  rw [jsonField, List.forall_mem_append, List.forall_mem_cons]
  have hnull : ∀ c ∈ "null".toList, IsPrintable c := printable_of_all (by decide)
  refine ⟨printable_jsonString key, by decide, ?_⟩
  cases value with
  | none => exact hnull
  | some s => exact printable_jsonString s

/-- What holds of the separator and of every part holds of the joined text. -/
theorem forall_mem_intercalate {P : Char → Prop} {sep : List Char} (hsep : ∀ c ∈ sep, P c) :
    ∀ {parts : List (List Char)}, (∀ part ∈ parts, ∀ c ∈ part, P c) →
      ∀ c ∈ sep.intercalate parts, P c
  | [], _ => by simp [List.intercalate]
  | [part], h => by simpa [List.intercalate] using h
  | part :: next :: parts, h => by
    rw [List.forall_mem_cons] at h
    rw [List.intercalate_cons_cons, List.forall_mem_append, List.forall_mem_append]
    exact ⟨⟨h.1, hsep⟩, forall_mem_intercalate hsep h.2⟩

theorem printable_dumps (fields : List (String × Option String)) :
    ∀ c ∈ dumps fields, IsPrintable c := by
  rw [dumps, List.cons_append, List.forall_mem_cons, List.forall_mem_append]
  refine ⟨by decide, forall_mem_intercalate (printable_of_all (by decide)) fun part hpart => ?_,
    printable_of_all (by decide)⟩
  obtain ⟨field, -, rfl⟩ := List.mem_map.mp hpart
  exact printable_jsonField field

/-- An encoded object is one line. -/
theorem newline_notMem_dumps (fields : List (String × Option String)) : '\n' ∉ dumps fields :=
  fun h => absurd (printable_dumps fields _ h) (by decide)

/-- A text that starts and ends with no blank is its own strip. -/
theorem stripBy_self {p : Char → Bool} {first last : Char} (mid : List Char)
    (hfirst : p first = false) (hlast : p last = false) :
    stripBy p (first :: mid ++ [last]) = first :: mid ++ [last] := by
  simp [stripBy, hfirst, hlast]

theorem stripBy_dumps (fields : List (String × Option String)) :
    stripBy isPySpace (dumps fields) = dumps fields :=
  stripBy_self _ isPySpace_brace.1 isPySpace_brace.2

/-- A text that starts with a brace still does when it is stripped. -/
theorem stripBy_brace (rest : List Char) :
    ∃ rest', stripBy isPySpace ('{' :: rest) = '{' :: rest' := by
  have hbrace := isPySpace_brace.1
  rw [stripBy, List.dropWhile_cons_of_neg (by simp [hbrace]), List.reverse_cons,
    List.dropWhile_append]
  split
  · exact ⟨[], by simp [hbrace]⟩
  · exact ⟨(rest.reverse.dropWhile isPySpace).reverse, by simp⟩

/-! ## What is read back -/

variable {lib : JsonLib}

/-- What is relied on of the decoder: it inverts the encoding of these records,
and a text that starts with a brace decodes to an object if at all. -/
structure Decodes (lib : JsonLib) (recs : List TextRecord) : Prop where
  inverts : ∀ rec ∈ recs, lib.loads (dumps rec.fields) = some (.obj rec.payload)
  objects : ∀ rest v, lib.loads ('{' :: rest) = some v → ∃ raw, v = .obj raw

/-- The record that is read back, `none` when it is skipped. -/
def TextRecord.readBack (rec : TextRecord) : Option TextRecord :=
  if pyStrip rec.opId = "" ∨ pyStrip rec.phase = "" then none
  else some { rec with opId := pyStrip rec.opId, phase := pyStrip rec.phase }

theorem JsonLib.field_of_str {raw : Payload} {key s : String}
    (h : raw.lookup key = some (.str s)) : lib.field raw key = s := by
  simp [JsonLib.field, h, JsonLib.text]

theorem recordOf_payload (rec : TextRecord) : recordOf lib rec.payload = rec.readBack := by
  obtain ⟨opId, phase, ts, account, onedriveId, stagingPath, destinationPath, sha256⟩ := rec
  have hfield : ∀ raw : Payload, ∀ key s, raw.lookup key = some (.str s) →
      lib.field raw key = s := fun raw key s => JsonLib.field_of_str
  have hoptional : ∀ raw : Payload, ∀ key, ∀ s : Option String,
      raw.lookup key = some (s.elim .null .str) → lib.optionalField raw key = s := by
    intro raw key s hs
    cases s <;> simp [JsonLib.optionalField, Payload.get, hs, JsonLib.text]
  unfold recordOf
  rw [hfield _ "op_id" opId rfl, hfield _ "phase" phase rfl, hfield _ "ts" ts rfl,
    hfield _ "account" account rfl, hfield _ "onedrive_id" onedriveId rfl,
    hfield _ "staging_path" stagingPath rfl, hoptional _ "destination_path" destinationPath rfl,
    hoptional _ "sha256" sha256 rfl]
  rfl

theorem TextRecord.Plain.readBack {rec : TextRecord} (h : rec.Plain) : rec.readBack = some rec := by
  rw [TextRecord.readBack, h.opId.1, h.phase.1, if_neg (by simp [h.opId.2, h.phase.2])]

theorem dumps_ne_nil (fields : List (String × Option String)) : dumps fields ≠ [] := by
  simp [dumps]

theorem readLine_dumps {rec : TextRecord}
    (hinv : lib.loads (dumps rec.fields) = some (.obj rec.payload)) :
    readLine lib (dumps rec.fields) = .ok rec.readBack.toList := by
  simp only [readLine, stripBy_dumps, if_neg (dumps_ne_nil _), hinv, recordOf_payload]

/-- A line that starts with a brace never makes the reader raise. -/
theorem readLine_brace {recs : List TextRecord} (h : Decodes lib recs) (rest : List Char) :
    ∃ read, readLine lib ('{' :: rest) = .ok read := by
  obtain ⟨rest', hrest⟩ := stripBy_brace rest
  unfold readLine
  simp only [hrest, reduceCtorEq, if_false]
  cases hv : lib.loads ('{' :: rest') with
  | none => exact ⟨[], rfl⟩
  | some v =>
    obtain ⟨raw, rfl⟩ := h.objects _ _ hv
    exact ⟨_, rfl⟩

theorem readLine_nil : readLine lib [] = .ok [] := rfl

theorem readLines_append {lines lines' : List (List Char)} {read read' : List TextRecord}
    (h : readLines lib lines = .ok read) (h' : readLines lib lines' = .ok read') :
    readLines lib (lines ++ lines') = .ok (read ++ read') := by
  induction lines generalizing read with
  | nil =>
    cases h
    exact h'
  | cons line lines ih =>
    rw [readLines] at h
    rw [List.cons_append, readLines]
    cases hline : readLine lib line with
    | error e => rw [hline] at h; cases h
    | ok one =>
      rw [hline] at h
      cases hrest : readLines lib lines with
      | error e => rw [hrest] at h; cases h
      | ok rest =>
        rw [hrest] at h
        cases h
        rw [ih hrest]
        exact congrArg Except.ok (List.append_assoc one rest read').symm

/-- A file without a newline is one line. -/
theorem readText_line {line : List Char} {read : List TextRecord} (hline : '\n' ∉ line)
    (h : readLine lib line = .ok read) : readText lib line = .ok read := by
  rw [readText, List.splitOn_eq_singleton hline, readLines, h]
  exact congrArg Except.ok (List.append_nil read)

/-- What stands before a newline and behind it is read apart. -/
theorem readText_append {text text' : List Char} {read read' : List TextRecord}
    (h : readText lib text = .ok read) (h' : readText lib text' = .ok read') :
    readText lib (text ++ '\n' :: text') = .ok (read ++ read') := by
  rw [readText, List.splitOn_append_cons_self]
  exact readLines_append h h'

/-- A whole line in front of a file. -/
theorem readText_cons {rec : TextRecord} {text : List Char} {read : List TextRecord}
    (hinv : lib.loads (dumps rec.fields) = some (.obj rec.payload))
    (h : readText lib text = .ok read) :
    readText lib (rec.line ++ text) = .ok (rec.readBack.toList ++ read) := by
  rw [TextRecord.line, List.append_assoc]
  exact readText_append (readText_line (newline_notMem_dumps _) (readLine_dumps hinv)) h

/-! ## The journal of records is this file -/

def JournalPhase.str : JournalPhase → String
  | .ingestStarted => "ingest_started"
  | .missingStaged => "missing_staged"
  | .sizeMismatch => "size_mismatch"
  | .hashCompleted => "hash_completed"
  | .storageCommitted => "storage_committed"
  | .registryPersisted => "registry_persisted"

theorem JournalPhase.pyStrip_str (phase : JournalPhase) :
    pyStrip phase.str = phase.str ∧ phase.str ≠ "" := by
  cases phase <;> decide

def JournalRecord.text (rec : JournalRecord) : TextRecord where
  opId := rec.opId
  phase := rec.phase.str
  ts := rec.ts
  account := rec.account
  onedriveId := rec.onedriveId
  stagingPath := rec.stagingPath.str
  destinationPath := rec.destinationPath.map Path.str
  sha256 := rec.sha256

theorem readBack_text (rec : JournalRecord) :
    rec.text.readBack = if pyStrip rec.opId = "" then none else some rec.stripped.text := by
  obtain ⟨hstrip, hne⟩ := rec.phase.pyStrip_str
  have hphase : pyStrip rec.text.phase = rec.phase.str := hstrip
  rw [TextRecord.readBack, hphase]
  simp only [hne, or_false]
  rfl

/-- The lines of the records. -/
def linesOf (recs : List JournalRecord) : List Char := recs.flatMap fun rec => rec.text.line

def TextJournal.ofJournal (j : Journal) : TextJournal :=
  ⟨j.active.map linesOf, j.rotated.map linesOf⟩

def JournalRecord.lineLength (rec : JournalRecord) : Nat := rec.text.line.length

theorem length_linesOf (recs : List JournalRecord) :
    (linesOf recs).length = (recs.map JournalRecord.lineLength).sum := by
  rw [linesOf, List.length_flatMap]
  rfl

/-- An append that returns is the append of a record. -/
theorem ofJournal_append (j : Journal) (maxBytes : Nat) (rec : JournalRecord) :
    TextJournal.ofJournal (j.append JournalRecord.lineLength maxBytes rec) =
      (TextJournal.ofJournal j).write maxBytes rec.text.line := by
  obtain ⟨active, rotated⟩ := j
  cases active with
  | none => simp [TextJournal.ofJournal, Journal.append, Journal.rotateIfNeeded, TextJournal.write,
      TextJournal.rotateIfNeeded, linesOf]
  | some recs =>
    simp only [Journal.append, Journal.rotateIfNeeded, TextJournal.write, TextJournal.ofJournal,
      TextJournal.rotateIfNeeded, Option.map_some, length_linesOf]
    by_cases hroom : (recs.map JournalRecord.lineLength).sum < maxBytes
    · simp [if_pos hroom, linesOf]
    · simp [if_neg hroom, linesOf]

/-- By induction on the records of the file. -/
theorem readText_linesOf {recs : List JournalRecord}
    (h : Decodes lib (recs.map JournalRecord.text)) :
    readText lib (linesOf recs) = .ok (((recs.map JournalRecord.stripped).filter
      (·.opId != "")).map JournalRecord.text) := by
  induction recs with
  | nil => rfl
  | cons rec recs ih =>
    have hrest := ih ⟨fun r hr => h.inverts r (List.mem_cons_of_mem _ hr), h.objects⟩
    have hline := readText_cons (h.inverts rec.text (by simp)) hrest
    rw [linesOf, List.flatMap_cons]
    refine hline.trans (congrArg Except.ok ?_)
    rw [readBack_text]
    by_cases hid : pyStrip rec.opId = ""
    · simp [hid, JournalRecord.stripped]
    · simp [hid, JournalRecord.stripped]

/-- Reading the file is reading the records. -/
theorem readAll_ofJournal {j : Journal}
    (h : Decodes lib ((j.active.getD []).map JournalRecord.text)) :
    (TextJournal.ofJournal j).readAll lib = .ok (j.readAll.map JournalRecord.text) := by
  obtain ⟨active, rotated⟩ := j
  cases active with
  | none => rfl
  | some recs => exact readText_linesOf h

end Nightfall
