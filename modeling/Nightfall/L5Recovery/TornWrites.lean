import Nightfall.L2Registry.JournalText

/-!
# Torn journal writes

A crash cuts an append short after any number of characters. What it leaves is
the start of a line without its newline, and the next append is written behind
it on that same line, which then decodes to nothing: both records are gone,
although the second append returned.

The file is followed through a run as complete lines and an unfinished rest that
starts with a brace: such a rest may decode to anything, but not to a value the
reader raises on.

* `kept_step`: one append, whole or torn.
* `returned_read`: a whole run of appends.
-/
namespace Nightfall
open Nightfall.Core Storage

/-- One append: it returned, or a crash let only so many characters of its line
reach the file. -/
inductive JournalWrite where
  | returned (rec : TextRecord)
  | torn (rec : TextRecord) (n : Nat)

namespace JournalWrite

def chunk : JournalWrite → List Char
  | .returned rec => rec.line
  | .torn rec n => rec.line.take n

def record? : JournalWrite → Option TextRecord
  | .returned rec => some rec
  | .torn _ _ => none

/-- The file before the append is within the limit. -/
def Below (maxBytes : Nat) (j : TextJournal) (_ : JournalWrite) : Prop :=
  ∀ text ∈ j.active, text.length < maxBytes

/-- An append that returned found no unfinished line before it, and its
operation id and phase are neither blank nor have blanks around them. -/
def OnOwnLine (j : TextJournal) : JournalWrite → Prop
  | .returned rec => rec.Plain ∧ ∀ text ∈ j.active, text = [] ∨ text.getLast? = some '\n'
  | .torn _ _ => True

end JournalWrite

/-- The journal after the appends. -/
def runWrites (maxBytes : Nat) : List JournalWrite → TextJournal → TextJournal
  | [], j => j
  | x :: xs, j => runWrites maxBytes xs (j.write maxBytes x.chunk)

/-- The records whose append returned, in order. -/
def returnedRecords (xs : List JournalWrite) : List TextRecord := xs.filterMap JournalWrite.record?

/-- Every append of the run finds the journal as said. -/
def EveryWrite (maxBytes : Nat) (P : TextJournal → JournalWrite → Prop) :
    List JournalWrite → TextJournal → Prop
  | [], _ => True
  | x :: xs, j => P j x ∧ EveryWrite maxBytes P xs (j.write maxBytes x.chunk)

/-! ## Complete lines and the rest -/

section Lines
variable {lib : JsonLib}

/-- Whatever follows, these lines are read as these records in front of it. -/
def Reads (lib : JsonLib) (lines : List Char) (read : List TextRecord) : Prop :=
  ∀ text rest, readText lib text = .ok rest → readText lib (lines ++ text) = .ok (read ++ rest)

theorem reads_nil : Reads lib [] [] := fun _ _ h => h

theorem Reads.append {lines lines' : List Char} {read read' : List TextRecord}
    (h : Reads lib lines read) (h' : Reads lib lines' read') :
    Reads lib (lines ++ lines') (read ++ read') := by
  intro text rest htext
  rw [List.append_assoc, List.append_assoc]
  exact h _ _ (h' _ _ htext)

theorem reads_line {line : List Char} {read : List TextRecord} (hline : '\n' ∉ line)
    (h : readLine lib line = .ok read) : Reads lib (line ++ ['\n']) read := by
  intro text rest htext
  rw [List.append_assoc]
  exact readText_append (readText_line hline h) htext

/-- Nothing, or a text that starts with a brace. -/
def Brace (text : List Char) : Prop := text = [] ∨ ∃ rest, text = '{' :: rest

theorem Brace.append {text text' : List Char} (h : Brace text) (h' : Brace text') :
    Brace (text ++ text') := by
  rcases h with rfl | ⟨rest, rfl⟩
  · exact h'
  · exact .inr ⟨rest ++ text', rfl⟩

theorem brace_dumps (fields : List (String × Option String)) : Brace (dumps fields) :=
  .inr ⟨_, rfl⟩

theorem Brace.take {text : List Char} (h : Brace text) (n : Nat) : Brace (text.take n) := by
  rcases h with rfl | ⟨rest, rfl⟩
  · exact .inl List.take_nil
  · cases n with
    | zero => exact .inl rfl
    | succ n => exact .inr ⟨rest.take n, rfl⟩

theorem Brace.readLine {recs : List TextRecord} (hlib : Decodes lib recs) {text : List Char}
    (h : Brace text) : ∃ read, readLine lib text = .ok read := by
  rcases h with rfl | ⟨rest, rfl⟩
  · exact ⟨[], readLine_nil⟩
  · exact readLine_brace hlib rest

/-- The records are read from complete lines; what follows them is unfinished. -/
def LinesKept (lib : JsonLib) (recs : List TextRecord) (text : List Char) : Prop :=
  ∃ lines rest read, text = lines ++ rest ∧ Reads lib lines read ∧ recs.Sublist read ∧
    '\n' ∉ rest ∧ Brace rest

theorem LinesKept.readText {recs recs' : List TextRecord} {text : List Char}
    (h : LinesKept lib recs text)
    (hlib : Decodes lib recs') : ∃ read, readText lib text = .ok read ∧ recs.Sublist read := by
  obtain ⟨lines, rest, read, rfl, hreads, hsub, hnew, hbrace⟩ := h
  obtain ⟨more, hmore⟩ := hbrace.readLine hlib
  exact ⟨read ++ more, hreads _ _ (readText_line hnew hmore),
    hsub.trans (List.sublist_append_left read more)⟩

/-- A complete line behind the rest: it may come out as anything but an
exception. -/
theorem LinesKept.line {recs recs' : List TextRecord} {text : List Char}
    (h : LinesKept lib recs text)
    (hlib : Decodes lib recs') (fields : List (String × Option String)) :
    LinesKept lib recs (text ++ (dumps fields ++ ['\n'])) := by
  obtain ⟨lines, rest, read, rfl, hreads, hsub, hnew, hbrace⟩ := h
  obtain ⟨more, hmore⟩ := (hbrace.append (brace_dumps fields)).readLine hlib
  have hnew' : '\n' ∉ rest ++ dumps fields := by simp [hnew, newline_notMem_dumps]
  refine ⟨lines ++ (rest ++ dumps fields ++ ['\n']), [], read ++ more, by simp,
    hreads.append (reads_line hnew' hmore), hsub.trans (List.sublist_append_left read more),
    by simp, .inl rfl⟩

theorem LinesKept.torn {recs recs' : List TextRecord} {text : List Char}
    (h : LinesKept lib recs text)
    (hlib : Decodes lib recs') (rec : TextRecord) (n : Nat) :
    LinesKept lib recs (text ++ rec.line.take n) := by
  by_cases hwhole : rec.line.length ≤ n
  · rw [List.take_of_length_le hwhole]
    exact h.line hlib rec.fields
  · have hpart : rec.line.take n = (dumps rec.fields).take n := by
      rw [TextRecord.line, List.take_append_of_le_length]
      simp only [TextRecord.line, List.length_append, List.length_singleton] at hwhole
      omega
    obtain ⟨lines, rest, read, rfl, hreads, hsub, hnew, hbrace⟩ := h
    have hnew' : '\n' ∉ (dumps rec.fields).take n :=
      fun hmem => newline_notMem_dumps _ (List.mem_of_mem_take hmem)
    rw [hpart, List.append_assoc]
    exact ⟨lines, _, read, rfl, hreads, hsub, by simp [hnew, hnew'],
      hbrace.append ((brace_dumps rec.fields).take n)⟩

/-- Behind a newline, or in an empty file, the line is its own. -/
theorem LinesKept.returned {recs : List TextRecord} {rec : TextRecord} {text : List Char}
    (h : LinesKept lib recs text) (hlib : lib.loads (dumps rec.fields) = some (.obj rec.payload))
    (hplain : rec.Plain) (hstart : text = [] ∨ text.getLast? = some '\n') :
    LinesKept lib (recs ++ [rec]) (text ++ rec.line) := by
  obtain ⟨lines, rest, read, rfl, hreads, hsub, hnew, -⟩ := h
  have hrest : rest = [] := by
    rcases hstart with hnil | hlast
    · exact (List.append_eq_nil_iff.mp hnil).2
    · by_contra hne
      rw [List.getLast?_append_of_ne_nil _ hne] at hlast
      exact hnew (List.mem_of_getLast? hlast)
  subst hrest
  have hread : readLine lib (dumps rec.fields) = .ok [rec] := by
    rw [readLine_dumps hlib, hplain.readBack]
    rfl
  refine ⟨lines ++ rec.line, [], read ++ [rec], by simp,
    hreads.append (reads_line (newline_notMem_dumps _) hread), hsub.append (.refl _), by simp,
    .inl rfl⟩

end Lines

/-! ## Runs -/

variable {lib : JsonLib} {maxBytes : Nat}

theorem active_write {j : TextJournal} {chunk : List Char}
    (h : ∀ text ∈ j.active, text.length < maxBytes) :
    (j.write maxBytes chunk).active = some (j.active.getD [] ++ chunk) := by
  obtain ⟨active, rotated⟩ := j
  cases active with
  | none => rfl
  | some text => simp [TextJournal.write, TextJournal.rotateIfNeeded, h text rfl]

/-- One append keeps the records that were there and adds its own if it
returned. -/
theorem kept_step {recs : List TextRecord} {j : TextJournal} {x : JournalWrite}
    (h : LinesKept lib recs (j.active.getD [])) (hlib : Decodes lib x.record?.toList)
    (hbelow : x.Below maxBytes j) (hown : x.OnOwnLine j) :
    LinesKept lib (recs ++ x.record?.toList) ((j.write maxBytes x.chunk).active.getD []) := by
  rw [active_write hbelow, Option.getD_some]
  cases x with
  | torn rec n =>
    simpa [JournalWrite.record?, JournalWrite.chunk] using h.torn hlib rec n
  | returned rec =>
    obtain ⟨hplain, hline⟩ := hown
    refine h.returned (hlib.inverts rec (by simp [JournalWrite.record?])) hplain ?_
    cases hactive : j.active with
    | none => exact .inl rfl
    | some text => exact hline text hactive

/-- Induction on the appends. -/
theorem kept_run : ∀ {xs : List JournalWrite} {recs : List TextRecord} {j : TextJournal},
    LinesKept lib recs (j.active.getD []) → Decodes lib (returnedRecords xs) →
    EveryWrite maxBytes (fun j x => x.Below maxBytes j) xs j →
    EveryWrite maxBytes (fun j x => x.OnOwnLine j) xs j →
      LinesKept lib (recs ++ returnedRecords xs) ((runWrites maxBytes xs j).active.getD [])
  | [], recs, j, h, _, _, _ => by simpa [returnedRecords, runWrites] using h
  | x :: xs, recs, j, h, hlib, hbelow, hown => by
    have hsplit : returnedRecords (x :: xs) = x.record?.toList ++ returnedRecords xs := by
      cases hx : x.record? <;> simp [returnedRecords, hx]
    rw [hsplit] at hlib ⊢
    have hone := kept_step h
      ⟨fun r hr => hlib.inverts r (List.mem_append_left _ hr), hlib.objects⟩ hbelow.1 hown.1
    rw [← List.append_assoc]
    exact kept_run hone ⟨fun r hr => hlib.inverts r (List.mem_append_right _ hr), hlib.objects⟩
      hbelow.2 hown.2

/-- A run of appends below the limit: reading does not raise and finds, in
order, every record whose append returned, as long as each of these was written
on a line of its own. -/
theorem returned_read (xs : List JournalWrite) (hlib : Decodes lib (returnedRecords xs))
    (hbelow : EveryWrite maxBytes (fun j x => x.Below maxBytes j) xs .empty)
    (hown : EveryWrite maxBytes (fun j x => x.OnOwnLine j) xs .empty) :
    ∃ read, (runWrites maxBytes xs .empty).readAll lib = .ok read ∧
      (returnedRecords xs).Sublist read := by
  have hempty : LinesKept lib [] (TextJournal.empty.active.getD []) :=
    ⟨[], [], [], rfl, reads_nil, .refl _, by simp, .inl rfl⟩
  obtain ⟨read, hread, hsub⟩ := (kept_run hempty hlib hbelow hown).readText hlib
  unfold TextJournal.readAll
  cases hactive : (runWrites maxBytes xs TextJournal.empty).active with
  | none =>
    rw [hactive] at hread
    have hnil : read = [] := by
      have hok : (Except.ok [] : Except Unit (List TextRecord)) = .ok read := hread
      cases hok
      rfl
    exact ⟨[], rfl, hnil ▸ hsub⟩
  | some text =>
    rw [hactive] at hread
    exact ⟨read, hread, hsub⟩

/-! ## Two appends -/

def startedRecord (onedriveId : String) : TextRecord where
  opId := "alice:" ++ onedriveId ++ ":0123456789ab"
  phase := "ingest_started"
  ts := "2024-06-01T00:00:00+00:00"
  account := "alice"
  onedriveId := onedriveId
  stagingPath := "/staging/alice/" ++ onedriveId ++ ".jpg"
  destinationPath := none
  sha256 := none

/-- A decoder that knows the one record and nothing else. -/
def loadsOnly (rec : TextRecord) : JsonLib where
  loads text := if text = dumps rec.fields then some (.obj rec.payload) else none
  str _ := "None"

theorem decodes_loadsOnly (rec : TextRecord) : Decodes (loadsOnly rec) [rec] := by
  constructor
  · intro r hr
    rw [List.mem_singleton.mp hr]
    exact if_pos rfl
  · intro rest v hv
    simp only [loadsOnly] at hv
    split at hv
    · cases hv; exact ⟨_, rfl⟩
    · cases hv

/-- The torn append comes last: the record before it is read. -/
theorem torn_last_read :
    ∃ read, (runWrites 5242880 [.returned (startedRecord "a"), .torn (startedRecord "b") 5]
        .empty).readAll (loadsOnly (startedRecord "a")) = .ok read ∧
      [startedRecord "a"].Sublist read := by
  have hplain : (startedRecord "a").Plain := ⟨by decide +kernel, by decide +kernel⟩
  refine returned_read _ (decodes_loadsOnly _) ⟨?_, ?_, trivial⟩ ⟨⟨hplain, ?_⟩, trivial, trivial⟩
  · intro text htext
    cases htext
  · intro text htext
    cases htext
    decide +kernel
  · intro text htext
    cases htext

/-- The torn append comes first: the next one returns, and its record is
nowhere to be read. -/
theorem torn_first_lost :
    ¬ ∀ xs : List JournalWrite, Decodes (loadsOnly (startedRecord "b")) (returnedRecords xs) →
      EveryWrite 5242880 (fun j x => x.Below 5242880 j) xs .empty →
      ∃ read, (runWrites 5242880 xs .empty).readAll (loadsOnly (startedRecord "b")) = .ok read ∧
        (returnedRecords xs).Sublist read := by
  intro h
  have hnone : (runWrites 5242880 [.torn (startedRecord "a") 5, .returned (startedRecord "b")]
      .empty).readAll (loadsOnly (startedRecord "b")) = .ok [] := by
    decide +kernel
  have hbelow : EveryWrite 5242880 (fun j x => x.Below 5242880 j)
      [.torn (startedRecord "a") 5, .returned (startedRecord "b")] .empty := by
    refine ⟨?_, ?_, trivial⟩
    · intro text htext
      cases htext
    · intro text htext
      cases htext
      decide +kernel
  obtain ⟨read, hread, hsub⟩ := h _ (decodes_loadsOnly _) hbelow
  rw [hnone] at hread
  cases hread
  cases hsub

end Nightfall
