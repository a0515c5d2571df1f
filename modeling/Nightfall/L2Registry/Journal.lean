import Mathlib.Data.List.Induction
import Mathlib.Algebra.GroupWithZero.Nat
import Nightfall.L1Storage.Names

/-!
# The ingest operation journal (`domain/journal.py`)

An append-only file of phase records with one rotated predecessor. A line is
kept as its record; `lineBytes` gives the length its JSON text has, which only
the rotation test reads.

* `mem_byOp`: the grouping `replay_interrupted_operations` builds holds, for
  each operation id, exactly the records of that id in file order.
* `readAll_append`: an append adds one record behind those that were there, or
  behind none when it rotated.
-/
namespace Nightfall
open Storage

/-- The phases `_process_one` writes. -/
inductive JournalPhase where
  | ingestStarted
  | missingStaged
  | sizeMismatch
  | hashCompleted
  | storageCommitted
  | registryPersisted
  deriving DecidableEq, Repr

structure JournalRecord where
  opId : String
  phase : JournalPhase
  ts : String
  account : String
  onedriveId : String
  stagingPath : Path
  destinationPath : Option Path
  sha256 : Option String
  deriving DecidableEq, Repr

/-- The record as reading returns it. -/
def JournalRecord.stripped (rec : JournalRecord) : JournalRecord :=
  { rec with opId := pyStrip rec.opId }

/-- The active journal file and the rotated one; `none` when absent. -/
structure Journal where
  active : Option (List JournalRecord)
  rotated : Option (List JournalRecord)

namespace Journal

def empty : Journal := ⟨none, none⟩

/-- mirrors src/nightfall_photo_ingress/domain/journal.py:117-124 -/
def rotateIfNeeded (j : Journal) (lineBytes : JournalRecord → Nat) (maxBytes : Nat) : Journal :=
  match j.active with
  | none => j
  | some recs => if (recs.map lineBytes).sum < maxBytes then j else ⟨none, some recs⟩

/-- mirrors src/nightfall_photo_ingress/domain/journal.py:43-72 -/
def append (j : Journal) (lineBytes : JournalRecord → Nat) (maxBytes : Nat) (rec : JournalRecord) :
    Journal :=
  let j := j.rotateIfNeeded lineBytes maxBytes
  { j with active := some (j.active.getD [] ++ [rec]) }

/-- Reading strips the operation id and skips a line whose id is blank.
mirrors src/nightfall_photo_ingress/domain/journal.py:74-110 -/
def readAll (j : Journal) : List JournalRecord :=
  ((j.active.getD []).map JournalRecord.stripped).filter (·.opId != "")

/-- `clear`. -/
def clear (j : Journal) : Journal := { j with active := none }

/-- `by_op.setdefault(record.op_id, []).append(record)`. -/
def setdefaultAppend (byOp : List (String × List JournalRecord)) (rec : JournalRecord) :
    List (String × List JournalRecord) :=
  if byOp.any (·.1 == rec.opId) then
    byOp.map fun e => if e.1 = rec.opId then (e.1, e.2 ++ [rec]) else e
  else byOp ++ [(rec.opId, [rec])]

/-- The dictionary `by_op`, in insertion order. -/
def byOp (recs : List JournalRecord) : List (String × List JournalRecord) :=
  recs.foldl setdefaultAppend []

/-! ## What the grouping holds -/

theorem any_byOp {d : List (String × List JournalRecord)} {id : String} :
    d.any (·.1 == id) = true ↔ ∃ rs, (id, rs) ∈ d := by
  simp only [List.any_eq_true, beq_iff_eq, Prod.exists]
  constructor
  · rintro ⟨_, rs, h, rfl⟩; exact ⟨rs, h⟩
  · rintro ⟨rs, h⟩; exact ⟨id, rs, h, rfl⟩

/-- One record more: its own group grows, or a new group holds it alone. -/
theorem mem_setdefaultAppend {d : List (String × List JournalRecord)} {rec : JournalRecord}
    {id : String} {rs : List JournalRecord} :
    (id, rs) ∈ setdefaultAppend d rec ↔
      (id ≠ rec.opId ∧ (id, rs) ∈ d) ∨
      (id = rec.opId ∧ ((∃ rs', (id, rs') ∈ d ∧ rs = rs' ++ [rec]) ∨
        ((∀ rs', (id, rs') ∉ d) ∧ rs = [rec]))) := by
  unfold setdefaultAppend
  split
  · next h =>
    obtain ⟨rs₀, h₀⟩ := any_byOp.mp h
    simp only [List.mem_map]
    constructor
    · rintro ⟨⟨id', rs'⟩, hm, he⟩
      simp only at he
      split at he
      · next hid =>
        obtain ⟨rfl, rfl⟩ := Prod.mk.inj he
        exact .inr ⟨hid, .inl ⟨rs', hm, rfl⟩⟩
      · next hid =>
        obtain ⟨rfl, rfl⟩ := Prod.mk.inj he
        exact .inl ⟨hid, hm⟩
    · rintro (⟨hne, hm⟩ | ⟨rfl, ⟨rs', hm, rfl⟩ | ⟨hno, -⟩⟩)
      · exact ⟨(id, rs), hm, by simp [hne]⟩
      · exact ⟨(rec.opId, rs'), hm, by simp⟩
      · exact absurd h₀ (hno rs₀)
  · next h =>
    have hno : ∀ rs', (rec.opId, rs') ∉ d := fun rs' hm => h (any_byOp.mpr ⟨rs', hm⟩)
    simp only [List.mem_append, List.mem_singleton, Prod.mk.injEq]
    constructor
    · rintro (hm | ⟨rfl, rfl⟩)
      · refine .inl ⟨?_, hm⟩
        rintro rfl
        exact hno rs hm
      · exact .inr ⟨rfl, .inr ⟨hno, rfl⟩⟩
    · rintro (⟨-, hm⟩ | ⟨rfl, ⟨rs', hm, -⟩ | ⟨-, rfl⟩⟩)
      · exact .inl hm
      · exact absurd hm (hno rs')
      · exact .inr ⟨rfl, rfl⟩

/-- By induction from the last record, which `foldl` handles last. -/
theorem mem_byOp (recs : List JournalRecord) : ∀ {id : String} {rs : List JournalRecord},
    (id, rs) ∈ byOp recs ↔ rs = recs.filter (·.opId == id) ∧ rs ≠ [] := by
  induction recs using List.reverseRecOn with
  | nil => intro id rs; simp [byOp]
  | append_singleton recs rec ih =>
    intro id rs
    have hstep : byOp (recs ++ [rec]) = setdefaultAppend (byOp recs) rec := by
      simp [byOp, List.foldl_append]
    rw [hstep, mem_setdefaultAppend, List.filter_append]
    by_cases hid : id = rec.opId
    · subst hid
      have hone : [rec].filter (·.opId == rec.opId) = [rec] := by simp
      simp only [ih, hone, ne_eq, not_true_eq_false, false_and, true_and, false_or, not_and, not_not]
      constructor
      · rintro (⟨rs', ⟨rfl, -⟩, rfl⟩ | ⟨hno, rfl⟩)
        · exact ⟨rfl, by simp⟩
        · rw [hno _ rfl]; simp
      · rintro ⟨rfl, -⟩
        by_cases hnil : recs.filter (·.opId == rec.opId) = []
        · refine .inr ⟨?_, by rw [hnil]; rfl⟩
          rintro rs' rfl
          exact hnil
        · exact .inl ⟨_, ⟨rfl, hnil⟩, rfl⟩
    · have hno : (rec.opId == id) = false := by simp [Ne.symm hid]
      simp [ih, hid, hno]

/-! ## What an append leaves to read -/

/-- The next append finds the active file full and renames it first. -/
def rotates (j : Journal) (lineBytes : JournalRecord → Nat) (maxBytes : Nat) : Bool :=
  j.active.any fun recs => decide (maxBytes ≤ (recs.map lineBytes).sum)

theorem filter_stripped {rec : JournalRecord} (hid : pyStrip rec.opId ≠ "") :
    List.filter (fun r : JournalRecord => r.opId != "") [rec.stripped] = [rec.stripped] := by
  simp [JournalRecord.stripped, hid]

/-- A rotation drops the records before the new one. -/
theorem readAll_append_rotated {j : Journal} {lineBytes : JournalRecord → Nat} {maxBytes : Nat}
    {rec : JournalRecord} (hid : pyStrip rec.opId ≠ "") (h : j.rotates lineBytes maxBytes = true) :
    (j.append lineBytes maxBytes rec).readAll = [rec.stripped] := by
  unfold append rotateIfNeeded
  cases hact : j.active with
  | none => simp [rotates, hact] at h
  | some recs =>
    have hfull : ¬ (recs.map lineBytes).sum < maxBytes := by simpa [rotates, hact] using h
    simp only [if_neg hfull]
    simpa [readAll] using filter_stripped hid

/-- Without one the new record stands last. -/
theorem readAll_append_kept {j : Journal} {lineBytes : JournalRecord → Nat} {maxBytes : Nat}
    {rec : JournalRecord} (hid : pyStrip rec.opId ≠ "") (h : j.rotates lineBytes maxBytes = false) :
    (j.append lineBytes maxBytes rec).readAll = j.readAll ++ [rec.stripped] := by
  unfold append rotateIfNeeded
  cases hact : j.active with
  | none => simpa [readAll, hact] using filter_stripped hid
  | some recs =>
    have hroom : (recs.map lineBytes).sum < maxBytes := by simpa [rotates, hact] using h
    simp only [if_pos hroom, readAll, hact, Option.getD_some, List.map_append, List.filter_append]
    exact congrArg _ (filter_stripped hid)

/-- The new record stands last; a rotation has dropped the ones before it. -/
theorem readAll_append (j : Journal) (lineBytes : JournalRecord → Nat) (maxBytes : Nat)
    (rec : JournalRecord) (hid : pyStrip rec.opId ≠ "") :
    (j.append lineBytes maxBytes rec).readAll = j.readAll ++ [rec.stripped] ∨
      (j.append lineBytes maxBytes rec).readAll = [rec.stripped] := by
  cases h : j.rotates lineBytes maxBytes with
  | true => exact .inr (readAll_append_rotated hid h)
  | false => exact .inl (readAll_append_kept hid h)

end Journal
end Nightfall
