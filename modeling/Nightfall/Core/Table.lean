import Mathlib.Data.List.AList

/-!
# Keyed tables

A table is a finite map with computable lookup (Mathlib's `AList`). `get`
after `put`, `drop` and `move` is an `if` on the key, so a fact about a whole
update is one rewrite and one case split.
-/
namespace Nightfall.Core

/-- A finite map: at most one row per key. -/
abbrev Table (κ ν : Type) := AList fun _ : κ => ν

namespace Table
variable {κ ν : Type} [DecidableEq κ]

def get (t : Table κ ν) (k : κ) : Option ν := t.lookup k

/-- `INSERT ... ON CONFLICT(k) DO UPDATE`, or writing a whole file. -/
def put (t : Table κ ν) (k : κ) (v : ν) : Table κ ν := t.insert k v

def drop (t : Table κ ν) (k : κ) : Table κ ν := t.erase k

/-- `UPDATE ... WHERE key = k`: nothing happens when there is no row. -/
def modify (t : Table κ ν) (k : κ) (f : ν → ν) : Table κ ν :=
  match t.get k with
  | none => t
  | some v => t.put k (f v)

@[simp] theorem get_empty (k : κ) : get (∅ : Table κ ν) k = none := rfl

theorem get_put (t : Table κ ν) (k : κ) (v : ν) (k' : κ) :
    (t.put k v).get k' = if k' = k then some v else t.get k' := by
  split
  · next h => subst h; exact AList.lookup_insert t
  · next h => exact AList.lookup_insert_ne h

@[simp] theorem get_put_self (t : Table κ ν) (k : κ) (v : ν) : (t.put k v).get k = some v := by
  rw [get_put, if_pos rfl]

theorem get_drop (t : Table κ ν) (k k' : κ) :
    (t.drop k).get k' = if k' = k then none else t.get k' := by
  split
  · next h => subst h; exact AList.lookup_erase _ _
  · next h => exact AList.lookup_erase_ne h

theorem get_modify (t : Table κ ν) (k : κ) (f : ν → ν) (k' : κ) :
    (t.modify k f).get k' = if k' = k then (t.get k).map f else t.get k' := by
  unfold modify
  cases h : t.get k with
  | none => split <;> simp_all
  | some v => rw [get_put]; rfl

theorem mem_keys_iff (t : Table κ ν) (k : κ) : k ∈ t.keys ↔ ∃ v, t.get k = some v := by
  rw [← AList.mem_keys, ← AList.lookup_isSome, Option.isSome_iff_exists]; rfl

end Table
end Nightfall.Core
