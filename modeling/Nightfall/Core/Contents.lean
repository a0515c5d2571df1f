import Mathlib.Data.Multiset.Filter
import Nightfall.Core.Table

/-!
# What the rows of a table hold

`values P t` is the multiset of the values at the keys that satisfy `P`. Writing
and dropping a row add and remove one value, and a move keeps the multiset
exactly when it goes to a free key.
-/
namespace Nightfall.Core.Table
variable {κ ν : Type} [DecidableEq κ] {P : κ → Bool} {t : Table κ ν} {k src dst : κ} {v b : ν}

/-- The values at the keys that satisfy `P`, with repetitions. -/
def values (P : κ → Bool) (t : Table κ ν) : Multiset ν :=
  ((t.entries.filter fun row => P row.1).map fun row => row.2 : List ν)

theorem entries_drop (t : Table κ ν) (k : κ) : (t.drop k).entries = t.entries.kerase k := rfl

/-- The row of a key, in front of the others. -/
theorem perm_cons_kerase {k : κ} {v : ν} : ∀ {rows : List (Sigma fun _ : κ => ν)},
    rows.dlookup k = some v → rows.Perm (⟨k, v⟩ :: rows.kerase k)
  | [], h => by cases h
  | ⟨k', v'⟩ :: rows, h => by
    by_cases hk : k = k'
    · subst hk
      rw [List.dlookup_cons_eq] at h
      cases h
      simp
    · rw [List.dlookup_cons_ne rows ⟨k', v'⟩ hk] at h
      rw [List.kerase_cons_ne hk]
      exact ((perm_cons_kerase h).cons _).trans (List.Perm.swap _ _ _)

/-- A row found is one value more than the other rows hold. -/
theorem values_of_get (hk : P k = true) (h : t.get k = some v) :
    t.values P = v ::ₘ (t.drop k).values P := by
  have hperm : t.entries.Perm (⟨k, v⟩ :: t.entries.kerase k) := perm_cons_kerase h
  have hvalues := (hperm.filter fun row => P row.1).map fun row => row.2
  simp only [List.filter_cons, hk, if_true, List.map_cons] at hvalues
  exact Multiset.coe_eq_coe.mpr hvalues

/-- A row written replaces the one there was. -/
theorem values_put (hk : P k = true) : (t.put k v).values P = v ::ₘ (t.drop k).values P := by
  simp [values, put, entries_drop, AList.entries_insert, hk]

theorem values_drop_of_none (h : t.get k = none) : (t.drop k).values P = t.values P := by
  have hnot : k ∉ t.entries.keys := fun hmem => by
    obtain ⟨v, hv⟩ := (mem_keys_iff t k).mp hmem
    rw [h] at hv
    cases hv
  simp [values, entries_drop, List.kerase_of_notMem_keys hnot]

/-- Where a move overwrites a row, its value is gone. -/
theorem values_move_of_some {c : ν} (hsrc : P src = true) (hdst : P dst = true) (hne : src ≠ dst)
    (h : t.get src = some b) (hc : t.get dst = some c) :
    t.values P = c ::ₘ ((t.drop src).put dst b).values P := by
  have hstill : (t.drop src).get dst = some c := by rw [get_drop, if_neg hne.symm, hc]
  rw [values_put hdst, values_of_get hsrc h, values_of_get hdst hstill, Multiset.cons_swap]

/-- A move to a free key, or onto itself. -/
theorem values_move_of_none (hsrc : P src = true) (hdst : P dst = true)
    (h : t.get src = some b) (hc : t.get dst = none ∨ src = dst) :
    ((t.drop src).put dst b).values P = t.values P := by
  have hfree : (t.drop src).get dst = none := by
    rw [get_drop]
    split
    · rfl
    · next hne => exact hc.resolve_right fun heq => hne heq.symm
  rw [values_put hdst, values_drop_of_none hfree, values_of_get hsrc h]

/-- A move keeps what is held exactly when it overwrites nothing. -/
theorem values_move_iff (hsrc : P src = true) (hdst : P dst = true) (h : t.get src = some b) :
    ((t.drop src).put dst b).values P = t.values P ↔ t.get dst = none ∨ src = dst := by
  refine ⟨fun heq => ?_, values_move_of_none hsrc hdst h⟩
  by_contra hover
  rw [not_or] at hover
  obtain ⟨c, hc⟩ := Option.ne_none_iff_exists'.mp hover.1
  have hcard := congrArg Multiset.card (values_move_of_some hsrc hdst hover.2 h hc)
  rw [Multiset.card_cons, heq] at hcard
  omega

/-- A move never adds a value. -/
theorem card_values_move_le (hsrc : P src = true) (hdst : P dst = true) (h : t.get src = some b) :
    Multiset.card (((t.drop src).put dst b).values P) ≤ Multiset.card (t.values P) := by
  by_cases hover : t.get dst = none ∨ src = dst
  · rw [values_move_of_none hsrc hdst h hover]
  · rw [not_or] at hover
    obtain ⟨c, hc⟩ := Option.ne_none_iff_exists'.mp hover.1
    rw [values_move_of_some hsrc hdst hover.2 h hc, Multiset.card_cons]
    exact Nat.le_succ _

end Nightfall.Core.Table
