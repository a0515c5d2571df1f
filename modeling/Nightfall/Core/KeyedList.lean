import Mathlib.Data.List.Nodup
import Mathlib.Data.List.Perm.Basic

/-!
# Lists of records with a key

`atKey key l k` is the first record of `l` with the key `k`. After a record is appended,
changed, replaced or taken out, it is an `if` on the key. Two lists without a repeated
key that agree at every key are permutations of each other (`perm_of_atKey`).
-/
namespace Nightfall.Core
variable {α κ : Type} [DecidableEq κ] {key : α → κ} {l : List α} {a b : α} {j k : κ}

def atKey (key : α → κ) (l : List α) (k : κ) : Option α := l.find? fun a => key a = k

@[simp] theorem atKey_nil : atKey key [] k = none := rfl

theorem atKey_cons : atKey key (a :: l) k = if key a = k then some a else atKey key l k := by
  simp only [atKey, List.find?_cons]
  by_cases h : key a = k <;> simp [h]

theorem atKey_eq_none : atKey key l k = none ↔ k ∉ l.map key := by
  simp [atKey]

theorem key_of_atKey (h : atKey key l k = some a) : key a = k := by
  simpa using List.find?_some h

theorem mem_of_atKey (h : atKey key l k = some a) : a ∈ l := List.mem_of_find?_eq_some h

theorem atKey_append :
    atKey key (l ++ [b]) k = (atKey key l k).or (if key b = k then some b else none) := by
  simp only [atKey, List.find?_append, List.find?_singleton, decide_eq_true_eq]

theorem atKey_filter_ne :
    atKey key (l.filter fun a => key a ≠ k) j = if j = k then none else atKey key l j := by
  induction l with
  | nil => simp
  | cons a l ih =>
    by_cases ha : key a = k
    · rw [List.filter_cons_of_neg (by simpa using ha), ih, atKey_cons]
      split
      · rfl
      · next hj => rw [if_neg fun h => hj (h.symm.trans ha)]
    · rw [List.filter_cons_of_pos (by simpa using ha), atKey_cons, atKey_cons, ih]
      split
      · next hj => rw [if_neg fun h => ha (hj.trans h)]
      · rfl

/-- A change that keeps the key. -/
theorem atKey_modify {f : α → α} (hf : ∀ a, key (f a) = key a) :
    atKey key (l.map fun a => if key a = k then f a else a) j =
      if j = k then (atKey key l k).map f else atKey key l j := by
  induction l with
  | nil => simp
  | cons a l ih =>
    rw [List.map_cons, atKey_cons, ih, atKey_cons, atKey_cons]
    by_cases ha : key a = k
    · simp only [if_pos ha, hf]
      by_cases hj : j = k
      · simp [hj, ha]
      · rw [if_neg fun h => hj (h.symm.trans ha), if_neg hj, if_neg hj,
          if_neg fun h => hj (h.symm.trans ha)]
    · simp only [if_neg ha]
      by_cases hj : j = k
      · subst hj
        simp [ha]
      · simp [hj]

theorem keys_modify {f : α → α} (hf : ∀ a, key (f a) = key a) :
    (l.map fun a => if key a = k then f a else a).map key = l.map key := by
  rw [List.map_map]
  refine List.map_congr_left fun a _ => ?_
  simp only [Function.comp_apply]
  split
  · exact hf a
  · rfl

/-- A record replaced by one with another key, which is free. -/
theorem atKey_replace (hnodup : (l.map key).Nodup) (hk : atKey key l k ≠ none)
    (hfree : atKey key l (key b) = none ∨ key b = k) :
    atKey key (l.map fun a => if key a = k then b else a) j =
      if j = key b then some b else if j = k then none else atKey key l j := by
  induction l with
  | nil => simp at hk
  | cons a l ih =>
    rw [List.map_cons, List.nodup_cons] at hnodup
    rw [List.map_cons, atKey_cons]
    by_cases ha : key a = k
    · have hrest : (l.map fun a => if key a = k then b else a) = l := by
        refine (List.map_congr_left fun x hx => ?_).trans (List.map_id l)
        rw [if_neg, id]
        rintro hxk
        exact hnodup.1 (List.mem_map.mpr ⟨x, hx, hxk.trans ha.symm⟩)
      rw [if_pos ha, hrest, atKey_cons]
      by_cases hj : j = key b
      · rw [if_pos hj.symm, if_pos hj]
      · rw [if_neg (Ne.symm hj), if_neg hj]
        by_cases hjk : j = k
        · rw [if_pos hjk, atKey_eq_none, hjk, ← ha]
          exact hnodup.1
        · rw [if_neg hjk, if_neg fun h => hjk (h.symm.trans ha)]
    · rw [atKey_cons, if_neg ha] at hk
      have hfree' : atKey key l (key b) = none ∨ key b = k := by
        refine hfree.imp_left fun h => ?_
        rw [atKey_cons] at h
        split at h
        · cases h
        · exact h
      rw [if_neg ha, ih hnodup.2 hk hfree', atKey_cons]
      by_cases hja : key a = j
      · have hb : ¬ j = key b := by
          rintro rfl
          rcases hfree with h | h
          · rw [atKey_cons, if_pos hja] at h
            cases h
          · exact ha (hja.trans h)
        rw [if_pos hja, if_neg hb, if_neg fun h => ha (hja.trans h), if_pos hja]
      · rw [if_neg hja, if_neg hja]

theorem nodup_replace (hnodup : (l.map key).Nodup)
    (hfree : atKey key l (key b) = none ∨ key b = k) :
    ((l.map fun a => if key a = k then b else a).map key).Nodup := by
  induction l with
  | nil => simp
  | cons a l ih =>
    rw [List.map_cons, List.nodup_cons] at hnodup
    have hfree' : atKey key l (key b) = none ∨ key b = k := by
      refine hfree.imp_left fun h => ?_
      rw [atKey_cons] at h
      split at h
      · cases h
      · exact h
    rw [List.map_cons, List.map_cons, List.nodup_cons]
    refine ⟨?_, ih hnodup.2 hfree'⟩
    simp only [List.mem_map, not_exists, not_and]
    rintro _ ⟨x, hx, rfl⟩
    have hxa : key x ≠ key a := fun h => hnodup.1 (List.mem_map.mpr ⟨x, hx, h⟩)
    by_cases ha : key a = k
    · rw [if_pos ha, if_neg fun h => hxa (h.trans ha.symm)]
      intro h
      rcases hfree' with hf | hf
      · exact atKey_eq_none.mp hf (List.mem_map.mpr ⟨x, hx, h⟩)
      · exact hxa (h.trans (hf.trans ha.symm))
    · rw [if_neg ha]
      split
      · next hxk =>
        rcases hfree with hf | hf
        · intro h
          rw [atKey_cons, if_pos h.symm] at hf
          cases hf
        · exact fun h => ha (h.symm.trans hf)
      · exact hxa

theorem nodup_append_key (hnodup : (l.map key).Nodup) (hfree : atKey key l (key b) = none) :
    ((l ++ [b]).map key).Nodup := by
  rw [List.map_append, List.nodup_append]
  refine ⟨hnodup, List.nodup_singleton _, fun x hx y hy => ?_⟩
  obtain rfl := List.mem_singleton.mp hy
  rintro rfl
  exact atKey_eq_none.mp hfree hx

omit [DecidableEq κ] in
theorem nodup_filter_key {p : α → Bool} (hnodup : (l.map key).Nodup) :
    ((l.filter p).map key).Nodup := hnodup.sublist (List.filter_sublist.map key)

theorem mem_iff_atKey (hnodup : (l.map key).Nodup) : a ∈ l ↔ atKey key l (key a) = some a := by
  refine ⟨fun ha => ?_, mem_of_atKey⟩
  cases h : atKey key l (key a) with
  | none => exact absurd (List.mem_map_of_mem ha) (atKey_eq_none.mp h)
  | some b => rw [List.inj_on_of_nodup_map hnodup (mem_of_atKey h) ha (key_of_atKey h)]

theorem perm_of_atKey {l₁ l₂ : List α} (h₁ : (l₁.map key).Nodup) (h₂ : (l₂.map key).Nodup)
    (h : ∀ k, atKey key l₁ k = atKey key l₂ k) : l₁.Perm l₂ := by
  refine (List.perm_ext_iff_of_nodup h₁.of_map h₂.of_map).mpr fun a => ?_
  rw [mem_iff_atKey h₁, mem_iff_atKey h₂, h]

end Nightfall.Core
