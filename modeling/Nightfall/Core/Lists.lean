import Mathlib.Data.List.Forall2

/-!
# Lists

* `forall₂_of_mapM`: what a loop that may fail returns.
* `mem_of_lookup`, `lookup_isSome_map_fst`, `lookup_map`: association lists.
* `flatMap_split`: where a position in a flattened list comes from.
-/
namespace Nightfall.Core
variable {α β γ κ ε : Type}

theorem forall₂_of_mapM {f : α → Except ε β} : ∀ {l : List α} {ys : List β},
    l.mapM f = .ok ys → List.Forall₂ (fun x y => f x = .ok y) l ys
  | [], ys, h => by
    cases h
    exact .nil
  | x :: l, ys, h => by
    rw [List.mapM_cons] at h
    cases hx : f x with
    | error err =>
      rw [hx] at h
      cases h
    | ok y =>
      rw [hx] at h
      cases hl : l.mapM f with
      | error err =>
        simp only [bind, Except.bind, hl] at h
        cases h
      | ok rest =>
        simp only [bind, Except.bind, hl, pure, Except.pure] at h
        cases h
        exact .cons hx (forall₂_of_mapM hl)

section Lookup
variable [BEq κ] {key : κ} {value : β} {l : List (κ × β)}

theorem mem_of_lookup [LawfulBEq κ] (h : l.lookup key = some value) : (key, value) ∈ l := by
  obtain ⟨l₁, l₂, rfl, -⟩ := List.lookup_eq_some_iff.mp h
  simp

theorem lookup_isSome_map_fst [LawfulBEq κ] : (l.lookup key).isSome ↔ key ∈ l.map (·.1) := by
  rw [List.lookup_isSome_iff, List.mem_map]
  simp only [beq_iff_eq]
  exact exists_congr fun _ => and_congr_right' eq_comm

theorem lookup_map (f : β → γ) (key : κ) (l : List (κ × β)) :
    (l.map fun entry => (entry.1, f entry.2)).lookup key = (l.lookup key).map f := by
  induction l with
  | nil => rfl
  | cons entry l ih =>
    obtain ⟨key', value⟩ := entry
    simp only [List.map_cons, List.lookup_cons]
    cases key == key' with
    | true => rfl
    | false => exact ih

end Lookup

/-- A position in the flattened list is one in the list of an element. -/
theorem flatMap_split (f : α → List β) : ∀ {l : List α} {pre : List β} {e : β} {post : List β},
    l.flatMap f = pre ++ e :: post →
    ∃ l₁ a l₂ p q, l = l₁ ++ a :: l₂ ∧ f a = p ++ e :: q ∧ pre = l₁.flatMap f ++ p
  | [], pre, e, post, h => by simp at h
  | a :: l, pre, e, post, h => by
    rw [List.flatMap_cons] at h
    rcases List.append_eq_append_iff.mp h with ⟨mid, hpre, hrest⟩ | ⟨mid, hfa, hrest⟩
    · obtain ⟨l₁, b, l₂, p, q, rfl, hb, rfl⟩ := flatMap_split f hrest
      exact ⟨a :: l₁, b, l₂, p, q, rfl, hb, by simp [hpre]⟩
    · cases mid with
      | nil =>
        have hsplit : l.flatMap f = [] ++ e :: post := by simpa using hrest.symm
        obtain ⟨l₁, b, l₂, p, q, rfl, hb, hp⟩ := flatMap_split f hsplit
        exact ⟨a :: l₁, b, l₂, p, q, rfl, hb, by simpa [hfa] using hp⟩
      | cons x mid =>
        simp only [List.cons_append, List.cons.injEq] at hrest
        obtain ⟨rfl, -⟩ := hrest
        exact ⟨[], a, l, pre, mid, rfl, hfa, by simp⟩

end Nightfall.Core
