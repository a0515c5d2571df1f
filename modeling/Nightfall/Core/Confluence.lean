import Mathlib.Data.List.Sort

/-!
# Steps in another order

A step answers and changes a state. Two steps commute when each answers the same
whether it comes first or second, and both orders end in the same state. Sorting
a list of steps then changes the order of the answers and nothing else, as long
as every two steps it exchanges commute.

* `runAll`: a list of steps, each with its answer.
* `runAll_insertionSort`: the sorted list gives the same answers and the same end.
* `eq_of_sorted_by`: sorting the answers by distinct keys restores one order.
* `Keyed`: the keys of a table that a step reads and those it writes;
  `Keyed.commute`: steps that write no key the other one touches commute.
-/
namespace Nightfall.Core

variable {α ο σ κ ν : Type}

/-- All steps of a list in order, each with what it answered. -/
def runAll (step : α → σ → ο × σ) : List α → σ → List (α × ο) × σ
  | [], s => ([], s)
  | a :: l, s =>
    ((a, (step a s).1) :: (runAll step l (step a s).2).1, (runAll step l (step a s).2).2)

/-- The two steps may be exchanged. -/
structure Commutes (step : α → σ → ο × σ) (a b : α) : Prop where
  left : ∀ s, (step a (step b s).2).1 = (step a s).1
  right : ∀ s, (step b (step a s).2).1 = (step b s).1
  state : ∀ s, (step a (step b s).2).2 = (step b (step a s).2).2

/-- The same answers, in any order, and the same end. -/
structure SameRun (x y : List (α × ο) × σ) : Prop where
  answers : x.1.Perm y.1
  state : x.2 = y.2

section Sorting
variable {step : α → σ → ο × σ} {r : α → α → Prop} [DecidableRel r]

theorem SameRun.cons {a : α} {o : ο} {x y : List (α × ο) × σ} (h : SameRun x y) :
    SameRun ((a, o) :: x.1, x.2) ((a, o) :: y.1, y.2) := ⟨h.answers.cons _, h.state⟩

/-- A step moves behind the steps it commutes with. -/
theorem runAll_orderedInsert {a : α} : ∀ {l : List α} (s : σ),
    (∀ b ∈ l, ¬ r a b → Commutes step a b) →
    SameRun (runAll step (l.orderedInsert r a) s) (runAll step (a :: l) s)
  | [], s, _ => ⟨List.Perm.refl _, rfl⟩
  | b :: l, s, h => by
    by_cases hr : r a b
    · rw [List.orderedInsert_cons_of_le r l hr]
      exact ⟨List.Perm.refl _, rfl⟩
    · rw [List.orderedInsert_of_not_le r l hr]
      have hab := h b List.mem_cons_self hr
      have hrest := runAll_orderedInsert (step b s).2
        fun b' hb' => h b' (List.mem_cons_of_mem _ hb')
      have hstate := hab.state s
      refine ⟨(hrest.answers.cons _).trans ?_, hrest.state.trans ?_⟩
      · simp only [runAll]
        rw [hab.left, hab.right, hstate]
        exact List.Perm.swap _ _ _
      · simp only [runAll]
        rw [hstate]

/-- Sorting exchanges only steps that stand in the wrong order; when those
commute, the answers and the end stay. -/
theorem runAll_insertionSort : ∀ {l : List α} (s : σ),
    l.Pairwise (fun a b => ¬ r a b → Commutes step a b) →
    SameRun (runAll step (l.insertionSort r) s) (runAll step l s)
  | [], s, _ => ⟨List.Perm.refl _, rfl⟩
  | a :: l, s, h => by
    obtain ⟨ha, hl⟩ := List.pairwise_cons.mp h
    have hinsert := runAll_orderedInsert s
      fun b hb => ha b ((List.mem_insertionSort r (l := l)).mp hb)
    have hsorted := (runAll_insertionSort (step a s).2 hl).cons (a := a) (o := (step a s).1)
    exact ⟨hinsert.answers.trans hsorted.answers, hinsert.state.trans hsorted.state⟩

end Sorting

/-- A list whose elements have distinct keys is told from its permutations by being
sorted. -/
theorem eq_of_sorted_by (key : α → Nat) {l₁ l₂ : List α} (hperm : l₁.Perm l₂)
    (hkeys : (l₂.map key).Nodup) (h₁ : l₁.Pairwise fun a b => key a ≤ key b)
    (h₂ : l₂.Pairwise fun a b => key a ≤ key b) : l₁ = l₂ := by
  refine hperm.eq_of_pairwise (fun a b ha hb hab hba => ?_) h₁ h₂
  exact List.inj_on_of_nodup_map hkeys (hperm.mem_iff.mp ha) hb (le_antisymm hab hba)

/-! ## Steps on a table -/

/-- The step answers and writes by the keys in `R`, and writes only keys in `W`. -/
structure Keyed (step : α → (κ → ν) → ο × (κ → ν)) (a : α) (R W : κ → Prop) : Prop where
  answer : ∀ s t, (∀ k, R k → s k = t k) → (step a s).1 = (step a t).1
  writes : ∀ s t, (∀ k, R k → s k = t k) → ∀ k, W k → (step a s).2 k = (step a t).2 k
  frame : ∀ s k, ¬ W k → (step a s).2 k = s k

theorem Keyed.commute {step : α → (κ → ν) → ο × (κ → ν)} {a b : α} {Ra Wa Rb Wb : κ → Prop}
    (ha : Keyed step a Ra Wa) (hb : Keyed step b Rb Wb)
    (hab : ∀ k, Wb k → ¬ Ra k ∧ ¬ Wa k) (hba : ∀ k, Wa k → ¬ Rb k) : Commutes step a b := by
  have hreadA : ∀ s k, Ra k → (step b s).2 k = s k :=
    fun s k hk => hb.frame s k fun hw => (hab k hw).1 hk
  have hreadB : ∀ s k, Rb k → (step a s).2 k = s k :=
    fun s k hk => ha.frame s k fun hw => hba k hw hk
  refine ⟨fun s => ha.answer _ _ (hreadA s), fun s => hb.answer _ _ (hreadB s), fun s => ?_⟩
  funext k
  by_cases hka : Wa k
  · have hkb : ¬ Wb k := fun hw => (hab k hw).2 hka
    rw [ha.writes _ _ (hreadA s) k hka, hb.frame _ k hkb]
  · by_cases hkb : Wb k
    · rw [ha.frame _ k hka, hb.writes _ _ (hreadB s) k hkb]
    · rw [ha.frame _ k hka, hb.frame _ k hkb, hb.frame _ k hkb, ha.frame _ k hka]

end Nightfall.Core
