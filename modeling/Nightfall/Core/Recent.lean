import Mathlib.Data.List.Sort
import Mathlib.Data.List.Count

/-!
# The most recent records

`newest n key l` are the `n` records of `l` with the greatest keys, the greatest first
and equal keys in the order of `l`. What the cut takes away is no later than what it
leaves (`le_of_cut`), and `n` records from a time on leave no earlier one
(`le_of_newest`).
-/
namespace Nightfall.Core

variable {α κ : Type} [LinearOrder κ] {key : α → κ} {n : ℕ} {l : List α} {a b : α} {x : κ}

/-- Later keys first; a stable sort. -/
def newestFirst (key : α → κ) (l : List α) : List α := l.insertionSort fun a b => key b ≤ key a

def newest (n : ℕ) (key : α → κ) (l : List α) : List α := (newestFirst key l).take n

theorem newestFirst_perm : (newestFirst key l).Perm l := List.perm_insertionSort _ l

theorem newestFirst_pairwise : (newestFirst key l).Pairwise fun a b => key b ≤ key a :=
  have : Std.Total fun a b : α => key b ≤ key a := ⟨fun a b => le_total (key b) (key a)⟩
  have : IsTrans α fun a b => key b ≤ key a := ⟨fun _ _ _ h h' => h'.trans h⟩
  List.pairwise_insertionSort _ l

theorem mem_of_newest (h : a ∈ newest n key l) : a ∈ l :=
  newestFirst_perm.subset (List.mem_of_mem_take h)

theorem nodup_newest {β : Type} {f : α → β} (h : (l.map f).Nodup) :
    ((newest n key l).map f).Nodup :=
  ((newestFirst_perm.map f).nodup_iff.mpr h).sublist ((List.take_sublist _ _).map f)

theorem length_newest : (newest n key l).length = min n l.length := by
  rw [newest, List.length_take, newestFirst_perm.length_eq]

theorem newest_of_le (h : l.length ≤ n) (ha : a ∈ l) : a ∈ newest n key l := by
  rw [newest, List.take_of_length_le (newestFirst_perm.length_eq.trans_le h)]
  exact newestFirst_perm.mem_iff.mpr ha

/-- In a list with the later keys first, `n` records from `x` on leave no earlier one
among the first `n`. -/
theorem le_of_mem_take : ∀ {l : List α} {n : ℕ}, l.Pairwise (fun a b => key b ≤ key a) →
    n ≤ l.countP (fun a => x ≤ key a) → a ∈ l.take n → x ≤ key a
  | [], _, _, _, h => by simp at h
  | _ :: _, 0, _, _, h => by simp at h
  | b :: l, n + 1, hl, hcount, ha => by
    obtain ⟨hb, hl⟩ := List.pairwise_cons.mp hl
    by_cases hx : x ≤ key b
    · rw [List.countP_cons_of_pos (by simpa using hx)] at hcount
      rw [List.take_succ_cons, List.mem_cons] at ha
      rcases ha with rfl | ha
      · exact hx
      · exact le_of_mem_take hl (Nat.le_of_succ_le_succ hcount) ha
    · -- everything behind `b` is before `x` too
      have hzero : l.countP (fun a => x ≤ key a) = 0 := by
        rw [List.countP_eq_zero]
        intro c hc
        simpa using lt_of_le_of_lt (hb c hc) (not_le.mp hx)
      rw [List.countP_cons_of_neg (by simpa using hx), hzero] at hcount
      omega

theorem le_of_newest (hcount : n ≤ l.countP (fun a => x ≤ key a)) (ha : a ∈ newest n key l) :
    x ≤ key a :=
  le_of_mem_take newestFirst_pairwise (by rwa [newestFirst_perm.countP_eq]) ha

/-- What a cut takes away is no later than what it leaves. -/
theorem le_of_cut (ha : a ∈ l) (hcut : a ∉ newest n key l) (hb : b ∈ newest n key l) :
    key a ≤ key b := by
  have hmem : a ∈ newestFirst key l := newestFirst_perm.mem_iff.mpr ha
  rw [← List.take_append_drop n (newestFirst key l), List.mem_append] at hmem
  have hpairs : (newestFirst key l).Pairwise fun a b => key b ≤ key a := newestFirst_pairwise
  rw [← List.take_append_drop n (newestFirst key l), List.pairwise_append] at hpairs
  exact hpairs.2.2 b hb a (hmem.resolve_left hcut)

end Nightfall.Core
