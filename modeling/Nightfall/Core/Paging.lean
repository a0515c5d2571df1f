import Mathlib.Tactic.Common

/-!
# Following the pages of a service

A client asks for a page, then for the page behind the cursor it was given, until
a page says there is no more. What request `n` may answer is a relation, so the
data behind the service can change from one request to the next.

* `probe`: `LIMIT limit + 1`, cut to `limit` rows; the row too many only tells
  that there is more.
* `Exact`: what one request has to do for the chain to be exact: `Left n c l`
  says that the rows `l` are still to come at request `n` with cursor `c`.
* `Exact.ends`, `Exact.items_eq`: then the chain ends, and its pages are the
  rows that were to come, in order.
* `take_join_iff`: when a page over a join holds one row of each group.
* `filter_behind`: in a list in strict order, a cursor cuts it behind one row.
-/
namespace Nightfall.Core

section
variable {π γ β : Type}

/-- The pages of the chain that begins with request `n` and cursor `c`. -/
inductive Follows (answers : Nat → Option γ → π → Prop) (more : π → Bool) (next : π → Option γ) :
    Nat → Option γ → List π → Prop
  | last {n : Nat} {c : Option γ} {p : π} (h : answers n c p) (hm : more p = false) :
      Follows answers more next n c [p]
  | step {n : Nat} {c : Option γ} {p : π} {ps : List π} (h : answers n c p) (hm : more p = true)
      (hps : Follows answers more next (n + 1) (next p) ps) : Follows answers more next n c (p :: ps)

/-- One request answers with the first of the rows still to come, and leaves
fewer of them to the next one. -/
structure Exact (answers : Nat → Option γ → π → Prop) (more : π → Bool) (next : π → Option γ)
    (items : π → List β) (Left : Nat → Option γ → List β → Prop) : Prop where
  answered : ∀ n c l, Left n c l → ∃ p, answers n c p
  last : ∀ n c l p, Left n c l → answers n c p → more p = false → items p = l
  step : ∀ n c l p, Left n c l → answers n c p → more p = true →
    ∃ l', items p ++ l' = l ∧ l'.length < l.length ∧ Left (n + 1) (next p) l'

variable {answers : Nat → Option γ → π → Prop} {more : π → Bool} {next : π → Option γ}
  {items : π → List β} {Left : Nat → Option γ → List β → Prop}

/-- By induction on the number of rows still to come. -/
theorem Exact.ends (h : Exact answers more next items Left) :
    ∀ (k : Nat) {n : Nat} {c : Option γ} {l : List β}, l.length ≤ k → Left n c l →
      ∃ ps, Follows answers more next n c ps := by
  intro k
  induction k with
  | zero =>
    intro n c l hk hl
    obtain ⟨p, hp⟩ := h.answered n c l hl
    cases hm : more p with
    | false => exact ⟨[p], .last hp hm⟩
    | true =>
      obtain ⟨l', -, hlt, -⟩ := h.step n c l p hl hp hm
      omega
  | succ k ih =>
    intro n c l hk hl
    obtain ⟨p, hp⟩ := h.answered n c l hl
    cases hm : more p with
    | false => exact ⟨[p], .last hp hm⟩
    | true =>
      obtain ⟨l', -, hlt, hl'⟩ := h.step n c l p hl hp hm
      obtain ⟨ps, hps⟩ := ih (by omega) hl'
      exact ⟨p :: ps, .step hp hm hps⟩

theorem Exact.items_eq (h : Exact answers more next items Left) {n : Nat} {c : Option γ}
    {ps : List π} (hps : Follows answers more next n c ps) :
    ∀ {l : List β}, Left n c l → ps.flatMap items = l := by
  induction hps with
  | last hp hm => intro l hl; simpa using h.last _ _ l _ hl hp hm
  | step hp hm _ ih =>
    intro l hl
    obtain ⟨l', heq, -, hl'⟩ := h.step _ _ l _ hl hp hm
    rw [List.flatMap_cons, ih hl', heq]

theorem Follows.answered {n : Nat} {c : Option γ} {ps : List π}
    (h : Follows answers more next n c ps) : ∀ p ∈ ps, ∃ n c, answers n c p := by
  induction h with
  | last hp _ => intro p hmem; rw [List.mem_singleton.mp hmem]; exact ⟨_, _, hp⟩
  | step hp _ _ ih =>
    intro p hmem
    rcases List.mem_cons.mp hmem with rfl | hmem
    · exact ⟨_, _, hp⟩
    · exact ih p hmem

end

/-! ## The probe -/

section
variable {α : Type} (limit : Nat) (rows : List α)

/-- Fetch `limit + 1` rows; with more than `limit`, keep `limit` and say so. -/
def probe : List α × Bool :=
  let fetched := rows.take (limit + 1)
  if fetched.length > limit then (fetched.take limit, true) else (fetched, false)

theorem probe_eq : probe limit rows = (rows.take limit, decide (limit < rows.length)) := by
  unfold probe
  by_cases h : limit < rows.length
  · have hl : (rows.take (limit + 1)).length > limit := by simp; omega
    rw [if_pos hl, List.take_take, Nat.min_eq_left (by omega)]
    simp [h]
  · have hl : ¬ (rows.take (limit + 1)).length > limit := by simp; omega
    simp only [hl, if_false, h, decide_false]
    rw [List.take_of_length_le (by omega), List.take_of_length_le (by omega)]

end

/-- In a list in strict order, the rows behind one of them are those that follow. -/
theorem filter_behind {α : Type} {r : α → α → Prop} [DecidableRel r]
    (hr : ∀ a b, r a b → ¬ r b a) {xs ys : List α} {a : α} (h : (xs ++ a :: ys).Pairwise r) :
    (xs ++ a :: ys).filter (fun b => decide (r a b)) = ys := by
  obtain ⟨-, hays, hcross⟩ := List.pairwise_append.mp h
  have hxs : xs.filter (fun b => decide (r a b)) = [] := by
    refine List.filter_eq_nil_iff.mpr fun b hb => ?_
    simpa using hr b a (hcross b hb a (by simp))
  have hys : ys.filter (fun b => decide (r a b)) = ys := by
    refine List.filter_eq_self.mpr fun b hb => ?_
    simpa using (List.pairwise_cons.mp hays).1 b hb
  have ha : ¬ r a a := fun h => hr a a h h
  simp [List.filter_append, hxs, hys, ha]

/-! ## Pages of a join -/

section
variable {α κ : Type} {key : α → κ} {m : α → Nat}

/-- With `m a` rows for each `a`: the first `limit` rows are one row of each of
the first `limit` groups exactly when of these only the last may have several. -/
theorem take_join_iff (hm : ∀ a, 1 ≤ m a) : ∀ {limit : Nat} {as : List α}, (as.map key).Nodup →
    ((as.flatMap fun a => List.replicate (m a) (key a)).take limit = (as.map key).take limit ↔
      ∀ j a, as[j]? = some a → j + 1 < limit → m a = 1)
  | 0, _, _ => by simp
  | _ + 1, [], _ => by simp
  | 1, a :: as, _ => by
    obtain ⟨n, hn⟩ := Nat.exists_eq_add_of_le' (hm a)
    simp [hn, List.replicate_succ]
  | limit + 2, a :: as, hnodup => by
    obtain ⟨n, hn⟩ := Nat.exists_eq_add_of_le' (hm a)
    rw [List.map_cons, List.nodup_cons] at hnodup
    rw [List.flatMap_cons, hn, List.replicate_succ, List.map_cons, List.cons_append,
      List.take_succ_cons, List.take_succ_cons, List.cons.injEq, and_iff_right rfl]
    cases n with
    | zero =>
      rw [List.replicate_zero, List.nil_append, take_join_iff hm hnodup.2]
      constructor
      · intro h j b hj hlt
        cases j with
        | zero =>
          obtain rfl : a = b := by simpa using hj
          exact hn
        | succ j => exact h j b (by simpa using hj) (by omega)
      · exact fun h j b hj hlt => h (j + 1) b (by simpa using hj) (by omega)
    | succ n =>
      -- the second row repeats the key, which no other group has
      constructor
      · intro h
        rw [List.replicate_succ, List.cons_append, List.take_succ_cons] at h
        have hin : key a ∈ (as.map key).take (limit + 1) := by rw [← h]; exact List.mem_cons_self
        exact absurd (List.mem_of_mem_take hin) hnodup.1
      · intro h
        have := h 0 a rfl (by omega)
        omega

end
end Nightfall.Core
