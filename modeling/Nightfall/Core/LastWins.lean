import Mathlib.Data.List.Sort
import Nightfall.Core.Confluence
import Nightfall.Core.Table

/-!
# The last event of each key

Events write to a table under their key, each with a number above all earlier ones.
Whatever stands in the table, in the order of the numbers, is the list of the events
that no later event of their key follows.

* `lastEvents`: that list, read off the events.
* `Tracks`: the table holds it; `Tracks.put` is one event more.
* `Tracks.sorted`: the rows of the table by number.
-/
namespace Nightfall.Core
variable {κ ν ω : Type} [DecidableEq κ]

/-- The events that no later event of their key follows. -/
def lastEvents : List (κ × ω) → List (κ × ω)
  | [] => []
  | e :: es => if es.any fun e' => e'.1 = e.1 then lastEvents es else e :: lastEvents es

theorem mem_keys_lastEvents {k : κ} : ∀ {es : List (κ × ω)},
    k ∈ (lastEvents es).map Prod.fst ↔ k ∈ es.map Prod.fst
  | [] => Iff.rfl
  | e :: es => by
    rw [lastEvents]
    split
    · next hlater =>
      rw [mem_keys_lastEvents, List.map_cons, List.mem_cons]
      refine ⟨.inr, fun h => h.elim (fun hk => ?_) id⟩
      subst hk
      simpa using hlater
    · rw [List.map_cons, List.map_cons, List.mem_cons, List.mem_cons, mem_keys_lastEvents]

theorem mem_of_lastEvents {e : κ × ω} : ∀ {es : List (κ × ω)}, e ∈ lastEvents es → e ∈ es
  | e' :: es, h => by
    rw [lastEvents] at h
    split at h
    · exact List.mem_cons_of_mem _ (mem_of_lastEvents h)
    · rcases List.mem_cons.mp h with rfl | h
      · exact List.mem_cons_self
      · exact List.mem_cons_of_mem _ (mem_of_lastEvents h)

theorem nodup_lastEvents : ∀ es : List (κ × ω), ((lastEvents es).map Prod.fst).Nodup
  | [] => List.nodup_nil
  | e :: es => by
    rw [lastEvents]
    split
    · exact nodup_lastEvents es
    · next hnot =>
      refine List.nodup_cons.mpr ⟨fun hmem => hnot ?_, nodup_lastEvents es⟩
      rw [mem_keys_lastEvents] at hmem
      simpa using hmem

/-- One event more takes its key to the end. -/
theorem lastEvents_concat (k : κ) (x : ω) : ∀ es : List (κ × ω),
    lastEvents (es ++ [(k, x)]) = (lastEvents es).filter (fun e => e.1 ≠ k) ++ [(k, x)]
  | [] => rfl
  | e :: es => by
    rw [List.cons_append, lastEvents, lastEvents, lastEvents_concat k x es]
    by_cases hk : e.1 = k
    · simp only [List.any_append, List.any_cons, hk, decide_true, Bool.true_or, Bool.or_true,
        if_true]
      split
      · rfl
      · simp [hk]
    · have hne : ¬ k = e.1 := fun h => hk h.symm
      simp only [List.any_append, List.any_cons, List.any_nil, hne, decide_false, Bool.or_false]
      split
      · rfl
      · simp [hk]

/-- The rows of `t` by their numbers are the last events of `es`, none above `n`. -/
structure Tracks (seq : ν → Nat) (val : ν → ω) (t : Table κ ν) (n : Nat) (es : List (κ × ω))
    (rows : List (κ × ν)) : Prop where
  holds : ∀ k v, t.get k = some v ↔ (k, v) ∈ rows
  events : rows.map (fun row => (row.1, val row.2)) = lastEvents es
  ordered : rows.Pairwise fun a b => seq a.2 < seq b.2
  bounded : ∀ row ∈ rows, seq row.2 ≤ n

variable {seq : ν → Nat} {val : ν → ω} {t : Table κ ν} {n : Nat} {es : List (κ × ω)}
  {rows : List (κ × ν)}

theorem tracks_empty (n : Nat) : Tracks seq val (∅ : Table κ ν) n [] [] :=
  ⟨fun _ _ => by simp, rfl, List.Pairwise.nil, fun _ h => absurd h List.not_mem_nil⟩

theorem Tracks.mono {n' : Nat} (h : Tracks seq val t n es rows) (hle : n ≤ n') :
    Tracks seq val t n' es rows :=
  ⟨h.holds, h.events, h.ordered, fun row hrow => (h.bounded row hrow).trans hle⟩

/-- An event with a number above all others. -/
theorem Tracks.put (h : Tracks seq val t n es rows) {k : κ} {v : ν} (hv : n < seq v) :
    Tracks seq val (t.put k v) (seq v) (es ++ [(k, val v)])
      (rows.filter (fun row => row.1 ≠ k) ++ [(k, v)]) := by
  refine ⟨fun k' v' => ?_, ?_, ?_, fun row hrow => ?_⟩
  · rw [Table.get_put]
    simp only [List.mem_append, List.mem_filter, List.mem_singleton, ne_eq, decide_not,
      Bool.not_eq_true', decide_eq_false_iff_not, Prod.mk.injEq]
    by_cases hk : k' = k
    · simp [hk, eq_comm]
    · simp [hk, h.holds]
  · rw [lastEvents_concat, ← h.events, List.map_append, List.filter_map]
    rfl
  · refine List.pairwise_append.mpr ⟨h.ordered.filter _, List.pairwise_singleton _ _, ?_⟩
    intro a ha b hb
    rw [List.mem_singleton.mp hb]
    exact (h.bounded a (List.mem_of_mem_filter ha)).trans_lt hv
  · rcases List.mem_append.mp hrow with hold | hnew
    · exact (h.bounded row (List.mem_of_mem_filter hold)).trans (Nat.le_of_lt hv)
    · rw [List.mem_singleton.mp hnew]

/-- The table's own rows are these, in another order. -/
theorem Tracks.perm (h : Tracks seq val t n es rows) :
    (t.entries.map fun row => (row.1, row.2)).Perm rows := by
  have hnodup : (t.entries.map fun row => (row.1, row.2)).Nodup := by
    have hkeys : (t.entries.map Sigma.fst).Nodup := t.nodupKeys
    refine List.Nodup.of_map Prod.fst ?_
    rwa [List.map_map]
  refine (List.perm_ext_iff_of_nodup hnodup ?_).mpr fun row => ?_
  · refine List.Pairwise.imp (fun {a b} hlt heq => ?_) h.ordered
    rw [heq] at hlt
    exact Nat.lt_irrefl _ hlt
  · obtain ⟨k, v⟩ := row
    rw [← h.holds, Table.get, ← Option.mem_def, AList.mem_lookup_iff, List.mem_map]
    constructor
    · rintro ⟨⟨k', v'⟩, hmem, heq⟩
      obtain ⟨rfl, rfl⟩ := Prod.mk.inj heq
      exact hmem
    · exact fun hmem => ⟨⟨k, v⟩, hmem, rfl⟩

/-- By number, the rows are the last events. -/
theorem Tracks.sorted (h : Tracks seq val t n es rows) :
    ((t.entries.map fun row => row.2).insertionSort fun a b => seq a ≤ seq b).map val =
      (lastEvents es).map Prod.snd := by
  have hsnd : (t.entries.map fun row => row.2).Perm (rows.map Prod.snd) := by
    have := h.perm.map Prod.snd
    rwa [List.map_map] at this
  have hsort : (t.entries.map fun row => row.2).insertionSort (fun a b => seq a ≤ seq b) =
      rows.map Prod.snd := by
    refine eq_of_sorted_by seq ((List.perm_insertionSort _ _).trans hsnd) ?_
      (List.pairwise_insertionSort _ _) ?_
    · rw [List.map_map]
      exact (List.pairwise_map.mpr (h.ordered.imp fun hlt => Nat.ne_of_lt hlt))
    · exact List.pairwise_map.mpr (h.ordered.imp Nat.le_of_lt)
  rw [hsort, ← h.events, List.map_map, List.map_map]
  rfl

end Nightfall.Core
