import Mathlib.Data.List.Sort
import Mathlib.Data.List.Nodup

/-!
# Entries in one stream

Keys with contents are written one behind the other, in the order of the keys, each key
and each content with the same mark behind it, which may be empty. Nothing says how long
a content is, so the stream of several entries is also the stream of the first key alone
with everything behind it as its content.

* `Entries`: keys with contents that can stand together.
* `stream_merge`: that one entry.
* `separates_iff`: a set whose stream belongs to no other set is empty or one entry whose
  content cannot be read otherwise.
-/
namespace Nightfall.Core

variable {κ β : Type} [LinearOrder κ]

/-- Keys with contents, each key once, all permitted and none below another. -/
structure Entries (β : Type) (permitted : κ → Prop) (below : κ → κ → Prop) where
  files : List (κ × List β)
  distinct : (files.map (·.1)).Nodup
  permitted : ∀ e ∈ files, permitted e.1
  apart : ∀ e ∈ files, ∀ e' ∈ files, ¬ below e.1 e'.1

/-- In the order of the keys. -/
def sortedByKey (files : List (κ × List β)) : List (κ × List β) :=
  files.insertionSort fun a b => decide (a.1 ≤ b.1)

variable (enc : κ → List β) (mark : List β)

/-- What is written for one entry. -/
def entry (e : κ × List β) : List β := enc e.1 ++ mark ++ e.2 ++ mark

def stream (files : List (κ × List β)) : List β := files.flatMap (entry enc mark)

theorem mem_sortedByKey {e : κ × List β} {files : List (κ × List β)} :
    e ∈ sortedByKey files ↔ e ∈ files := by
  rw [sortedByKey, List.mem_insertionSort]

theorem sortedByKey_nil : sortedByKey ([] : List (κ × List β)) = [] := rfl

theorem sortedByKey_singleton (e : κ × List β) : sortedByKey [e] = [e] := rfl

theorem sortedByKey_pair {e e' : κ × List β} (h : e.1 < e'.1) :
    sortedByKey [e, e'] = [e, e'] := by
  simp [sortedByKey, h.le]

theorem sortedByKey_strict {files : List (κ × List β)} (h : (files.map (·.1)).Nodup) :
    (sortedByKey files).Pairwise fun a b => a.1 < b.1 := by
  have hsorted : (sortedByKey files).Pairwise fun a b => a.1 ≤ b.1 :=
    (List.pairwise_insertionSort (fun a b : κ × List β => decide (a.1 ≤ b.1)) files).imp
      fun h => of_decide_eq_true h
  have hnodup : ((sortedByKey files).map (·.1)).Nodup :=
    ((List.perm_insertionSort _ files).map _).nodup_iff.mpr h
  exact (hsorted.and (List.pairwise_map.mp hnodup)).imp fun ⟨hle, hne⟩ => lt_of_le_of_ne hle hne

variable {enc mark} {permitted : κ → Prop} {below : κ → κ → Prop}

/-- One file. -/
def Entries.single {k : κ} (content : List β) (hk : permitted k) (hbelow : ¬ below k k) :
    Entries β permitted below :=
  ⟨[(k, content)], by simp, by simpa using hk, by simpa using hbelow⟩

/-- The set is the only one with its stream. -/
def Separates (enc : κ → List β) (mark : List β) (T : Entries β permitted below) : Prop :=
  ∀ T' : Entries β permitted below,
    stream enc mark (sortedByKey T'.files) = stream enc mark (sortedByKey T.files) →
      ∀ e, e ∈ T'.files ↔ e ∈ T.files

/-- The content cannot be read otherwise: no other key starts the entry, and no later key
stands in the content with the mark around it. -/
structure Unmistakable (enc : κ → List β) (mark : List β) (permitted : κ → Prop)
    (below : κ → κ → Prop) (k : κ) (content : List β) : Prop where
  first : ∀ q, permitted q → q ≠ k → ∀ rest,
    enc q ++ mark ++ rest ≠ enc k ++ mark ++ content
  within : ∀ q, permitted q → k < q → ¬ below k q → ∀ before rest,
    content ≠ before ++ mark ++ enc q ++ mark ++ rest

omit [LinearOrder κ] in
theorem stream_singleton (e : κ × List β) : stream enc mark [e] = entry enc mark e := by
  simp [stream]

omit [LinearOrder κ] in
theorem entry_eq_entry {k q : κ} {content content' : List β} :
    entry enc mark (k, content) = entry enc mark (q, content') ↔
      enc k ++ mark ++ content = enc q ++ mark ++ content' := by
  rw [entry, entry, List.append_left_inj]

omit [LinearOrder κ] in
/-- The first key with everything behind it as its content has the same stream. -/
theorem stream_merge (e e' : κ × List β) (files : List (κ × List β)) :
    ∃ rest, stream enc mark (e :: e' :: files) =
      entry enc mark (e.1, e.2 ++ mark ++ enc e'.1 ++ mark ++ rest) := by
  -- the content of the last entry ends where its mark begins
  have hend : ∀ (files : List (κ × List β)) (content : List β),
      ∃ rest, content ++ mark ++ stream enc mark files = rest ++ mark := by
    intro files
    induction files with
    | nil => exact fun content => ⟨content, by simp [stream]⟩
    | cons f files ih =>
      intro content
      obtain ⟨rest, hrest⟩ := ih (content ++ mark ++ enc f.1 ++ mark ++ f.2)
      exact ⟨rest, by rw [← hrest]; simp [stream, entry]⟩
  obtain ⟨rest, hrest⟩ := hend files e'.2
  refine ⟨rest, ?_⟩
  have hsplit : stream enc mark (e :: e' :: files) =
      entry enc mark e ++ (enc e'.1 ++ mark ++ (e'.2 ++ mark ++ stream enc mark files)) := by
    simp [stream, entry]
  rw [hsplit, hrest]
  simp [entry]

section Separates
variable (henc : ∀ k, permitted k → enc k ++ mark ≠ [])
  (hirrefl : ∀ k, permitted k → ¬ below k k) (hlt : ∀ k q, below q k → q < k)

include henc in
/-- Only the empty set has an empty stream. -/
theorem eq_nil_of_stream {T : Entries β permitted below}
    (h : stream enc mark (sortedByKey T.files) = []) : T.files = [] := by
  refine List.eq_nil_iff_forall_not_mem.mpr fun e he => henc e.1 (T.permitted e he) ?_
  have hentry := List.flatMap_eq_nil_iff.mp h e (mem_sortedByKey.mpr he)
  simp only [entry, List.append_eq_nil_iff] at hentry ⊢
  exact hentry.1.1

include hirrefl hlt in
/-- Another reading of a single entry is another set with its stream. -/
theorem unmistakable_of_separates {T : Entries β permitted below} {k : κ} {content : List β}
    (hT : T.files = [(k, content)]) (hsep : Separates enc mark T) :
    Unmistakable enc mark permitted below k content := by
  have hk : permitted k := T.permitted (k, content) (by simp [hT])
  refine ⟨fun q hq hne rest heq => ?_, fun q hq hkq hnot before rest heq => ?_⟩
  · have hsame := hsep (.single rest hq (hirrefl q hq)) (by
      rw [hT, Entries.single, sortedByKey_singleton, sortedByKey_singleton, stream_singleton,
        stream_singleton, entry_eq_entry, heq]) (q, rest)
    rw [hT, Entries.single] at hsame
    exact hne (congrArg Prod.fst (List.mem_singleton.mp (hsame.mp List.mem_cons_self)))
  · have hback : ¬ below q k := fun h => lt_asymm hkq (hlt k q h)
    let T' : Entries β permitted below :=
      ⟨[(k, before), (q, rest)], by simp [hkq.ne], by simp [hk, hq],
      by simp [hirrefl k hk, hirrefl q hq, hnot, hback]⟩
    have hsame := hsep T' (by
      rw [hT, sortedByKey_singleton, sortedByKey_pair hkq, stream_singleton, heq]
      simp [stream, entry]) (q, rest)
    rw [hT] at hsame
    have hmem : (q, rest) ∈ [(k, content)] := hsame.mp (by simp [T'])
    exact hkq.ne' (congrArg Prod.fst (List.mem_singleton.mp hmem))

include hirrefl in
/-- Two entries are mistaken for one. -/
theorem not_separates_of_two {T : Entries β permitted below} {e e' : κ × List β}
    {files : List (κ × List β)} (hT : sortedByKey T.files = e :: e' :: files) :
    ¬ Separates enc mark T := by
  intro hsep
  obtain ⟨rest, hrest⟩ := @stream_merge _ _ enc mark e e' files
  have hin : ∀ f ∈ e :: e' :: files, f ∈ T.files := fun f hf => mem_sortedByKey.mp (hT ▸ hf)
  have he : permitted e.1 := T.permitted e (hin e List.mem_cons_self)
  have hsame := hsep (.single (e.2 ++ mark ++ enc e'.1 ++ mark ++ rest) he (hirrefl e.1 he)) (by
    rw [hT, hrest, Entries.single, sortedByKey_singleton, stream_singleton]) e'
  have hmem := hsame.mpr (hin e' (by simp))
  rw [Entries.single, List.mem_singleton] at hmem
  have hstrict := sortedByKey_strict T.distinct
  rw [hT, List.pairwise_cons] at hstrict
  have hlt' := hstrict.1 e' List.mem_cons_self
  have hkey : e'.1 = e.1 := by rw [hmem]
  exact hlt'.ne' hkey

/-- An entry that cannot be read otherwise is the only set with its stream. -/
theorem separates_of_unmistakable (henc : ∀ k, permitted k → enc k ++ mark ≠ [])
    {T : Entries β permitted below} {k : κ} {content : List β} (hT : T.files = [(k, content)])
    (h : Unmistakable enc mark permitted below k content) : Separates enc mark T := by
  intro T' hstream
  rw [hT, sortedByKey_singleton, stream_singleton] at hstream
  have hperm : (sortedByKey T'.files).Perm T'.files := List.perm_insertionSort _ _
  have hfirst : ∀ e ∈ T'.files, ∀ rest, entry enc mark (e.1, rest) = entry enc mark (k, content) →
      e.1 = k ∧ rest = content := by
    intro e he rest heq
    rw [entry_eq_entry] at heq
    by_cases hek : e.1 = k
    · rw [hek, List.append_right_inj] at heq
      exact ⟨hek, heq⟩
    · exact absurd heq (h.first e.1 (T'.permitted e he) hek rest)
  have hstrict := sortedByKey_strict T'.distinct
  match hsorted : sortedByKey T'.files with
  | [] =>
    rw [hsorted] at hstream
    have hk := henc k (T.permitted (k, content) (by simp [hT]))
    have hnil : entry enc mark (k, content) = [] := hstream.symm
    rw [entry, List.append_assoc, List.append_eq_nil_iff] at hnil
    exact absurd hnil.1 hk
  | [e] =>
    rw [hsorted] at hperm hstream
    have hfiles : T'.files = [e] := List.perm_singleton.mp hperm.symm
    rw [stream_singleton] at hstream
    obtain ⟨hk, hcontent⟩ := hfirst e (by simp [hfiles]) e.2 hstream
    intro f
    rw [hfiles, hT, ← hk, ← hcontent]
  | e :: e' :: files =>
    rw [hsorted] at hperm hstream hstrict
    have hin : ∀ f ∈ e :: e' :: files, f ∈ T'.files := fun f hf => hperm.mem_iff.mp hf
    obtain ⟨rest, hrest⟩ := @stream_merge _ _ enc mark e e' files
    rw [hrest] at hstream
    obtain ⟨hk, hcontent⟩ := hfirst e (hin e List.mem_cons_self) _ hstream
    have hlt' : k < e'.1 := hk ▸ (List.pairwise_cons.mp hstrict).1 e' List.mem_cons_self
    have hapart : ¬ below k e'.1 := hk ▸ T'.apart e (hin e List.mem_cons_self) e' (hin e' (by simp))
    exact absurd hcontent.symm (h.within e'.1 (T'.permitted e' (hin e' (by simp))) hlt' hapart
      e.2 rest)

include henc hirrefl hlt in
/-- A set whose stream belongs to no other set is empty, or one entry that cannot be read
otherwise. -/
theorem separates_iff (T : Entries β permitted below) : Separates enc mark T ↔
    T.files = [] ∨ ∃ k content, T.files = [(k, content)] ∧
      Unmistakable enc mark permitted below k content := by
  constructor
  · intro hsep
    have hperm : (sortedByKey T.files).Perm T.files := List.perm_insertionSort _ _
    match hsorted : sortedByKey T.files with
    | [] =>
      rw [hsorted] at hperm
      exact .inl hperm.nil_eq.symm
    | [e] =>
      rw [hsorted] at hperm
      have hT : T.files = [(e.1, e.2)] := List.perm_singleton.mp hperm.symm
      exact .inr ⟨e.1, e.2, hT, unmistakable_of_separates hirrefl hlt hT hsep⟩
    | e :: e' :: files => exact absurd hsep (not_separates_of_two hirrefl hsorted)
  · rintro (hT | ⟨k, content, hT, h⟩)
    · intro T' hstream e
      rw [hT, sortedByKey_nil] at hstream
      rw [eq_nil_of_stream henc hstream, hT]
    · exact separates_of_unmistakable henc hT h

end Separates
end Nightfall.Core
