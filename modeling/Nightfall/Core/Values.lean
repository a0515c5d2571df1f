import Mathlib.Data.List.Forall2
import Mathlib.Data.List.Nodup

/-!
# Nested Python values

Scalars, texts, dictionaries, lists and tuples inside one another.

* `dictOf`: a dictionary built entry by entry; an equal key keeps its place and takes the
  new value.
* `Alike leaf`: two values of one shape whose texts are related by `leaf`, which also sees
  the nearest dictionary key above them. Equality of Python values is `Alike SameText`.
-/
namespace Nightfall.Core

/-- A dictionary key; of one that is no string only `str(key)` is kept. -/
inductive PyKey where
  | text (s : String)
  | other (s : String)
  deriving DecidableEq, Repr

/-- `str(key)`. -/
def PyKey.str : PyKey → String
  | .text s => s
  | .other s => s

inductive PyValue where
  | none
  | bool (b : Bool)
  | int (n : Int)
  /-- by its bits -/
  | float (bits : UInt64)
  | path (s : String)
  | text (s : String)
  | dict (entries : List (PyKey × PyValue))
  | list (items : List PyValue)
  | tuple (items : List PyValue)
  /-- in the order of iteration -/
  | set (items : List PyValue)
  /-- any other object, by its `str` -/
  | other (s : String)

/-! ## Building a dictionary -/

section Building
variable {κ ν ω : Type}

/-- Entries with the same keys and related values. -/
def Entrywise (R : κ → ν → ω → Prop) : List (κ × ν) → List (κ × ω) → Prop :=
  List.Forall₂ fun e e' => e.1 = e'.1 ∧ R e.1 e.2 e'.2

theorem Entrywise.keys {R : κ → ν → ω → Prop} {es : List (κ × ν)} {es' : List (κ × ω)}
    (h : Entrywise R es es') : es.map Prod.fst = es'.map Prod.fst := by
  induction h with
  | nil => rfl
  | cons he _ ih => rw [List.map_cons, List.map_cons, he.1, ih]

variable [DecidableEq κ]

/-- `entries[key] = value`. -/
def setItem (key : κ) (value : ν) : List (κ × ν) → List (κ × ν)
  | [] => [(key, value)]
  | e :: es => if e.1 = key then (key, value) :: es else e :: setItem key value es

/-- The dictionary after `items` are assigned in order. -/
def dictOf (items : List (κ × ν)) : List (κ × ν) :=
  items.foldl (fun entries e => setItem e.1 e.2 entries) []

theorem setItem_fresh {key : κ} {value : ν} : ∀ {es : List (κ × ν)}, key ∉ es.map Prod.fst →
    setItem key value es = es ++ [(key, value)]
  | [], _ => rfl
  | e :: es, h => by
    rw [List.map_cons, List.mem_cons, not_or] at h
    rw [setItem, if_neg fun heq => h.1 heq.symm, setItem_fresh h.2, List.cons_append]

theorem foldl_setItem {items : List (κ × ν)} : ∀ {es : List (κ × ν)},
    ((es ++ items).map Prod.fst).Nodup →
    items.foldl (fun entries e => setItem e.1 e.2 entries) es = es ++ items := by
  induction items with
  | nil => simp
  | cons e items ih =>
    intro es h
    have hfresh : e.1 ∉ es.map Prod.fst := by
      rw [List.map_append, List.map_cons] at h
      have hdisjoint := (List.nodup_append.mp h).2.2
      exact fun hmem => hdisjoint _ hmem _ List.mem_cons_self rfl
    rw [List.foldl_cons, setItem_fresh hfresh, ih (by simpa using h), List.append_assoc]
    rfl

/-- Different keys keep their order. -/
theorem dictOf_of_nodup {items : List (κ × ν)} (h : (items.map Prod.fst).Nodup) :
    dictOf items = items := foldl_setItem h

variable {R : κ → ν → ω → Prop} {es : List (κ × ν)} {es' : List (κ × ω)}

theorem Entrywise.setItem {key : κ} {value : ν} {value' : ω} (h : Entrywise R es es')
    (hvalue : R key value value') :
    Entrywise R (setItem key value es) (setItem key value' es') := by
  induction h with
  | nil => exact .cons ⟨rfl, hvalue⟩ .nil
  | @cons e e' es es' he hes ih =>
    rw [Core.setItem, Core.setItem, ← he.1]
    split
    · exact .cons ⟨rfl, hvalue⟩ hes
    · exact .cons he ih

theorem Entrywise.foldl {items : List (κ × ν)} {items' : List (κ × ω)}
    (hitems : Entrywise R items items') (h : Entrywise R es es') :
    Entrywise R (items.foldl (fun entries e => Core.setItem e.1 e.2 entries) es)
      (items'.foldl (fun entries e => Core.setItem e.1 e.2 entries) es') := by
  induction hitems generalizing es es' with
  | nil => exact h
  | @cons e e' items items' he _ ih =>
    rw [List.foldl_cons, List.foldl_cons, ← he.1]
    exact ih (h.setItem he.2)

/-- Entries assigned in one order stay entrywise related, equal keys or not. -/
theorem Entrywise.dictOf (h : Entrywise R es es') :
    Entrywise R (dictOf es) (dictOf es') := h.foldl .nil

end Building

/-! ## Alike values -/

/-- One shape, and texts related by `leaf` under the nearest key above them. The entries of
a dictionary pair up in their order, or in another one if no two keys have the same text. -/
inductive Alike (leaf : Option String → String → String → Prop) :
    Option String → PyValue → PyValue → Prop
  | same {hint v} : Alike leaf hint v v
  | text {hint s s'} (h : leaf hint s s') : Alike leaf hint (.text s) (.text s')
  | list {hint vs vs'} (hlength : vs.length = vs'.length)
      (h : ∀ p ∈ vs.zip vs', Alike leaf hint p.1 p.2) : Alike leaf hint (.list vs) (.list vs')
  | tuple {hint vs vs'} (hlength : vs.length = vs'.length)
      (h : ∀ p ∈ vs.zip vs', Alike leaf hint p.1 p.2) : Alike leaf hint (.tuple vs) (.tuple vs')
  | dict {hint es mid es'} (hkeys : es.map Prod.fst = mid.map Prod.fst)
      (h : ∀ p ∈ es.zip mid, Alike leaf (some p.1.1.str) p.1.2 p.2.2)
      (horder : mid = es' ∨ mid.Perm es' ∧ (es.map fun e => e.1.str).Nodup) :
      Alike leaf hint (.dict es) (.dict es')

/-- Equal texts, under any key. -/
def SameText (_ : Option String) (s s' : String) : Prop := s = s'

section Alike
variable {leaf : Option String → String → String → Prop} {hint : Option String}

theorem forall_zip_of_forall₂ {α β : Type} {R : α → β → Prop} {xs : List α} {ys : List β}
    (h : List.Forall₂ R xs ys) : xs.length = ys.length ∧ ∀ p ∈ xs.zip ys, R p.1 p.2 :=
  have ⟨hlength, hzip⟩ := List.forall₂_iff_zip.mp h
  ⟨hlength, fun _ hp => hzip hp⟩

theorem forall₂_of_forall_zip {α β : Type} {R : α → β → Prop} {xs : List α} {ys : List β}
    (hlength : xs.length = ys.length) (h : ∀ p ∈ xs.zip ys, R p.1 p.2) : List.Forall₂ R xs ys :=
  List.forall₂_iff_zip.mpr ⟨hlength, fun hp => h _ hp⟩

/-- Keys in one order and values related pair by pair. -/
theorem entrywise_of_zip {κ ν ω : Type} {R : κ → ν → ω → Prop} {es : List (κ × ν)}
    {es' : List (κ × ω)} (hkeys : es.map Prod.fst = es'.map Prod.fst)
    (h : ∀ p ∈ es.zip es', R p.1.1 p.1.2 p.2.2) : Entrywise R es es' := by
  induction es generalizing es' with
  | nil =>
    rw [List.map_nil, eq_comm, List.map_eq_nil_iff] at hkeys
    rw [hkeys]
    exact .nil
  | cons e es ih =>
    cases es' with
    | nil => cases hkeys
    | cons e' es' =>
      obtain ⟨hkey, hkeys⟩ := List.cons.inj hkeys
      have hhead := h (e, e') (by simp)
      exact .cons ⟨hkey, hhead⟩ (ih hkeys fun p hp => h p (List.mem_cons_of_mem _ hp))

theorem Alike.of_items {vs vs' : List PyValue} (h : List.Forall₂ (Alike leaf hint) vs vs') :
    Alike leaf hint (.list vs) (.list vs') :=
  have ⟨hlength, hzip⟩ := forall_zip_of_forall₂ h
  .list hlength hzip

theorem Alike.of_entries {es mid es' : List (PyKey × PyValue)}
    (h : Entrywise (fun key => Alike leaf (some key.str)) es mid)
    (horder : mid = es' ∨ mid.Perm es' ∧ (es.map fun e => e.1.str).Nodup) :
    Alike leaf hint (.dict es) (.dict es') :=
  .dict h.keys (fun p hp => ((forall_zip_of_forall₂ h).2 p hp).2) horder

end Alike
end Nightfall.Core
