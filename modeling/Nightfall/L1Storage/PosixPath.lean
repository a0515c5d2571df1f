import Nightfall.L1Storage.Names

/-!
# Paths as `pathlib` keeps them

A configured path is compared and taken apart before anything is resolved: it
may be relative, hold `..`, or have no name at all (`.` and `/`). `PosixPath` is
such a path; `child` is `parent / name` and everything derived from a path here
is one.

* `child_inj`: a child is its directory and its name.
* `withSuffix_add`: `p.with_suffix(p.suffix + ext)` appends to the name.
-/
namespace Nightfall.Storage

/-- How a path starts: two leading slashes are kept apart from one. -/
inductive Anchor where
  | relative
  | slash
  | slashes
  deriving DecidableEq, Repr

def Anchor.str : Anchor → String
  | .relative => ""
  | .slash => "/"
  | .slashes => "//"

/-- What can stand between two slashes of a parsed path. -/
structure IsPart (s : String) : Prop where
  ne_empty : s ≠ ""
  ne_dot : s ≠ "."
  noSlash : '/' ∉ s.toList

instance (s : String) : Decidable (IsPart s) :=
  decidable_of_iff (s ≠ "" ∧ s ≠ "." ∧ '/' ∉ s.toList)
    ⟨fun h => ⟨h.1, h.2.1, h.2.2⟩, fun h => ⟨h.ne_empty, h.ne_dot, h.noSlash⟩⟩

structure PosixPath where
  anchor : Anchor
  parts : List String
  isPart : ∀ part ∈ parts, IsPart part
  deriving DecidableEq

namespace PosixPath

/-- `str(path)`. -/
def str (p : PosixPath) : String :=
  if p.anchor = .relative ∧ p.parts = [] then "." else p.anchor.str ++ "/".intercalate p.parts

/-- `path / name`. -/
def child (d : PosixPath) (name : String) (h : IsPart name) : PosixPath where
  anchor := d.anchor
  parts := d.parts ++ [name]
  isPart part hpart := by
    rcases List.mem_append.mp hpart with hold | hnew
    · exact d.isPart part hold
    · rw [List.mem_singleton.mp hnew]
      exact h

/-- `path.parent`; a path without a name is its own parent. -/
def parent (p : PosixPath) : PosixPath where
  anchor := p.anchor
  parts := p.parts.dropLast
  isPart part hpart := p.isPart part (List.dropLast_subset _ hpart)

def name (p : PosixPath) : String := p.parts.getLast?.getD ""

def stem (p : PosixPath) : String := String.ofList (splitSuffix p.name.toList).1

def suffix (p : PosixPath) : String := String.ofList (splitSuffix p.name.toList).2

/-! ## Directory and name -/

theorem child_inj {d d' : PosixPath} {n n' : String} {h : IsPart n} {h' : IsPart n'} :
    d.child n h = d'.child n' h' ↔ d = d' ∧ n = n' := by
  obtain ⟨anchor, parts, _⟩ := d
  obtain ⟨anchor', parts', _⟩ := d'
  simp [child, and_assoc]

@[simp] theorem parent_child (d : PosixPath) (n : String) (h : IsPart n) :
    (d.child n h).parent = d := by
  obtain ⟨anchor, parts, _⟩ := d
  simp [child, parent]

@[simp] theorem name_child (d : PosixPath) (n : String) (h : IsPart n) : (d.child n h).name = n := by
  simp [child, name]

/-- A path has no name, or is the child of its parent. -/
theorem nameless_or_child (p : PosixPath) :
    (p.parts = [] ∧ p.name = "" ∧ p.parent = p) ∨
      ∃ h : IsPart p.name, p = p.parent.child p.name h := by
  obtain ⟨anchor, parts, hparts⟩ := p
  rcases List.eq_nil_or_concat parts with rfl | ⟨init, last, rfl⟩
  · exact .inl ⟨rfl, rfl, rfl⟩
  · refine .inr ⟨?_, ?_⟩
    · simpa [name] using hparts last (by simp)
    · simp [child, parent, name]

theorem name_eq_empty_iff (p : PosixPath) : p.name = "" ↔ p.parts = [] := by
  rcases p.nameless_or_child with ⟨hparts, hname, -⟩ | ⟨hpart, hp⟩
  · exact iff_of_true hname hparts
  · refine iff_of_false hpart.ne_empty fun hnil => ?_
    rw [hp] at hnil
    simp [child] at hnil

theorem eq_of_parent_name {p q : PosixPath} (hparent : p.parent = q.parent)
    (hname : p.name = q.name) : p = q := by
  rcases p.nameless_or_child with ⟨-, hp, hpp⟩ | ⟨hpart, hp⟩
  · rcases q.nameless_or_child with ⟨-, -, hqq⟩ | ⟨hpart, -⟩
    · rw [← hpp, hparent, hqq]
    · exact absurd (hname.symm.trans hp) hpart.ne_empty
  · rcases q.nameless_or_child with ⟨-, hq, -⟩ | ⟨hpart', hq⟩
    · exact absurd (hname.trans hq) hpart.ne_empty
    · rw [hp, hq]
      exact child_inj.mpr ⟨hparent, hname⟩

theorem noSlash_name (p : PosixPath) : '/' ∉ p.name.toList := by
  rcases p.nameless_or_child with ⟨-, hname, -⟩ | ⟨hpart, -⟩
  · simp [hname]
  · exact hpart.noSlash

/-! ## Stem and suffix -/

theorem stem_append_suffix (p : PosixPath) : p.stem ++ p.suffix = p.name := by
  apply String.toList_inj.mp
  simpa [stem, suffix] using splitSuffix_append p.name.toList

theorem noSlash_stem (p : PosixPath) : '/' ∉ p.stem.toList := by
  intro h
  apply p.noSlash_name
  rw [← p.stem_append_suffix]
  simp [h]

theorem noSlash_suffix (p : PosixPath) : '/' ∉ p.suffix.toList := by
  intro h
  apply p.noSlash_name
  rw [← p.stem_append_suffix]
  simp [h]

/-- The whole name is the stem, or a dot behind the stem starts the suffix. -/
theorem splitSuffix_cases (name : List Char) :
    splitSuffix name = (name, []) ∨
      ∃ stem ext, stem ≠ [] ∧ splitSuffix name = (stem, '.' :: ext) := by
  unfold splitSuffix
  simp only
  split
  · next stem _ =>
    by_cases hempty : (stem.isEmpty || (name.reverse.takeWhile (· != '.')).isEmpty) = true
    · rw [if_pos hempty]
      exact .inl rfl
    · rw [if_neg hempty]
      refine .inr ⟨_, _, ?_, rfl⟩
      simp only [Bool.or_eq_true, List.isEmpty_iff, not_or] at hempty
      simpa using hempty.1
  · exact .inl rfl

theorem stem_eq_empty_iff (p : PosixPath) : p.stem = "" ↔ p.name = "" := by
  rw [stem, String.ofList_eq_empty_iff, ← String.toList_eq_nil_iff]
  rcases splitSuffix_cases p.name.toList with hwhole | ⟨stem, ext, hstem, hsplit⟩
  · rw [hwhole]
  · have happend := splitSuffix_append p.name.toList
    rw [hsplit] at happend ⊢
    exact iff_of_false hstem fun hnil => by simp [hnil] at happend

theorem isPart_append {s ext : String} (hs : '/' ∉ s.toList) (hext : IsPart ext) :
    IsPart (s ++ ext) := by
  refine ⟨fun h => hext.ne_empty ?_, fun h => ?_, ?_⟩
  · have hboth : s = "" ∧ ext = "" := by simpa using congrArg String.toList h
    exact hboth.2
  · have hlist : s.toList ++ ext.toList = ['.'] := by simpa using congrArg String.toList h
    rcases List.append_eq_singleton_iff.mp hlist with ⟨-, hdot⟩ | ⟨-, hnil⟩
    · exact hext.ne_dot (String.toList_inj.mp hdot)
    · exact hext.ne_empty (String.toList_inj.mp hnil)
  · simpa using ⟨hs, hext.noSlash⟩

/-- A suffix `with_suffix` takes, the empty one apart. -/
structure IsSuffix (s : String) : Prop where
  dot : s.toList.head? = some '.'
  isPart : IsPart s

instance (s : String) : Decidable (IsSuffix s) :=
  decidable_of_iff (s.toList.head? = some '.' ∧ IsPart s)
    ⟨fun h => ⟨h.1, h.2⟩, fun h => ⟨h.dot, h.isPart⟩⟩

/-- `path.with_suffix(suffix)` for a suffix that is not empty, `none` for
`ValueError`. -/
def withSuffix (p : PosixPath) (suffix : String) : Option PosixPath :=
  if h : p.parts ≠ [] ∧ IsSuffix suffix then
    some (p.parent.child (p.stem ++ suffix) (isPart_append p.noSlash_stem h.2.isPart))
  else none

theorem isSuffix_add (p : PosixPath) {ext : String} (h : IsSuffix ext) :
    IsSuffix (p.suffix ++ ext) := by
  refine ⟨?_, isPart_append p.noSlash_suffix h.isPart⟩
  rcases splitSuffix_cases p.name.toList with hwhole | ⟨stem, rest, -, hsplit⟩
  · simpa [suffix, hwhole] using h.dot
  · simp [suffix, hsplit]

/-- Stem and suffix together are the name, so the extension is appended to it. -/
theorem withSuffix_add (p : PosixPath) {ext : String} (h : IsSuffix ext) (hp : p.parts ≠ []) :
    p.withSuffix (p.suffix ++ ext) =
      some (p.parent.child (p.name ++ ext) (isPart_append p.noSlash_name h.isPart)) := by
  rw [withSuffix, dif_pos ⟨hp, p.isSuffix_add h⟩]
  refine congrArg some (child_inj.mpr ⟨rfl, ?_⟩)
  rw [← String.append_assoc, p.stem_append_suffix]

/-! ## Sidecars -/

/-- What `str(path)` has behind its last slash. -/
def label (p : PosixPath) : String :=
  if p.parts = [] then if p.anchor = .relative then "." else "" else p.name

theorem noSlash_label (p : PosixPath) : '/' ∉ p.label.toList := by
  unfold label
  split
  · split <;> decide
  · exact p.noSlash_name

/-- `Path(str(path) + ext)`. -/
def appendText (p : PosixPath) (ext : String) (h : IsPart ext) : PosixPath :=
  p.parent.child (p.label ++ ext) (isPart_append p.noSlash_label h)

/-- `ext` behind the suffix, or behind the text of a path without one. -/
def sidecar (p : PosixPath) (ext : String) (h : IsPart ext) : Option PosixPath :=
  if p.suffix ≠ "" then p.withSuffix (p.suffix ++ ext) else some (p.appendText ext h)

theorem sidecar_eq (p : PosixPath) {ext : String} (h : IsSuffix ext) :
    p.sidecar ext h.isPart = some (p.appendText ext h.isPart) := by
  unfold sidecar
  split
  · next hsuffix =>
    have hp : p.parts ≠ [] := by
      intro hnil
      have hname := p.name_eq_empty_iff.mpr hnil
      exact hsuffix (by simp [suffix, hname, splitSuffix])
    rw [p.withSuffix_add h hp]
    refine congrArg some (child_inj.mpr ⟨rfl, ?_⟩)
    rw [label, if_neg hp]
  · rfl

theorem eq_of_parent_label {p q : PosixPath} (hparent : p.parent = q.parent)
    (hlabel : p.label = q.label) : p = q := by
  -- A path without a name has a label no name can be.
  have hname : ∀ r : PosixPath, r.parts ≠ [] → IsPart r.label := by
    intro r hr
    rw [label, if_neg hr]
    rcases r.nameless_or_child with ⟨hnil, -⟩ | ⟨hpart, -⟩
    · exact absurd hnil hr
    · exact hpart
  have hnone : ∀ r : PosixPath, r.parts = [] → ¬ IsPart r.label := by
    intro r hr
    rw [label, if_pos hr]
    split <;> decide
  by_cases hp : p.parts = []
  · by_cases hq : q.parts = []
    · exact eq_of_parent_name hparent (by rw [p.name_eq_empty_iff.mpr hp, q.name_eq_empty_iff.mpr hq])
    · exact absurd (hlabel ▸ hname q hq) (hnone p hp)
  · by_cases hq : q.parts = []
    · exact absurd (hlabel ▸ hname p hp) (hnone q hq)
    · rw [label, if_neg hp, label, if_neg hq] at hlabel
      exact eq_of_parent_name hparent hlabel

end PosixPath
end Nightfall.Storage
