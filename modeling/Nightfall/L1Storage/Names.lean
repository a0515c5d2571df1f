import Mathlib.Data.List.Infix
import Mathlib.Data.List.TakeWhile
import Mathlib.Tactic.Common

/-!
# Paths, file names and the storage template (`domain/storage.py`)

A path is the list of its components below `/`, resolved and free of symbolic
links, so `Path(str(p)) = p` and `p.resolve()` is `p`. File names are handled
character by character, as the source's string methods do.

* `withinRoot_append`, `not_within_both`: what `_ensure_within_root` accepts,
  and that no path lies in two roots neither of which contains the other.
* `sanitizeFilename_good`: a sanitised name has a character that is neither a
  dot nor a separator.
* `renderStorageRelativePath_ne_nil`: a template with one such character never
  renders the root itself.
-/
namespace Nightfall.Storage

abbrev Path := List String

abbrev Bytes := List UInt8

/-- `str(path)`. -/
def Path.str (p : Path) : String := "/" ++ "/".intercalate p

/-- `Path.name`. -/
def Path.name (p : Path) : String := p.getLast?.getD ""

/-- `Path.with_name`. -/
def Path.withName (p : Path) (n : String) : Path := p.dropLast ++ [n]

/-! ## Containment in a root -/

/-- `resolved == root or str(resolved).startswith(str(root) + os.sep)`; for the
root directory the second test compares with `//` and never succeeds.
mirrors src/nightfall_photo_ingress/domain/storage.py:254-262 -/
def withinRoot (p root : Path) : Bool :=
  (!root.isEmpty && root.isPrefixOf p) || p == root

theorem prefix_of_withinRoot {p root : Path} (h : withinRoot p root = true) : root <+: p := by
  simp only [withinRoot, Bool.or_eq_true, Bool.and_eq_true, beq_iff_eq] at h
  rcases h with ⟨-, h⟩ | rfl
  · exact List.isPrefixOf_iff_prefix.mp h
  · exact List.prefix_rfl

theorem withinRoot_of_prefix {p root : Path} (hr : root ≠ []) (h : root <+: p) :
    withinRoot p root = true := by
  simp [withinRoot, hr, List.isPrefixOf_iff_prefix, h]

/-- Neither root contains the other. -/
def Unnested (r r' : Path) : Prop := ¬ r <+: r' ∧ ¬ r' <+: r

theorem Unnested.symm {r r' : Path} (h : Unnested r r') : Unnested r' r := ⟨h.2, h.1⟩

theorem Unnested.ne_nil {r r' : Path} (h : Unnested r r') : r ≠ [] := by
  rintro rfl
  exact h.1 List.nil_prefix

/-- No path has two unnested roots among its ancestors. -/
theorem Unnested.disjoint {r r' p : Path} (h : Unnested r r') (hp : r <+: p) : ¬ r' <+: p := by
  intro hp'
  rcases List.prefix_or_prefix_of_prefix hp hp' with h1 | h1
  · exact h.1 h1
  · exact h.2 h1

theorem Unnested.ne {r r' p p' : Path} (h : Unnested r r') (hp : r <+: p) (hp' : r' <+: p') :
    p ≠ p' := by
  rintro rfl
  exact h.disjoint hp hp'

/-! ## Stem and suffix -/

/-- `(stem, suffix)` of a file name: the suffix starts at the last dot, unless
that dot is the first or the last character. -/
def splitSuffix (name : List Char) : List Char × List Char :=
  let ext := name.reverse.takeWhile (· != '.')
  match name.reverse.dropWhile (· != '.') with
  | '.' :: stem =>
    if stem.isEmpty || ext.isEmpty then (name, []) else (stem.reverse, '.' :: ext.reverse)
  | _ => (name, [])

/-- `f"{stem}-{mark}{suffix}"`. -/
def markedName (name mark : String) : String :=
  let (stem, suffix) := splitSuffix name.toList
  String.ofList (stem ++ '-' :: mark.toList ++ suffix)

/-- Stem and suffix together are the name. -/
theorem splitSuffix_append (name : List Char) :
    (splitSuffix name).1 ++ (splitSuffix name).2 = name := by
  unfold splitSuffix
  have hsplit := List.takeWhile_append_dropWhile (p := (· != '.')) (l := name.reverse)
  cases hdrop : name.reverse.dropWhile (· != '.') with
  | nil => simp
  | cons d stem =>
    have hd : d = '.' := by
      have := List.head?_dropWhile_not (· != '.') name.reverse
      rw [hdrop] at this
      simpa using this
    subst hd
    simp only
    split
    · simp
    · rw [hdrop] at hsplit
      have hname := congrArg List.reverse hsplit
      simpa using hname

/-- A marked name is longer than the name. -/
theorem markedName_ne (name mark : String) : markedName name mark ≠ name := by
  intro h
  have hlen := congrArg (fun n => n.toList.length) h
  have hname := congrArg List.length (splitSuffix_append name.toList)
  simp only [markedName, String.toList_ofList, List.length_append, List.length_cons] at hlen hname
  omega

/-- The name tried at collision number `index`.
mirrors src/nightfall_photo_ingress/domain/storage.py:104-109 -/
def collisionName (name : String) (index : Nat) : String := markedName name (toString index)

/-- `Path(filename).name` of a text that may hold separators. -/
def lastComponent (filename : String) : List Char :=
  ((filename.toList.splitOn '/').filter fun part => part != [] && part != ['.']).getLast?.getD []

/-- `path.with_suffix(path.suffix + ext)`: stem and suffix together are the
whole name, so the extension is simply appended. -/
def Path.addExt (p : Path) (ext : String) : Path := p.withName (p.name ++ ext)

@[simp] theorem name_addExt (p : Path) (ext : String) : (p.addExt ext).name = p.name ++ ext := by
  simp [Path.addExt, Path.withName, Path.name]

/-- Two extensions of one path differ. -/
theorem addExt_inj {p : Path} {ext ext' : String} (h : p.addExt ext = p.addExt ext') :
    ext = ext' := by
  have hname := congrArg (fun q => (Path.name q).toList) h
  exact String.toList_inj.mp (by simpa using hname)

theorem addExt_ne {p : Path} {ext : String} (h : ext ≠ "") : p.addExt ext ≠ p := by
  intro he
  have hname := congrArg (fun q => (Path.name q).toList) he
  exact h (by simpa using hname)

/-! ## Sanitising -/

/-- The class `[A-Za-z0-9._ -]` of `_SAFE_NAME_RE`. -/
def isSafeNameChar (c : Char) : Bool :=
  ('A' ≤ c && c ≤ 'Z') || ('a' ≤ c && c ≤ 'z') || ('0' ≤ c && c ≤ '9') ||
    c == '.' || c == '_' || c == ' ' || c == '-'

/-- `_SAFE_NAME_RE.sub("_", value)`: each maximal run of unsafe characters
becomes one underscore; `inRun` says whether the run has been written. -/
def subUnsafe : Bool → List Char → List Char
  | _, [] => []
  | inRun, c :: cs =>
    if isSafeNameChar c then c :: subUnsafe false cs
    else if inRun then subUnsafe true cs
    else '_' :: subUnsafe true cs

def isStripped (c : Char) : Bool := c == '.' || c == '_' || c == ' '

/-- `str.strip` with the given character class. -/
def stripBy (p : Char → Bool) (cs : List Char) : List Char :=
  ((cs.dropWhile p).reverse.dropWhile p).reverse

/-- The whitespace `str.strip()` removes. -/
def isPySpace (c : Char) : Bool :=
  let n := c.toNat
  (9 ≤ n && n ≤ 13) || (28 ≤ n && n ≤ 32) || n == 0x85 || n == 0xa0 || n == 0x1680 ||
    (0x2000 ≤ n && n ≤ 0x200a) || n == 0x2028 || n == 0x2029 || n == 0x202f || n == 0x205f ||
    n == 0x3000

/-- `str.strip()`. -/
def pyStrip (s : String) : String := String.ofList (stripBy isPySpace s.toList)

/-- mirrors src/nightfall_photo_ingress/domain/storage.py:47-51 -/
def sanitizeFilename (value : String) : List Char :=
  let cleaned := stripBy isStripped (subUnsafe false value.toList)
  if cleaned.isEmpty then "unnamed".toList else cleaned

/-- A character that keeps a path component from being empty, `.` or `..`. -/
def isGood (c : Char) : Bool := c != '/' && c != '.'

theorem mem_stripBy {p : Char → Bool} {cs : List Char} {c : Char} (h : c ∈ stripBy p cs) :
    c ∈ cs := by
  have h1 := (List.dropWhile_sublist p).mem (List.mem_reverse.mp h)
  exact (List.dropWhile_sublist p).mem (List.mem_reverse.mp h1)

theorem stripBy_head (p : Char → Bool) (cs : List Char) :
    ∀ c, (stripBy p cs).head? = some c → p c = false := by
  intro c hc
  have hprefix : stripBy p cs <+: cs.dropWhile p := by
    rw [← List.reverse_suffix, stripBy, List.reverse_reverse]
    exact List.dropWhile_suffix p
  have hhead : (cs.dropWhile p).head? = some c := by
    obtain ⟨rest, hrest⟩ := hprefix
    rw [← hrest, List.head?_append, hc]
    rfl
  have hnot := List.head?_dropWhile_not p cs
  rw [hhead] at hnot
  simpa using hnot

theorem stripBy_last (p : Char → Bool) (cs : List Char) :
    ∀ c, (stripBy p cs).getLast? = some c → p c = false := by
  intro c hc
  rw [stripBy, List.getLast?_reverse] at hc
  have hnot := List.head?_dropWhile_not p (cs.dropWhile p).reverse
  rw [hc] at hnot
  simpa using hnot

theorem dropWhile_of_head {p : Char → Bool} {cs : List Char}
    (h : ∀ c, cs.head? = some c → p c = false) : cs.dropWhile p = cs := by
  cases cs with
  | nil => rfl
  | cons c cs => rw [List.dropWhile_cons_of_neg (by simp [h c rfl])]

/-- A text with nothing to strip at either end. -/
theorem stripBy_of_ends {p : Char → Bool} {cs : List Char}
    (hhead : ∀ c, cs.head? = some c → p c = false)
    (hlast : ∀ c, cs.getLast? = some c → p c = false) : stripBy p cs = cs := by
  rw [stripBy, dropWhile_of_head hhead, dropWhile_of_head, List.reverse_reverse]
  intro c hc
  exact hlast c (by rwa [List.head?_reverse] at hc)

theorem stripBy_eq_self {p : Char → Bool} {cs : List Char} (h : ∀ c ∈ cs, p c = false) :
    stripBy p cs = cs :=
  stripBy_of_ends (fun c hc => h c (List.mem_of_mem_head? hc))
    fun c hc => h c (List.mem_of_getLast? hc)

/-- `strip` keeps a character that is not stripped. -/
theorem stripBy_ne_nil {p : Char → Bool} {cs : List Char} {c : Char} (hc : c ∈ cs)
    (hp : p c = false) : stripBy p cs ≠ [] := by
  intro h
  have h1 : (cs.dropWhile p).reverse.dropWhile p = [] := by simpa [stripBy] using h
  have h2 : ∀ d ∈ cs.dropWhile p, p d = true := by
    simpa [List.dropWhile_eq_nil_iff] using h1
  have h3 : ∀ d ∈ cs, p d = true := by
    intro d hd
    rw [← List.takeWhile_append_dropWhile (p := p) (l := cs), List.mem_append] at hd
    rcases hd with hd | hd
    · exact List.mem_takeWhile_imp hd
    · exact h2 d hd
  rw [h3 c hc] at hp
  cases hp

theorem mem_subUnsafe {c : Char} : ∀ {b : Bool} {cs : List Char}, c ∈ subUnsafe b cs →
    isSafeNameChar c = true
  | _, [], h => by simp [subUnsafe] at h
  | b, d :: cs, h => by
    unfold subUnsafe at h
    split at h
    · rcases List.mem_cons.mp h with rfl | h
      · assumption
      · exact mem_subUnsafe h
    · split at h
      · exact mem_subUnsafe h
      · rcases List.mem_cons.mp h with rfl | h
        · decide
        · exact mem_subUnsafe h

/-- The last character kept by `strip` is outside the stripped class. -/
theorem stripBy_getLast (p : Char → Bool) (cs : List Char) (h : stripBy p cs ≠ []) :
    ∃ c ∈ stripBy p cs, p c = false :=
  ⟨_, List.getLast_mem h, stripBy_last p cs _ (List.getLast?_eq_some_getLast h)⟩

theorem sanitizeFilename_good (value : String) : ∃ c ∈ sanitizeFilename value, isGood c = true := by
  unfold sanitizeFilename
  simp only
  split
  · exact ⟨'u', by decide, by decide⟩
  · next h =>
    obtain ⟨c, hc, hp⟩ := stripBy_getLast isStripped (subUnsafe false value.toList)
      (by simpa using h)
    refine ⟨c, hc, ?_⟩
    have hs := mem_subUnsafe (mem_stripBy hc)
    simp only [isStripped, Bool.or_eq_false_iff, beq_eq_false_iff_ne] at hp
    simp only [isGood, bne_iff_ne, ne_eq, Bool.and_eq_true, hp.1.1, not_false_eq_true, and_true]
    rintro rfl
    exact absurd hs (by decide)

/-! ## Rendering -/

/-- `pat in s`. -/
def isIn (pat s : List Char) : Bool := s.tails.any (pat.isPrefixOf ·)

theorem mem_of_isIn {pat s : List Char} (h : isIn pat s = true) {c : Char} (hc : c ∈ pat) :
    c ∈ s := by
  obtain ⟨t, ht, hp⟩ := List.any_eq_true.mp h
  have hsuffix : t <:+ s := (List.mem_tails t s).mp ht
  exact hsuffix.subset ((List.isPrefixOf_iff_prefix.mp hp).subset hc)

/-- `str.replace(pat, rep)`, left to right; `skip` counts the characters of the
current match still to be passed over. -/
def replaceGo (pat rep : List Char) : Nat → List Char → List Char
  | _, [] => []
  | skip + 1, _ :: cs => replaceGo pat rep skip cs
  | 0, c :: cs =>
    if pat.isPrefixOf (c :: cs) then rep ++ replaceGo pat rep (pat.length - 1) cs
    else c :: replaceGo pat rep 0 cs

def replaceAll (s pat rep : List Char) : List Char := replaceGo pat rep 0 s

/-- A decimal digit. -/
def digit (n : Nat) : Char := Nat.digitChar (n % 10)

/-- `f"{year:04d}"`; a `datetime` year has at most four digits. -/
def fmt04 (n : Nat) : List Char := [digit (n / 1000), digit (n / 100), digit (n / 10), digit n]

/-- `f"{month:02d}"`. -/
def fmt02 (n : Nat) : List Char := [digit (n / 10), digit n]

/-- What the model uses of a parsed `datetime`: `micros` is the instant in
microseconds. -/
structure Timestamp where
  year : Nat
  month : Nat
  micros : Int
  deriving DecidableEq, Repr

/-- The four replacements of the template, in the source's order. -/
def renderTemplate (template sha256 original : String) (ts : Timestamp) : List Char :=
  let r := replaceAll template.toList "{yyyy}".toList (fmt04 ts.year)
  let r := replaceAll r "{mm}".toList (fmt02 ts.month)
  let r := replaceAll r "{sha8}".toList (sha256.toList.take 8)
  replaceAll r "{original}".toList (sanitizeFilename original)

/-- `Path(rendered).parts` of a relative path: empty and `.` components are
dropped. -/
def pathParts (rendered : List Char) : List String :=
  ((rendered.splitOn '/').filter fun part => part != [] && part != ['.']).map String.ofList

inductive RenderError where
  | absolute
  | unsafeComponents
  deriving DecidableEq, Repr

def RenderError.msg : RenderError → String
  | .absolute => "Storage template must render a relative path"
  | .unsafeComponents => "Storage template renders unsafe path components"

/-- mirrors src/nightfall_photo_ingress/domain/storage.py:54-83, with the
timestamp already parsed -/
def renderStorageRelativePath (template sha256 original : String) (ts : Timestamp) :
    Except RenderError (List String) :=
  let rendered := renderTemplate template sha256 original ts
  if rendered.head? = some '/' then .error .absolute
  else if (pathParts rendered).any fun part => part == ".." || part == "" then
    .error .unsafeComponents
  else .ok (pathParts rendered)

/-- Some character of the list is good. -/
def HasGood (cs : List Char) : Prop := ∃ c ∈ cs, isGood c = true

theorem digit_good (n : Nat) : isGood (digit n) = true := by
  have key : ∀ k, k < 10 → isGood (Nat.digitChar k) = true := by decide
  exact key _ (Nat.mod_lt _ (by decide))

theorem fmt04_good (n : Nat) : HasGood (fmt04 n) := ⟨_, by simp [fmt04], digit_good n⟩

theorem fmt02_good (n : Nat) : HasGood (fmt02 n) := ⟨_, by simp [fmt02], digit_good n⟩

/-- Either a good character survives the replacement, or it was inside a match
and the good character of `rep` stands in its place. While `skip` characters of
a match are still to be passed over, `rep` has already been written. -/
theorem replaceGo_good {pat rep : List Char} (hr : HasGood rep) :
    ∀ (s : List Char), HasGood s → HasGood (replaceGo pat rep 0 s)
  | [], h => by obtain ⟨c, hc, -⟩ := h; cases hc
  | c :: cs, h => by
    unfold replaceGo
    split
    · obtain ⟨d, hd, hg⟩ := hr
      exact ⟨d, List.mem_append_left _ hd, hg⟩
    · obtain ⟨d, hd, hg⟩ := h
      rcases List.mem_cons.mp hd with rfl | hd
      · exact ⟨d, List.mem_cons_self, hg⟩
      · obtain ⟨e, he, hge⟩ := replaceGo_good hr cs ⟨d, hd, hg⟩
        exact ⟨e, List.mem_cons_of_mem _ he, hge⟩

theorem replaceAll_good {s pat rep : List Char} (hs : HasGood s) (hr : HasGood rep) :
    HasGood (replaceAll s pat rep) := replaceGo_good hr s hs

/-- A good character sits in some component. -/
theorem splitOn_good {cs : List Char} {c : Char} (hc : c ∈ cs) (hg : isGood c = true) :
    ∃ part ∈ cs.splitOn '/', c ∈ part := by
  have hne : c ≠ '/' := by rintro rfl; exact absurd hg (by decide)
  induction cs with
  | nil => cases hc
  | cons d cs ih =>
    rw [List.splitOn, List.splitOnP_cons_eq_if_modifyHead]
    split
    · next hd =>
      rcases List.mem_cons.mp hc with rfl | hc
      · exact absurd (by simpa using hd) hne
      · obtain ⟨part, hp, hcp⟩ := ih hc
        exact ⟨part, List.mem_cons_of_mem _ hp, hcp⟩
    · have hne' := List.splitOnP_ne_nil (· == '/') cs
      obtain ⟨x, xs, hx⟩ := List.exists_cons_of_ne_nil hne'
      rw [hx, List.modifyHead_cons]
      rcases List.mem_cons.mp hc with rfl | hc
      · exact ⟨_, List.mem_cons_self, List.mem_cons_self⟩
      · obtain ⟨part, hp, hcp⟩ := ih hc
        rw [List.splitOn, hx] at hp
        rcases List.mem_cons.mp hp with rfl | hp
        · exact ⟨_, List.mem_cons_self, List.mem_cons_of_mem _ hcp⟩
        · exact ⟨part, List.mem_cons_of_mem _ hp, hcp⟩

theorem pathParts_ne_nil {cs : List Char} (h : HasGood cs) : pathParts cs ≠ [] := by
  obtain ⟨c, hc, hg⟩ := h
  obtain ⟨part, hp, hcp⟩ := splitOn_good hc hg
  have hkeep : part ∈ (cs.splitOn '/').filter fun part => part != [] && part != ['.'] := by
    refine List.mem_filter.mpr ⟨hp, ?_⟩
    simp only [bne_iff_ne, ne_eq, Bool.and_eq_true]
    constructor
    · rintro rfl; cases hcp
    · rintro rfl
      rw [List.mem_singleton] at hcp
      subst hcp
      exact absurd hg (by decide)
  unfold pathParts
  intro hnil
  rw [List.map_eq_nil_iff] at hnil
  rw [hnil] at hkeep
  cases hkeep

/-- A template with a good character (every template that names `{original}`
or `{sha8}` has a brace) renders a path below the root, never the root. -/
theorem renderStorageRelativePath_ne_nil {template sha256 original : String} {ts : Timestamp}
    {rel : List String} (ht : HasGood template.toList) (hs : HasGood (sha256.toList.take 8))
    (h : renderStorageRelativePath template sha256 original ts = .ok rel) : rel ≠ [] := by
  have hg : HasGood (renderTemplate template sha256 original ts) :=
    replaceAll_good (replaceAll_good (replaceAll_good (replaceAll_good ht (fmt04_good _))
      (fmt02_good _)) hs) (sanitizeFilename_good original)
  unfold renderStorageRelativePath at h
  simp only at h
  split at h
  · cases h
  · split at h
    · cases h
    · cases h
      exact pathParts_ne_nil hg

example : (renderStorageRelativePath "{yyyy}/{mm}/{sha8}-{original}" "0123456789" "a b?.JPG"
    ⟨2024, 3, 0⟩).toOption = some ["2024", "03", "01234567-a b_.JPG"] := by decide

end Nightfall.Storage
