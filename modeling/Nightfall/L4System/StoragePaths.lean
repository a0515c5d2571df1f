import Nightfall.L4System.System

/-!
# What a storage template renders

The four replacements of `render_storage_relative_path` put in texts without a separator
that are not all dots, where texts of the same kind stood. Such a replacement (`Fills`)
works on each component by itself and leaves a component of dots alone, so the rendered
path has the components of the template.

`renderRelativePath_safe`: sanitised names, and the path of a template the linter passes.
-/
namespace Nightfall.Storage

/-! ## Sanitised names -/

theorem subUnsafe_safe : ∀ (b : Bool) {cs : List Char}, (∀ c ∈ cs, isSafeNameChar c = true) →
    subUnsafe b cs = cs
  | _, [], _ => rfl
  | b, c :: cs, h => by
    rw [subUnsafe, if_pos (h c List.mem_cons_self),
      subUnsafe_safe false fun d hd => h d (List.mem_cons_of_mem _ hd)]

/-- The names that sanitising makes. -/
structure IsSafeName (name : List Char) : Prop where
  nonempty : name ≠ []
  safe : ∀ c ∈ name, isSafeNameChar c = true
  head : ∀ c, name.head? = some c → isStripped c = false
  last : ∀ c, name.getLast? = some c → isStripped c = false

theorem sanitizeFilename_isSafeName (value : String) : IsSafeName (sanitizeFilename value) := by
  unfold sanitizeFilename
  simp only
  split
  · have hsafe : "unnamed".toList.all isSafeNameChar = true := by decide
    refine ⟨by decide, List.all_eq_true.mp hsafe, fun c hc => ?_, fun c hc => ?_⟩
    · obtain rfl : 'u' = c := Option.some_inj.mp hc
      decide
    · obtain rfl : 'd' = c := Option.some_inj.mp hc
      decide
  · next h =>
    exact ⟨by simpa using h, fun c hc => mem_subUnsafe (mem_stripBy hc),
      stripBy_head isStripped _, stripBy_last isStripped _⟩

theorem IsSafeName.fixed {name : List Char} (h : IsSafeName name) :
    sanitizeFilename (String.ofList name) = name := by
  unfold sanitizeFilename
  rw [String.toList_ofList, subUnsafe_safe false h.safe, stripBy_of_ends h.head h.last]
  simp [h.nonempty]

theorem IsSafeName.no_separator {name : List Char} (h : IsSafeName name) : '/' ∉ name :=
  fun hmem => absurd (h.safe _ hmem) (by decide)

/-! ## One replacement -/

section
variable {pat rep : List Char}

theorem isPrefixOf_append_sep (hpat : '/' ∉ pat) (a t : List Char) :
    pat.isPrefixOf (a ++ '/' :: t) = pat.isPrefixOf a := by
  induction pat generalizing a with
  | nil => simp
  | cons d pat ih =>
    rw [List.mem_cons, not_or] at hpat
    cases a with
    | nil => simp [List.isPrefixOf, beq_false_of_ne (Ne.symm hpat.1)]
    | cons c a => simp [List.isPrefixOf, ih hpat.2]

/-- A match does not reach over a separator. -/
theorem replaceGo_append_sep (hne : pat ≠ []) (hpat : '/' ∉ pat) (t : List Char) :
    ∀ (skip : Nat) (a : List Char), skip ≤ a.length →
      replaceGo pat rep skip (a ++ '/' :: t) =
        replaceGo pat rep skip a ++ '/' :: replaceGo pat rep 0 t := by
  intro skip a
  induction a generalizing skip with
  | nil =>
    intro hskip
    obtain rfl : skip = 0 := by simpa using hskip
    have hno : pat.isPrefixOf ('/' :: t) = false := by
      have hsame := isPrefixOf_append_sep hpat [] t
      rw [List.nil_append] at hsame
      cases pat with
      | nil => exact absurd rfl hne
      | cons d pat => exact hsame
    simp [replaceGo, hno]
  | cons c a ih =>
    intro hskip
    cases skip with
    | succ skip =>
      simp only [List.cons_append, replaceGo]
      exact ih skip (by simpa using hskip)
    | zero =>
      have hsame := isPrefixOf_append_sep hpat (c :: a) t
      rw [List.cons_append] at hsame
      simp only [List.cons_append, replaceGo, hsame]
      split
      · next h =>
        have hlen := (List.isPrefixOf_iff_prefix.mp h).length_le
        rw [List.length_cons] at hlen
        rw [ih _ (by omega), List.append_assoc]
      · rw [ih 0 (by omega), List.cons_append]

theorem mem_replaceGo {c : Char} : ∀ {skip : Nat} {s : List Char}, c ∈ replaceGo pat rep skip s →
    c ∈ s ∨ c ∈ rep
  | _, [], h => by simp [replaceGo] at h
  | skip + 1, _ :: s, h => by
    rw [replaceGo] at h
    exact (mem_replaceGo h).imp_left (List.mem_cons_of_mem _)
  | 0, d :: s, h => by
    unfold replaceGo at h
    split at h
    · rcases List.mem_append.mp h with h | h
      · exact .inr h
      · exact (mem_replaceGo h).imp_left (List.mem_cons_of_mem _)
    · rcases List.mem_cons.mp h with rfl | h
      · exact .inl List.mem_cons_self
      · exact (mem_replaceGo h).imp_left (List.mem_cons_of_mem _)

theorem mem_replaceAll {c : Char} {s : List Char} (h : c ∈ replaceAll s pat rep) :
    c ∈ s ∨ c ∈ rep :=
  mem_replaceGo h

theorem splitOn_replaceAll (hne : pat ≠ []) (hpat : '/' ∉ pat) (hrep : '/' ∉ rep) :
    ∀ s : List Char, (replaceAll s pat rep).splitOn '/' =
      (s.splitOn '/').map (replaceAll · pat rep) := by
  intro s
  by_cases hsep : '/' ∈ s
  · obtain ⟨a, t, rfl, ha⟩ := List.eq_append_cons_of_mem hsep
    have hout : '/' ∉ replaceAll a pat rep := fun h =>
      (mem_replaceAll h).elim ha hrep
    rw [List.splitOn_append_cons_self_of_not_mem ha, List.map_cons,
      ← splitOn_replaceAll hne hpat hrep t,
      ← List.splitOn_append_cons_self_of_not_mem hout, replaceAll,
      replaceGo_append_sep hne hpat t 0 a (Nat.zero_le _)]
    rfl
  · have hout : '/' ∉ replaceAll s pat rep := fun h =>
      (mem_replaceAll h).elim hsep hrep
    rw [List.splitOn_eq_singleton hsep, List.splitOn_eq_singleton hout]
    rfl
termination_by s => s.length

theorem not_isPrefixOf {s : List Char} (hpat : HasGood pat) (h : ¬ HasGood s) :
    pat.isPrefixOf s = false := by
  obtain ⟨c, hc, hgood⟩ := hpat
  rw [← Bool.not_eq_true, List.isPrefixOf_iff_prefix]
  exact fun hprefix => h ⟨c, hprefix.subset hc, hgood⟩

theorem replaceAll_of_not_good (hpat : HasGood pat) : ∀ {s : List Char}, ¬ HasGood s →
    replaceAll s pat rep = s
  | [], _ => rfl
  | c :: s, h => by
    have hrest : ¬ HasGood s := fun ⟨d, hd, hgood⟩ => h ⟨d, List.mem_cons_of_mem _ hd, hgood⟩
    have ih := replaceAll_of_not_good hpat hrest
    rw [replaceAll] at ih
    simp [replaceAll, replaceGo, not_isPrefixOf hpat h, ih]

end

/-! ## Replacements that keep the components -/

/-- A rewriting of a template that works component by component and changes only components
that are not all dots, into ones that are not either. -/
structure Fills (f : List Char → List Char) : Prop where
  splitOn : ∀ s, (f s).splitOn '/' = (s.splitOn '/').map f
  good : ∀ s, HasGood s → HasGood (f s)
  bare : ∀ s, ¬ HasGood s → f s = s
  head : ∀ s, (f s).head? = some '/' → s.head? = some '/'

theorem Fills.comp {f g : List Char → List Char} (hg : Fills g) (hf : Fills f) : Fills (g ∘ f) where
  splitOn s := by rw [Function.comp_apply, hg.splitOn, hf.splitOn, List.map_map]
  good s h := hg.good _ (hf.good _ h)
  bare s h := by rw [Function.comp_apply, hf.bare s h, hg.bare s h]
  head s h := hf.head _ (hg.head _ h)

/-- A placeholder, or a text put in its place. -/
structure IsPiece (cs : List Char) : Prop where
  no_separator : '/' ∉ cs
  good : HasGood cs

theorem IsPiece.ne_nil {cs : List Char} (h : IsPiece cs) : cs ≠ [] := by
  obtain ⟨c, hc, -⟩ := h.good
  exact List.ne_nil_of_mem hc

theorem fills_replaceAll {pat rep : List Char} (hpat : IsPiece pat) (hrep : IsPiece rep) :
    Fills (replaceAll · pat rep) where
  splitOn := splitOn_replaceAll hpat.ne_nil hpat.no_separator hrep.no_separator
  good s h := replaceAll_good h hrep.good
  bare s h := replaceAll_of_not_good hpat.good h
  head s h := by
    cases s with
    | nil => exact h
    | cons c s =>
      rw [replaceAll, replaceGo] at h
      split at h
      · obtain ⟨d, rep, rfl⟩ := List.exists_cons_of_ne_nil hrep.ne_nil
        rw [List.cons_append, List.head?_cons, Option.some_inj] at h
        exact absurd (h ▸ List.mem_cons_self) hrep.no_separator
      · exact h

theorem isPiece_of_all_good {cs : List Char} (hne : cs ≠ []) (h : cs.all isGood = true) :
    IsPiece cs := by
  rw [List.all_eq_true] at h
  obtain ⟨c, hc⟩ := List.exists_mem_of_ne_nil cs hne
  exact ⟨fun hsep => absurd (h _ hsep) (by decide), c, hc, h c hc⟩

theorem isPiece_fmt04 (n : Nat) : IsPiece (fmt04 n) :=
  isPiece_of_all_good (by simp [fmt04]) (by simp [fmt04, digit_good])

theorem isPiece_fmt02 (n : Nat) : IsPiece (fmt02 n) :=
  isPiece_of_all_good (by simp [fmt02]) (by simp [fmt02, digit_good])

theorem isPiece_sha8 {sha256 : String} (hne : sha256 ≠ "")
    (hhex : ∀ c ∈ sha256.toList, isHexDigit c.toLower = true) :
    IsPiece (sha256.toList.take 8) := by
  refine isPiece_of_all_good (by simpa [String.toList_eq_nil_iff] using hne)
    (List.all_eq_true.mpr fun c hc => ?_)
  have hdigit := hhex c (List.mem_of_mem_take hc)
  simp only [isGood, Bool.and_eq_true, bne_iff_ne, ne_eq]
  constructor <;> (rintro rfl; exact absurd hdigit (by decide))

theorem isPiece_sanitizeFilename (value : String) : IsPiece (sanitizeFilename value) :=
  ⟨(sanitizeFilename_isSafeName value).no_separator, sanitizeFilename_good value⟩

/-- All four replacements of a template. -/
theorem fills_renderTemplate {sha256 : String} (hsha : IsPiece (sha256.toList.take 8))
    (original : String) (ts : Timestamp) :
    Fills fun s => renderTemplate (String.ofList s) sha256 original ts := by
  have hyear : Fills (replaceAll · "{yyyy}".toList (fmt04 ts.year)) :=
    fills_replaceAll (isPiece_of_all_good (by decide) (by decide)) (isPiece_fmt04 _)
  have hmonth : Fills (replaceAll · "{mm}".toList (fmt02 ts.month)) :=
    fills_replaceAll (isPiece_of_all_good (by decide) (by decide)) (isPiece_fmt02 _)
  have hdigest : Fills (replaceAll · "{sha8}".toList (sha256.toList.take 8)) :=
    fills_replaceAll (isPiece_of_all_good (by decide) (by decide)) hsha
  have hname : Fills (replaceAll · "{original}".toList (sanitizeFilename original)) :=
    fills_replaceAll (isPiece_of_all_good (by decide) (by decide))
      (isPiece_sanitizeFilename original)
  have hall := hname.comp (hdigest.comp (hmonth.comp hyear))
  have heq : (fun s => renderTemplate (String.ofList s) sha256 original ts) =
      (replaceAll · "{original}".toList (sanitizeFilename original)) ∘
        (replaceAll · "{sha8}".toList (sha256.toList.take 8)) ∘
        (replaceAll · "{mm}".toList (fmt02 ts.month)) ∘
        (replaceAll · "{yyyy}".toList (fmt04 ts.year)) := by
    funext s
    simp only [renderTemplate, String.toList_ofList, Function.comp_apply]
  rw [heq]
  exact hall

/-! ## The components -/

section
variable {f : List Char → List Char}

theorem kept_of_hasGood {part : List Char} (h : HasGood part) :
    (part != [] && part != ['.']) = true := by
  obtain ⟨c, hc, hgood⟩ := h
  simp only [Bool.and_eq_true, bne_iff_ne, ne_eq]
  refine ⟨List.ne_nil_of_mem hc, ?_⟩
  rintro rfl
  rw [List.mem_singleton] at hc
  subst hc
  exact absurd hgood (by decide)

theorem Fills.kept (hf : Fills f) (part : List Char) :
    (f part != [] && f part != ['.']) = (part != [] && part != ['.']) := by
  by_cases hgood : HasGood part
  · rw [kept_of_hasGood hgood, kept_of_hasGood (hf.good part hgood)]
  · rw [hf.bare part hgood]

/-- As many components as the template has. -/
theorem Fills.pathParts_length (hf : Fills f) (s : List Char) :
    (pathParts (f s)).length = (pathParts s).length := by
  simp only [pathParts, hf.splitOn, List.length_map, List.filter_map, Function.comp_def, hf.kept]

theorem mem_pathParts {s : List Char} {part : String} (h : part ∈ pathParts s) :
    part.toList ∈ s.splitOn '/' ∧ part ≠ "" := by
  obtain ⟨cs, hcs, rfl⟩ := List.mem_map.mp h
  obtain ⟨hmem, hkept⟩ := List.mem_filter.mp hcs
  simp only [Bool.and_eq_true, bne_iff_ne, ne_eq] at hkept
  rw [String.toList_ofList]
  exact ⟨hmem, by simpa [← String.toList_inj] using hkept.1⟩

/-- A component stands in the text as it is, and has no separator. -/
theorem infix_of_mem_splitOn : ∀ (s : List Char) {part : List Char}, part ∈ s.splitOn '/' →
    part <:+: s ∧ '/' ∉ part := by
  intro s part h
  by_cases hsep : '/' ∈ s
  · obtain ⟨a, t, rfl, ha⟩ := List.eq_append_cons_of_mem hsep
    rw [List.splitOn_append_cons_self_of_not_mem ha] at h
    rcases List.mem_cons.mp h with rfl | h
    · exact ⟨(List.prefix_append _ _).isInfix, ha⟩
    · obtain ⟨hin, hno⟩ := infix_of_mem_splitOn t h
      exact ⟨hin.trans ((List.suffix_cons _ _).trans (List.suffix_append _ _)).isInfix, hno⟩
  · rw [List.splitOn_eq_singleton hsep, List.mem_singleton] at h
    exact ⟨h ▸ List.infix_rfl, h ▸ hsep⟩
termination_by s => s.length

theorem isIn_of_infixOf {pat s : List Char} (h : pat <:+: s) : isIn pat s = true := by
  obtain ⟨before, after, rfl⟩ := h
  refine List.any_eq_true.mpr ⟨pat ++ after, ?_, ?_⟩
  · rw [List.mem_tails, List.append_assoc]
    exact List.suffix_append _ _
  · exact List.isPrefixOf_iff_prefix.mpr (List.prefix_append _ _)

theorem Fills.not_traversal (hf : Fills f) {s : List Char} (hs : isIn "..".toList s = false) :
    ".." ∉ pathParts (f s) := by
  intro h
  have hmem := (mem_pathParts h).1
  rw [hf.splitOn] at hmem
  obtain ⟨part, hpart, hdots⟩ := List.mem_map.mp hmem
  have hbare : ¬ HasGood part := by
    intro hgood
    obtain ⟨c, hc, hg⟩ := hf.good part hgood
    have hall : "..".toList.all (!isGood ·) = true := by decide
    rw [hdots] at hc
    have hnot := List.all_eq_true.mp hall c hc
    rw [hg] at hnot
    cases hnot
  rw [hf.bare part hbare] at hdots
  rw [isIn_of_infixOf (hdots ▸ (infix_of_mem_splitOn s hpart).1)] at hs
  cases hs

end

/-- Rendering does not raise, and gives as many components as the template has. -/
theorem renderStorageRelativePath_ok {template sha256 : String}
    (hsha : IsPiece (sha256.toList.take 8)) (hrel : template.toList.head? ≠ some '/')
    (htraversal : isIn "..".toList template.toList = false) (original : String) (ts : Timestamp) :
    ∃ rel, renderStorageRelativePath template sha256 original ts = .ok rel ∧
      rel.length = (pathParts template.toList).length ∧
      ∀ part ∈ rel, part ≠ "" ∧ part ≠ ".." ∧ '/' ∉ part.toList := by
  have hf := fills_renderTemplate hsha original ts
  have hlength := hf.pathParts_length template.toList
  have hnot := hf.not_traversal htraversal
  have hhead := hf.head template.toList
  simp only [String.ofList_toList] at hlength hnot hhead
  refine ⟨pathParts (renderTemplate template sha256 original ts), ?_, hlength, fun part hpart => ?_⟩
  · unfold renderStorageRelativePath
    simp only
    rw [if_neg fun h => hrel (hhead h), if_neg]
    rw [List.any_eq_true]
    rintro ⟨part, hpart, hbad⟩
    rcases Bool.or_eq_true_iff.mp hbad with hbad | hbad
    · exact hnot (eq_of_beq hbad ▸ hpart)
    · exact (mem_pathParts hpart).2 (eq_of_beq hbad)
  · obtain ⟨hmem, hne⟩ := mem_pathParts hpart
    exact ⟨hne, fun h => hnot (h ▸ hpart), (infix_of_mem_splitOn _ hmem).2⟩

end Nightfall.Storage

namespace Nightfall
open Nightfall.Core Storage

/-! ## A template the linter passes -/

theorem relative_of_lint {template : String} (h : lintStorageTemplate template = []) :
    template.toList.head? ≠ some '/' := by
  intro hhead
  simp [lintStorageTemplate, hhead] at h

theorem no_traversal_of_lint {template : String} (h : lintStorageTemplate template = []) :
    isIn "..".toList template.toList = false := by
  by_contra htraversal
  simp only [Bool.not_eq_false] at htraversal
  simp [lintStorageTemplate] at h
  simp [h.2.1] at htraversal

section
variable {σ : Type} (H : Handler Ops σ) (env : Env)

/-- Whatever the text of the time, the file is rendered with some timestamp. -/
theorem run_renderRelativePath (template sha original modifiedTime : String) (s : σ) :
    ∃ ts, ∀ rel, renderStorageRelativePath template sha original ts = .ok rel →
      ((renderRelativePath env template sha original modifiedTime).run H s).1 = .ok rel := by
  unfold renderRelativePath parseTimestamp
  cases env.fromisoformat
      (String.ofList (replaceAll modifiedTime.toList "Z".toList "+00:00".toList)) with
  | some ts =>
    refine ⟨ts, fun rel h => ?_⟩
    simp [h]
  | none =>
    refine ⟨(H .now s).1.stamp, fun rel h => ?_⟩
    simp [h]

/-- Sanitised names are safe and sanitise to themselves. A template the linter passes is
rendered by every run for every name, as components none of which is empty, the parent or
holds a separator, and as many for one name as for another. -/
theorem renderRelativePath_safe :
    (∀ value, IsSafeName (sanitizeFilename value) ∧
      sanitizeFilename (String.ofList (sanitizeFilename value)) = sanitizeFilename value) ∧
    ∀ template sha modifiedTime, lintStorageTemplate template = [] → sha ≠ "" →
      (∀ c ∈ sha.toList, isHexDigit c.toLower = true) →
      ∃ n, ∀ original s, ∃ rel,
        ((renderRelativePath env template sha original modifiedTime).run H s).1 = .ok rel ∧
        rel.length = n ∧ ∀ part ∈ rel, part ≠ "" ∧ part ≠ ".." ∧ '/' ∉ part.toList := by
  constructor
  · intro value
    have hname := sanitizeFilename_isSafeName value
    exact ⟨hname, hname.fixed⟩
  · intro template sha modifiedTime hlint hne hhex
    refine ⟨(pathParts template.toList).length, fun original s => ?_⟩
    obtain ⟨ts, hrun⟩ := run_renderRelativePath H env template sha original modifiedTime s
    obtain ⟨rel, hrel, hsafe⟩ := renderStorageRelativePath_ok (isPiece_sha8 hne hhex)
      (relative_of_lint hlint) (no_traversal_of_lint hlint) original ts
    exact ⟨rel, hrun rel hrel, hsafe⟩

end

/-- The default template, a digest and a time that cannot be read. -/
theorem sampleTemplate_safe : ∃ n, ∀ original s, ∃ rel,
    ((renderRelativePath sampleEnv sampleTemplate shaA original "").run (handle sampleEnv) s).1 =
      .ok rel ∧
    rel.length = n ∧ ∀ part ∈ rel, part ≠ "" ∧ part ≠ ".." ∧ '/' ∉ part.toList := by
  have hhex : shaA.toList.all (isHexDigit ·.toLower) = true := by decide +kernel
  exact (renderRelativePath_safe (handle sampleEnv) sampleEnv).2 sampleTemplate shaA ""
    (by decide +kernel) (by decide +kernel) (List.all_eq_true.mp hhex)

end Nightfall
