import Mathlib.Data.List.Infix
import Nightfall.Core.Entries
import Nightfall.Core.Utf8
import Nightfall.L1Storage.Names

/-!
# Fingerprints of trees (`dev/lib/source_fingerprint.py`, `dev/lib/artifact_hash.py`,
`metrics/runner/poller_runner.py`)

Three functions feed the selected files of a tree to one SHA-256, in the order of their
paths: two of them path and content, the third with a NUL behind each. Neither says how
long a content is.

* `computeFingerprint`, `computeDashboardSourceFingerprint`, `hashFiles`: the functions.
* `SourceTree`: a set of files that a selection can give.
* `fingerprints_separate_iff`: exactly when no other tree of the selection has the same
  digest.
-/
namespace Nightfall.Govctl
open Nightfall.Core Storage

/-! ## Paths -/

/-- A relative path: no NUL, and no part is empty, `.` or `..`. -/
structure IsPath (path : String) : Prop where
  nul : '\x00' ∉ path.toList
  parts : ∀ part ∈ path.toList.splitOn '/', part ≠ [] ∧ part ≠ ['.'] ∧ part ≠ ['.', '.']

/-- `q` lies below `p`, which is a directory then. -/
def IsBelow (p q : String) : Prop := (p.toList ++ ['/']) <+: q.toList

/-- `path.parts` of a relative path. -/
def parts (path : String) : List String := (path.toList.splitOn '/').map String.ofList

/-- The files a selection takes from a tree: paths and contents, each path once and none
below another. -/
abbrev SourceTree (selected : String → Bool) :=
  Entries UInt8 (fun path => IsPath path ∧ selected path = true) IsBelow

/-! ## The three functions -/

section Functions
variable (sha256 : Bytes → String)

/-- A file matches one of the patterns and has no excluded directory among the parts of its
path, those of the root included. -/
def isIncluded (glob : String → String → Bool) (rootParts includeGlobs excludeDirs : List String)
    (path : String) : Bool :=
  (includeGlobs.any fun pattern => glob pattern path) &&
    !excludeDirs.any fun excluded => (rootParts ++ parts path).contains excluded

/-- mirrors dev/lib/source_fingerprint.py:25-46 -/
def computeFingerprint (glob : String → String → Bool)
    (rootParts includeGlobs excludeDirs : List String) (files : List (String × Bytes)) : String :=
  sha256 (stream utf8 [] (sortedByKey
    (files.filter fun file => isIncluded glob rootParts includeGlobs excludeDirs file.1)))

/-- What stands below `metrics/dashboard` in a path. -/
def belowDashboard (path : String) : Option String :=
  let directory := "metrics/dashboard/".toList
  if directory.isPrefixOf path.toList then some (String.ofList (path.toList.drop directory.length))
  else none

def isDashboardSource (glob : String → String → Bool) (rootParts : List String)
    (path : String) : Bool :=
  match belowDashboard path with
  | none => false
  | some below =>
    ((["**/*.svelte", "**/*.ts", "**/*.js", "**/*.css"].any fun pattern => glob pattern below) ||
      ["svelte.config.js", "vite.config.js", "package.json", "package-lock.json"].contains below) &&
    !(rootParts ++ parts path).contains "node_modules" &&
    !(rootParts ++ parts path).contains ".svelte-kit"

/-- mirrors metrics/runner/poller_runner.py:55-80 -/
def computeDashboardSourceFingerprint (glob : String → String → Bool) (rootParts : List String)
    (files : List (String × Bytes)) : String :=
  sha256 (stream utf8 [] (sortedByKey
    (files.filter fun file => isDashboardSource glob rootParts file.1)))

/-- The files of an artifact, in the order of their absolute paths.
mirrors dev/lib/artifact_hash.py:16-24 -/
def hashFiles (relBase : String) (files : List (String × Bytes)) : String :=
  sha256 (stream utf8 [0] (files.insertionSort fun a b =>
    decide (relBase ++ "/" ++ a.1 ≤ relBase ++ "/" ++ b.1)))

end Functions

/-! ## Orders -/

theorem lt_append {a b : List Char} (hb : b ≠ []) : a < a ++ b := by
  induction a with
  | nil =>
    obtain ⟨c, cs, rfl⟩ := List.exists_cons_of_ne_nil hb
    exact List.nil_lt_cons c cs
  | cons c cs ih => exact List.cons_lt_cons_iff.mpr (.inr ⟨rfl, ih⟩)

theorem IsBelow.lt {p q : String} (h : IsBelow p q) : p < q := by
  obtain ⟨rest, hrest⟩ := h
  have hlist : p.toList < q.toList := by
    rw [← hrest, List.append_assoc]
    exact lt_append (by simp)
  exact hlist

theorem not_isBelow_self (p : String) : ¬ IsBelow p p := fun h => lt_irrefl p h.lt

/-- A common directory in front does not change the order. -/
theorem append_le_append_iff (base a b : String) : base ++ a ≤ base ++ b ↔ a ≤ b := by
  have hlt : ∀ a b : String, base ++ a < base ++ b ↔ a < b := by
    intro a b
    show (base ++ a).toList < (base ++ b).toList ↔ a.toList < b.toList
    rw [String.toList_append, String.toList_append]
    induction base.toList with
    | nil => rfl
    | cons c cs ih => rw [List.cons_append, List.cons_append, List.cons_lt_cons_iff]; simpa using ih
  rw [← not_lt, ← not_lt, hlt]

theorem hashFiles_eq (sha256 : Bytes → String) (relBase : String) (files : List (String × Bytes)) :
    hashFiles sha256 relBase files = sha256 (stream utf8 [0] (sortedByKey files)) := by
  simp only [hashFiles, sortedByKey, append_le_append_iff]

/-! ## What a digest tells -/

variable {selected : String → Bool}

/-- No other tree of the selection has the digest of this one. -/
def Distinguishes (digest : List (String × Bytes) → String) (T : SourceTree selected) : Prop :=
  ∀ T' : SourceTree selected, digest T'.files = digest T.files →
    ∀ file, file ∈ T'.files ↔ file ∈ T.files

/-- The tree is empty, or one file whose path and content do not start with the path of
another file that could be selected, and whose content has no path of a later one in it. -/
def PlainAlone (T : SourceTree selected) : Prop :=
  T.files = [] ∨ ∃ path content, T.files = [(path, content)] ∧
    (∀ q, IsPath q → selected q = true → q ≠ path → ¬ utf8 q <+: utf8 path ++ content) ∧
    ∀ q, IsPath q → selected q = true → path < q → ¬ IsBelow path q → ¬ utf8 q <:+: content

/-- The tree is empty, or one file whose content has no path of a later file that could be
selected between two NULs. -/
def MarkedAlone (T : SourceTree selected) : Prop :=
  T.files = [] ∨ ∃ path content, T.files = [(path, content)] ∧
    ∀ q, IsPath q → selected q = true → path < q → ¬ IsBelow path q →
      ¬ ([0] ++ utf8 q ++ [0]) <:+: content

theorem IsPath.ne_empty {path : String} (h : IsPath path) : path ≠ "" := by
  rintro rfl
  exact (h.parts [] (by simp)).1 rfl

theorem eq_of_append_cons {β : Type} {z : β} : ∀ {xs ys as bs : List β}, z ∉ xs → z ∉ ys →
    xs ++ z :: as = ys ++ z :: bs → xs = ys
  | [], [], _, _, _, _, _ => rfl
  | [], y :: ys, _, _, _, hy, h => by
    obtain ⟨rfl, _⟩ := List.cons.inj h
    exact absurd List.mem_cons_self hy
  | x :: xs, [], _, _, hx, _, h => by
    obtain ⟨rfl, _⟩ := List.cons.inj h
    exact absurd List.mem_cons_self hx
  | x :: xs, y :: ys, _, _, hx, hy, h => by
    obtain ⟨rfl, hrest⟩ := List.cons.inj h
    rw [eq_of_append_cons (fun hin => hx (List.mem_cons_of_mem _ hin))
      (fun hin => hy (List.mem_cons_of_mem _ hin)) hrest]

theorem separates_tree_iff (mark : Bytes) (T : SourceTree selected) :
    Separates utf8 mark T ↔ T.files = [] ∨ ∃ path content, T.files = [(path, content)] ∧
      Unmistakable utf8 mark (fun path => IsPath path ∧ selected path = true) IsBelow path content :=
  separates_iff
    (fun _ hk hnil => utf8_ne_nil hk.1.ne_empty (List.append_eq_nil_iff.mp hnil).1)
    (fun k _ => not_isBelow_self k) (fun _ _ h => h.lt) T

/-- Without a mark. -/
theorem plain_iff (T : SourceTree selected) : Separates utf8 [] T ↔ PlainAlone T := by
  rw [separates_tree_iff, PlainAlone]
  refine or_congr Iff.rfl (exists_congr fun path => exists_congr fun content =>
    and_congr Iff.rfl ⟨fun h => ⟨fun q hq hs hne hstart => ?_, fun q hq hs hlt hno hin => ?_⟩,
      fun ⟨hfirst, hwithin⟩ => ⟨fun q hq hne rest heq => ?_,
        fun q hq hlt hno before rest heq => ?_⟩⟩)
  · obtain ⟨rest, hrest⟩ := hstart
    exact h.first q ⟨hq, hs⟩ hne rest (by simpa using hrest)
  · obtain ⟨before, rest, hrest⟩ := hin
    exact h.within q ⟨hq, hs⟩ hlt hno before rest (by simpa using hrest.symm)
  · exact hfirst q hq.1 hq.2 hne ⟨rest, by simpa using heq⟩
  · exact hwithin q hq.1 hq.2 hlt hno ⟨before, rest, by simpa using heq.symm⟩

/-- With a NUL behind each part, no other path starts an entry. -/
theorem marked_iff (T : SourceTree selected) : Separates utf8 [0] T ↔ MarkedAlone T := by
  rw [separates_tree_iff, MarkedAlone]
  refine or_congr Iff.rfl (exists_congr fun path => exists_congr fun content => ?_)
  refine and_congr_right fun hT => ⟨fun h q hq hs hlt hno hin => ?_,
    fun h => ⟨fun q hq hne rest heq => ?_, fun q hq hlt hno before rest heq => ?_⟩⟩
  · obtain ⟨before, rest, hrest⟩ := hin
    exact h.within q ⟨hq, hs⟩ hlt hno before rest (by simpa using hrest.symm)
  · have hpath : IsPath path := (T.permitted (path, content) (by simp [hT])).1
    have hfree : ∀ {path : String}, IsPath path → (0 : UInt8) ∉ utf8 path := fun hp hzero =>
      hp.nul (zero_mem_utf8 hzero)
    rw [List.append_assoc, List.append_assoc] at heq
    exact hne (utf8_injective (eq_of_append_cons (hfree hq.1) (hfree hpath) heq))
  · exact h q hq.1 hq.2 hlt hno ⟨before, rest, by simpa using heq.symm⟩

theorem distinguishes_iff {sha256 : Bytes → String} (hsha : Function.Injective sha256)
    (mark : Bytes) {digest : List (String × Bytes) → String} {T : SourceTree selected}
    (hdigest : ∀ T : SourceTree selected,
      digest T.files = sha256 (stream utf8 mark (sortedByKey T.files))) :
    Distinguishes digest T ↔ Separates utf8 mark T := by
  unfold Distinguishes Separates
  simp only [hdigest, hsha.eq_iff]

theorem filter_selected (T : SourceTree selected) :
    T.files.filter (fun file => selected file.1) = T.files :=
  List.filter_eq_self.mpr fun file hfile => (T.permitted file hfile).2

/-- For every selection and every tree of it, the hash never giving one digest twice: no
other tree has its digest exactly when it is empty or one file that cannot be read
otherwise. -/
theorem fingerprints_separate_iff (sha256 : Bytes → String) (hsha : Function.Injective sha256) :
    (∀ glob rootParts includeGlobs excludeDirs
        (T : SourceTree (isIncluded glob rootParts includeGlobs excludeDirs)),
      Distinguishes (computeFingerprint sha256 glob rootParts includeGlobs excludeDirs) T ↔
        PlainAlone T) ∧
      (∀ glob rootParts (T : SourceTree (isDashboardSource glob rootParts)),
        Distinguishes (computeDashboardSourceFingerprint sha256 glob rootParts) T ↔
          PlainAlone T) ∧
      ∀ relBase selected (T : SourceTree selected),
        Distinguishes (hashFiles sha256 relBase) T ↔ MarkedAlone T := by
  refine ⟨fun glob rootParts includeGlobs excludeDirs T => ?_, fun glob rootParts T => ?_,
    fun relBase selected T => ?_⟩
  · rw [distinguishes_iff hsha [] fun T => by rw [computeFingerprint, filter_selected],
      plain_iff]
  · rw [distinguishes_iff hsha [] fun T => by
      rw [computeDashboardSourceFingerprint, filter_selected], plain_iff]
  · rw [distinguishes_iff hsha [0] fun T => hashFiles_eq sha256 relBase T.files,
      marked_iff]

/-! A selection of one name, and one of two. -/

/-- Gives the digest of `package.json` with the content `{}`, and no digest twice. -/
def sampleSha (b : Bytes) : String :=
  if b = utf8 "package.json" ++ [123, 125] then
    "66552dfae4115ec7941dfd3f30f25efad421ba1705fa1c8d8567382e4a6c1d85"
  else String.ofList ('x' :: b.map fun n => Char.ofNat n.toNat)

theorem sampleSha_injective : Function.Injective sampleSha := by
  have hnat : ∀ n : UInt8, (Char.ofNat n.toNat).toNat = n.toNat := by
    intro n
    have hvalid : n.toNat.isValidChar := .inl (Nat.lt_trans n.toNat_lt (by decide))
    rw [Char.ofNat, dif_pos hvalid]
    rfl
  have hchar : Function.Injective fun n : UInt8 => Char.ofNat n.toNat := by
    intro m n h
    have hmn := congrArg Char.toNat h
    dsimp only at hmn
    rw [hnat, hnat] at hmn
    exact UInt8.toNat_inj.mp hmn
  have hfirst : ∀ cs, String.ofList ('x' :: cs) ≠
      "66552dfae4115ec7941dfd3f30f25efad421ba1705fa1c8d8567382e4a6c1d85" := by
    intro cs h
    have hhead := congrArg (fun s : String => s.toList.head?) h
    rw [String.toList_ofList, List.head?_cons] at hhead
    exact absurd hhead (by decide +kernel)
  intro a b h
  unfold sampleSha at h
  split_ifs at h with ha hb hb
  · rw [ha, hb]
  · exact absurd h.symm (hfirst _)
  · exact absurd h (hfirst _)
  · have hlist := congrArg String.toList h
    rw [String.toList_ofList, String.toList_ofList] at hlist
    exact List.map_injective_iff.mpr hchar (List.cons.inj hlist).2

def exactGlob (pattern path : String) : Bool := pattern == path

theorem isPath_packageJson : IsPath "package.json" := ⟨by decide +kernel, by decide +kernel⟩

def packageTree : SourceTree (isIncluded exactGlob ["/", "repo"] ["package.json"] ["node_modules"]) :=
  .single [123, 125] ⟨isPath_packageJson, by decide +kernel⟩ (not_isBelow_self _)

/-- Where one name can be selected, its file has a digest of its own. -/
theorem one_name_distinguished : Distinguishes
    (computeFingerprint sampleSha exactGlob ["/", "repo"] ["package.json"] ["node_modules"])
    packageTree := by
  have hname : ∀ q, isIncluded exactGlob ["/", "repo"] ["package.json"] ["node_modules"] q = true →
      q = "package.json" := by
    intro q hq
    simp only [isIncluded, exactGlob, List.any_cons, List.any_nil, Bool.or_false,
      Bool.and_eq_true, beq_iff_eq] at hq
    exact hq.1.symm
  refine ((fingerprints_separate_iff sampleSha sampleSha_injective).1 _ _ _ _ packageTree).mpr
    (.inr ⟨"package.json", [123, 125], rfl, fun q _ hs hne => absurd (hname q hs) hne,
      fun q _ hs hlt => ?_⟩)
  rw [hname q hs] at hlt
  exact absurd hlt (lt_irrefl _)

theorem isPath_samples : ∀ directory ∈ ["", "metrics/dashboard/"],
    IsPath (directory ++ "a.js") ∧ IsPath (directory ++ "b.js") := by
  intro directory hdirectory
  simp only [List.mem_cons, List.not_mem_nil, or_false] at hdirectory
  rcases hdirectory with rfl | rfl
  · exact ⟨⟨by decide +kernel, by decide +kernel⟩, ⟨by decide +kernel, by decide +kernel⟩⟩
  · exact ⟨⟨by decide +kernel, by decide +kernel⟩, ⟨by decide +kernel, by decide +kernel⟩⟩

section TwoFiles
variable {selected : String → Bool} {directory : String}

theorem samples_distinct (hdirectory : directory ∈ ["", "metrics/dashboard/"]) :
    ([(directory ++ "a.js", [120]), (directory ++ "b.js", [121])].map
      fun e : String × Bytes => e.1).Nodup := by
  simp only [List.mem_cons, List.not_mem_nil, or_false] at hdirectory
  rcases hdirectory with rfl | rfl <;> decide +kernel

theorem samples_permitted (hdirectory : directory ∈ ["", "metrics/dashboard/"])
    (ha : selected (directory ++ "a.js") = true) (hb : selected (directory ++ "b.js") = true) :
    ∀ e ∈ ([(directory ++ "a.js", [120]), (directory ++ "b.js", [121])] : List (String × Bytes)),
      IsPath e.1 ∧ selected e.1 = true := by
  intro e he
  simp only [List.mem_cons, List.not_mem_nil, or_false] at he
  rcases he with rfl | rfl
  · exact ⟨(isPath_samples directory hdirectory).1, ha⟩
  · exact ⟨(isPath_samples directory hdirectory).2, hb⟩

theorem samples_unrelated (hdirectory : directory ∈ ["", "metrics/dashboard/"]) :
    ∀ e ∈ ([(directory ++ "a.js", [120]), (directory ++ "b.js", [121])] : List (String × Bytes)),
      ∀ e' ∈ ([(directory ++ "a.js", [120]), (directory ++ "b.js", [121])] :
        List (String × Bytes)), ¬ IsBelow e.1 e'.1 := by
  simp only [List.mem_cons, List.not_mem_nil, or_false] at hdirectory
  unfold IsBelow
  rcases hdirectory with rfl | rfl <;> decide +kernel

end TwoFiles

/-- `a.js` with `x` and `b.js` with `y`. -/
def twoFiles (selected : String → Bool) (directory : String)
    (hdirectory : directory ∈ ["", "metrics/dashboard/"])
    (ha : selected (directory ++ "a.js") = true) (hb : selected (directory ++ "b.js") = true) :
    SourceTree selected :=
  ⟨[(directory ++ "a.js", [120]), (directory ++ "b.js", [121])], samples_distinct hdirectory,
    samples_permitted hdirectory ha hb, samples_unrelated hdirectory⟩

/-- `a.js` alone, with the path and content of `b.js` behind its own. -/
def mergedFile (selected : String → Bool) (directory : String)
    (hdirectory : directory ∈ ["", "metrics/dashboard/"])
    (ha : selected (directory ++ "a.js") = true) (mark : Bytes) : SourceTree selected :=
  .single ([120] ++ mark ++ utf8 (directory ++ "b.js") ++ mark ++ [121])
    ⟨(isPath_samples directory hdirectory).1, ha⟩ (not_isBelow_self _)

abbrev includedJs : String → Bool := isIncluded exactGlob ["/", "repo"] ["a.js", "b.js"] []

abbrev dashboardJs : String → Bool := isDashboardSource (fun _ _ => true) ["/", "repo"]

/-- Two files have the digest of one, in all three functions. -/
theorem two_files_are_one :
    ¬ Distinguishes (computeFingerprint sampleSha exactGlob ["/", "repo"] ["a.js", "b.js"] [])
        (twoFiles includedJs "" (by decide) (by decide +kernel) (by decide +kernel)) ∧
      ¬ Distinguishes (computeDashboardSourceFingerprint sampleSha (fun _ _ => true) ["/", "repo"])
        (twoFiles dashboardJs "metrics/dashboard/" (by decide) (by decide +kernel)
          (by decide +kernel)) ∧
      ¬ Distinguishes (hashFiles sampleSha "/repo")
        (twoFiles (fun _ => true) "" (by decide) rfl rfl) := by
  refine ⟨fun h => ?_, fun h => ?_, fun h => ?_⟩
  · have hsame := h (mergedFile includedJs "" (by decide) (by decide +kernel) [])
      (congrArg sampleSha (by decide +kernel)) ("b.js", [121])
    exact absurd (hsame.mpr (by decide +kernel)) (by decide +kernel)
  · have hsame := h (mergedFile dashboardJs "metrics/dashboard/" (by decide) (by decide +kernel) [])
      (congrArg sampleSha (by decide +kernel)) ("metrics/dashboard/b.js", [121])
    exact absurd (hsame.mpr (by decide +kernel)) (by decide +kernel)
  · have hsame := h (mergedFile (fun _ => true) "" (by decide) rfl [0])
      (congrArg sampleSha (by decide +kernel))
      ("b.js", [121])
    exact absurd (hsame.mpr (by decide +kernel)) (by decide +kernel)

end Nightfall.Govctl
