import Mathlib.Data.List.Dedup
import Nightfall.Core.Contents
import Nightfall.L3Flows.IngestSpecs
import Nightfall.L4System.FileTree

/-!
# Staging drift and quarantine (`domain/ingest.py`)

`reconcileStagingDrift` moves old files of the staging tree to
`quarantine/category/name`, and to a name with the time of the pass when that
one is there. `handleQuarantineOrDelete` does the same for one file, the replay
of the journal appends `.orphaned` to a name. None of them looks whether the
second name is free.

What a pass finds in the staging tree is a `Listing`: the files in any order,
each with its age in microseconds. Where the quarantine is part of the staging
tree it may hold a file the pass itself has put there.

* `FindsRoom`, `MovesOnce`: every old file finds a name to move to, and none is
  met again where the pass has put it; from the names alone.
* `quarantine_keeps_iff`: exactly then a pass keeps what the files hold and counts
  the files it moves; and when the two other moves keep it.
-/
namespace Nightfall
open Nightfall.Core Storage Prog

/-! ## The pass -/

inductive DriftCategory where
  | staleTemp
  | completedUnpersisted
  | orphanUnknown
  deriving DecidableEq, Repr

def DriftCategory.str : DriftCategory → String
  | .staleTemp => "stale_temp"
  | .completedUnpersisted => "completed_unpersisted"
  | .orphanUnknown => "orphan_unknown"

structure DriftParams where
  stagingDir : Path
  quarantineDir : Path
  tmpTtlMinutes : Int
  failedTtlHours : Int
  orphanTtlDays : Int
  warningThreshold : Int

/-- The files of `staging_dir.rglob("*")`, each with its age. -/
structure Listing (dir : Path) (dirs : List Path) where
  files : List (Path × Int)
  below : ∀ f ∈ files, dir <+: f.1
  plain : ∀ f ∈ files, f.1 ∉ dirs

structure StagingDriftReport where
  staleTempCount : Nat
  completedUnpersistedCount : Nat
  orphanUnknownCount : Nat
  quarantinedCount : Nat
  warnings : List String
  deriving DecidableEq, Repr

def StagingDriftReport.none : StagingDriftReport := ⟨0, 0, 0, 0, []⟩

def micros (seconds : Int) : Int := seconds * 1000000

/-- The category of a file by its suffix and age.
mirrors src/nightfall_photo_ingress/domain/ingest.py:331-352 -/
def driftCategory (ps : DriftParams) (f : Path × Int) : Option DriftCategory :=
  let isTmp := (splitSuffix f.1.name.toList).2 == ".tmp".toList
  if isTmp && decide (micros (max 1 ps.tmpTtlMinutes * 60) < f.2) then some .staleTemp
  else if !isTmp && decide (micros (max 1 ps.orphanTtlDays * 86400) < f.2) then some .orphanUnknown
  else if !isTmp && decide (micros (max 1 ps.failedTtlHours * 3600) < f.2) then
    some .completedUnpersisted
  else none

/-- The name tried first. -/
def quarantinePath (dir : Path) (category : String) (path : Path) : Path :=
  dir ++ [category, path.name]

/-- The name with the seconds of the clock. -/
def stampedPath (dir : Path) (category : String) (secs : Int) (path : Path) : Path :=
  (quarantinePath dir category path).withName
    (markedName (quarantinePath dir category path).name (toString secs))

def StagingDriftReport.count (r : StagingDriftReport) : DriftCategory → StagingDriftReport
  | .staleTemp =>
    { r with staleTempCount := r.staleTempCount + 1, quarantinedCount := r.quarantinedCount + 1 }
  | .completedUnpersisted =>
    { r with
      completedUnpersistedCount := r.completedUnpersistedCount + 1
      quarantinedCount := r.quarantinedCount + 1 }
  | .orphanUnknown =>
    { r with
      orphanUnknownCount := r.orphanUnknownCount + 1
      quarantinedCount := r.quarantinedCount + 1 }

/-- One turn of the loop.
mirrors src/nightfall_photo_ingress/domain/ingest.py:334-361 -/
def reconcileFile (ps : DriftParams) (secs : Int) (f : Path × Int) (r : StagingDriftReport) :
    Flow StagingDriftReport := do
  if ← pathExists f.1 then
    match driftCategory ps f with
    | none => return r
    | some category => do
      if ← pathExists (quarantinePath ps.quarantineDir category.str f.1) then
        replaceFile f.1 (stampedPath ps.quarantineDir category.str secs f.1)
      else replaceFile f.1 (quarantinePath ps.quarantineDir category.str f.1)
      return r.count category
  else return r

def reconcileFiles (ps : DriftParams) (secs : Int) :
    List (Path × Int) → StagingDriftReport → Flow StagingDriftReport
  | [], r => return r
  | f :: files, r => do reconcileFiles ps secs files (← reconcileFile ps secs f r)

def driftWarnings (ps : DriftParams) (r : StagingDriftReport) : List String :=
  (if ps.warningThreshold ≤ r.staleTempCount then
    ["stale_temp_threshold_exceeded:" ++ toString r.staleTempCount] else []) ++
  (if ps.warningThreshold ≤ r.completedUnpersistedCount then
    ["completed_unpersisted_threshold_exceeded:" ++ toString r.completedUnpersistedCount] else []) ++
  (if ps.warningThreshold ≤ r.orphanUnknownCount then
    ["orphan_unknown_threshold_exceeded:" ++ toString r.orphanUnknownCount] else [])

/-- A pass; there is no listing where the staging directory does not exist.
mirrors src/nightfall_photo_ingress/domain/ingest.py:297-379 -/
def reconcileStagingDrift (ps : DriftParams) {dirs : List Path}
    (listing : Option (Listing ps.stagingDir dirs)) : Flow StagingDriftReport :=
  match listing with
  | none => return .none
  | some listing => do
    let now ← utcNow
    let r ← reconcileFiles ps (now.stamp.micros.tdiv 1000000) listing.files .none
    return { r with warnings := driftWarnings ps r }

/-! ## Names in use -/

/-- The files' names after one has moved. -/
def namesAfter (inUse : Path → Bool) (src dst : Path) : Path → Bool := fun p =>
  p == dst || (p != src && inUse p)

/-- The name a file moves to, with these directories and files there. -/
def driftTarget (ps : DriftParams) (secs : Int) (dirs : List Path) (inUse : Path → Bool)
    (category : DriftCategory) (path : Path) : Path :=
  let first := quarantinePath ps.quarantineDir category.str path
  if inUse first || dirs.contains first then stampedPath ps.quarantineDir category.str secs path
  else first

/-- Nothing has the name, and no file that of a directory above it. -/
structure Vacant (dirs : List Path) (inUse : Path → Bool) (p : Path) : Prop where
  free : inUse p = false
  plain : p ∉ dirs
  above : ∀ q, q <+: p.dropLast → inUse q = false

/-- Every old file of the list finds room under the name it moves to, with the files
where they were before the pass, or where the pass has moved them. -/
def FindsRoom (ps : DriftParams) (secs : Int) (dirs : List Path) :
    List (Path × Int) → (Path → Bool) → Prop
  | [], _ => True
  | f :: files, inUse =>
    match inUse f.1, driftCategory ps f with
    | true, some category =>
      let target := driftTarget ps secs dirs inUse category f.1
      Vacant dirs inUse target ∧ FindsRoom ps secs dirs files (namesAfter inUse f.1 target)
    | _, _ => FindsRoom ps secs dirs files inUse

/-- No old file of the list lies where the pass itself has put it; `placed` are the
names it has used. -/
def MovesOnce (ps : DriftParams) (secs : Int) (dirs : List Path) :
    List (Path × Int) → (Path → Bool) → List Path → Prop
  | [], _, _ => True
  | f :: files, inUse, placed =>
    match inUse f.1, driftCategory ps f with
    | true, some category =>
      let target := driftTarget ps secs dirs inUse category f.1
      f.1 ∉ placed ∧
        MovesOnce ps secs dirs files (namesAfter inUse f.1 target) (target :: placed)
    | _, _ => MovesOnce ps secs dirs files inUse placed

/-- The names of the files there are. -/
def filesIn (d : FileTree) : Path → Bool := fun p => (d.fs.get p).isSome

/-- The paths of the staging tree and of the quarantine. -/
def DriftParams.holds (ps : DriftParams) : Path → Bool := fun p =>
  ps.stagingDir.isPrefixOf p || ps.quarantineDir.isPrefixOf p

/-! ## Files moved -/

def Op.move : Op → Option (Path × Path)
  | .replace src dst => some (src, dst)
  | _ => none

/-- The renames among the steps of a run, from where to where. -/
def renames (os : List Op) : List (Path × Path) := os.filterMap Op.move

/-- The file of each move, by the path it had at the start; `origin` says so of the
file that is now at a path. -/
def movedFiles (origin : Path → Path) : List (Path × Path) → List Path
  | [] => []
  | (src, dst) :: ms => origin src :: movedFiles (Function.update origin dst (origin src)) ms

theorem renames_append (os os' : List Op) : renames (os ++ os') = renames os ++ renames os' :=
  List.filterMap_append

theorem length_movedFiles (origin : Path → Path) (ms : List (Path × Path)) :
    (movedFiles origin ms).length = ms.length := by
  induction ms generalizing origin with
  | nil => rfl
  | cons m ms ih => rw [movedFiles, List.length_cons, ih, List.length_cons]

section Pass
variable {env : Env} {ps : DriftParams} {secs : Int} {d : FileTree}

/-- The name a file of `d` moves to. -/
abbrev FileTree.target (d : FileTree) (ps : DriftParams) (secs : Int) (category : DriftCategory)
    (path : Path) : Path :=
  driftTarget ps secs d.dirs (filesIn d) category path

theorem target_eq (category : DriftCategory) (path : Path) : d.target ps secs category path =
    if d.present (quarantinePath ps.quarantineDir category.str path) then
      stampedPath ps.quarantineDir category.str secs path
    else quarantinePath ps.quarantineDir category.str path := rfl

@[simp] theorem treeHandle_pathExists (p : Path) :
    treeHandle env (.pathExists p) d = (d.present p, d) := rfl

theorem present_of_get {p : Path} {b : Bytes} (hb : d.fs.get p = some b) : d.present p = true := by
  simp [FileTree.present, hb]

/-- Nothing moves where no file is or the file is young. -/
theorem reconcileFile_skips {f : Path × Int} (hplain : f.1 ∉ d.dirs)
    (h : filesIn d f.1 = false ∨ driftCategory ps f = none) (r : StagingDriftReport) :
    (reconcileFile ps secs f r).run (treeHandle env) d = (.ok r, d) ∧
      renames ((reconcileFile ps secs f r).ops (treeHandle env) d) = [] := by
  cases hthere : d.present f.1 with
  | false =>
    constructor
    · simp [reconcileFile, hthere]
    · simp [reconcileFile, hthere, renames, Op.move]
  | true =>
    have hin : filesIn d f.1 = true := by simpa [FileTree.present, hplain, filesIn] using hthere
    have hyoung : driftCategory ps f = none := h.resolve_left (by simp [hin])
    constructor
    · simp [reconcileFile, hthere, hyoung]
    · simp [reconcileFile, hthere, hyoung, renames, Op.move]

/-- An old file that is there: the pass looks for the first name, takes the second one
if that is there, and renames. -/
theorem reconcileFile_moves {f : Path × Int} {category : DriftCategory} {b : Bytes}
    (hb : d.fs.get f.1 = some b) (hc : driftCategory ps f = some category)
    (r : StagingDriftReport) :
    (reconcileFile ps secs f r).run (treeHandle env) d =
        (replaceFile f.1 (d.target ps secs category f.1) >>= fun _ =>
          Prog.ret (r.count category)).run (treeHandle env) d ∧
      renames ((reconcileFile ps secs f r).ops (treeHandle env) d) =
        [(f.1, d.target ps secs category f.1)] := by
  have hthere := present_of_get hb
  rw [target_eq]
  cases hfirst : d.present (quarantinePath ps.quarantineDir category.str f.1)
  all_goals
    constructor
    · simp [reconcileFile, hthere, hc, hfirst]
    · simp only [reconcileFile, pathExists, op_bind, ret_bind, ops_op, treeHandle_pathExists, hthere,
        hc, hfirst, if_true, Bool.false_eq_true, if_false, replaceFile]
      cases (treeHandle env (.replace f.1 _) d).1 <;> rfl

theorem reconcileFile_accepted {f : Path × Int} {category : DriftCategory} {b : Bytes}
    (hb : d.fs.get f.1 = some b) (hc : driftCategory ps f = some category)
    (h : d.Accepts (d.target ps secs category f.1)) (r : StagingDriftReport) :
    (reconcileFile ps secs f r).run (treeHandle env) d =
      (.ok (r.count category), (d.drop f.1).put (d.target ps secs category f.1) b h.1) := by
  rw [(reconcileFile_moves hb hc r).1]
  simp [treeHandle, hb, dif_pos h]

theorem reconcileFile_refused {f : Path × Int} {category : DriftCategory} {b : Bytes}
    (hb : d.fs.get f.1 = some b) (hc : driftCategory ps f = some category)
    (h : ¬ d.Accepts (d.target ps secs category f.1)) (r : StagingDriftReport) :
    (reconcileFile ps secs f r).run (treeHandle env) d = (.error (.fileNotFound f.1), d) := by
  rw [(reconcileFile_moves hb hc r).1]
  simp [treeHandle, hb, dif_neg h]

theorem filesIn_move {src dst : Path} {b : Bytes} (h : dst ∉ d.dirs) :
    filesIn ((d.drop src).put dst b h) = namesAfter (filesIn d) src dst := by
  funext p
  simp only [filesIn, namesAfter, FileTree.put, FileTree.drop, Table.get_put, Table.get_drop]
  by_cases hd : p = dst
  · rw [if_pos hd, beq_iff_eq.mpr hd]
    rfl
  · rw [if_neg hd, beq_eq_false_iff_ne.mpr hd, Bool.false_or]
    by_cases hs : p = src
    · rw [if_pos hs, bne_eq_false_iff_eq.mpr hs]
      rfl
    · rw [if_neg hs, bne_iff_ne.mpr hs, Bool.true_and]

theorem vacant_iff {p : Path} :
    Vacant d.dirs (filesIn d) p ↔ d.fs.get p = none ∧ d.Accepts p := by
  constructor
  · intro h
    refine ⟨by simpa [filesIn] using h.free, h.plain, blocked_eq_false.mpr fun q hq => ?_⟩
    simpa [filesIn] using h.above q hq
  · rintro ⟨hfree, hplain, hblocked⟩
    refine ⟨by simpa [filesIn] using hfree, hplain, fun q hq => ?_⟩
    simpa [filesIn] using blocked_eq_false.mp hblocked q hq

theorem within_driftTarget {dirs : List Path} {inUse : Path → Bool} (category : DriftCategory)
    (path : Path) : ps.quarantineDir <+: driftTarget ps secs dirs inUse category path := by
  have hfirst : ps.quarantineDir <+: quarantinePath ps.quarantineDir category.str path :=
    List.prefix_append _ _
  unfold driftTarget
  dsimp only
  split
  · exact (beside_withName _ _).within (by simp)
  · exact hfirst

theorem holds_target (ps : DriftParams) (secs : Int) (d : FileTree) (category : DriftCategory)
    (path : Path) :
    ps.holds (d.target ps secs category path) = true := by
  rw [DriftParams.holds, Bool.or_eq_true]
  exact .inr (List.isPrefixOf_iff_prefix.mpr (within_driftTarget category path))

/-- A file that moves leaves its path. -/
theorem target_ne {category : DriftCategory} {path : Path} {b : Bytes}
    (hb : d.fs.get path = some b) : path ≠ d.target ps secs category path := by
  rw [target_eq]
  split
  · exact quarantine_ne.symm
  · next hfree =>
    intro heq
    rw [← heq, present_of_get hb] at hfree
    exact hfree rfl

theorem findsRoom_skip {f : Path × Int} {files : List (Path × Int)} {dirs : List Path}
    {inUse : Path → Bool} (h : inUse f.1 = false ∨ driftCategory ps f = none) :
    FindsRoom ps secs dirs (f :: files) inUse ↔ FindsRoom ps secs dirs files inUse := by
  rw [FindsRoom]
  rcases h with h | h
  · simp [h]
  · simp [h]

theorem findsRoom_move {f : Path × Int} {files : List (Path × Int)} {dirs : List Path}
    {inUse : Path → Bool} {category : DriftCategory} (hf : inUse f.1 = true)
    (hc : driftCategory ps f = some category) :
    FindsRoom ps secs dirs (f :: files) inUse ↔
      Vacant dirs inUse (driftTarget ps secs dirs inUse category f.1) ∧
      FindsRoom ps secs dirs files
        (namesAfter inUse f.1 (driftTarget ps secs dirs inUse category f.1)) := by
  rw [FindsRoom]
  simp [hf, hc]

theorem movesOnce_skip {f : Path × Int} {files : List (Path × Int)} {dirs placed : List Path}
    {inUse : Path → Bool} (h : inUse f.1 = false ∨ driftCategory ps f = none) :
    MovesOnce ps secs dirs (f :: files) inUse placed ↔
      MovesOnce ps secs dirs files inUse placed := by
  rw [MovesOnce]
  rcases h with h | h
  · simp [h]
  · simp [h]

theorem movesOnce_move {f : Path × Int} {files : List (Path × Int)} {dirs placed : List Path}
    {inUse : Path → Bool} {category : DriftCategory} (hf : inUse f.1 = true)
    (hc : driftCategory ps f = some category) :
    MovesOnce ps secs dirs (f :: files) inUse placed ↔ f.1 ∉ placed ∧
      MovesOnce ps secs dirs files
        (namesAfter inUse f.1 (driftTarget ps secs dirs inUse category f.1))
        (driftTarget ps secs dirs inUse category f.1 :: placed) := by
  rw [MovesOnce]
  simp [hf, hc]

/-- The three ends of a turn. -/
inductive Turn (env : Env) (ps : DriftParams) (secs : Int) (d : FileTree) (f : Path × Int)
    (r : StagingDriftReport) : Prop
  | skips (h : filesIn d f.1 = false ∨ driftCategory ps f = none)
      (run : (reconcileFile ps secs f r).run (treeHandle env) d = (.ok r, d))
      (ops : renames ((reconcileFile ps secs f r).ops (treeHandle env) d) = [])
  | moves {b : Bytes} {category : DriftCategory} (there : d.fs.get f.1 = some b)
      (old : driftCategory ps f = some category)
      (room : d.Accepts (d.target ps secs category f.1))
      (run : (reconcileFile ps secs f r).run (treeHandle env) d =
        (.ok (r.count category), (d.drop f.1).put (d.target ps secs category f.1) b room.1))
      (ops : renames ((reconcileFile ps secs f r).ops (treeHandle env) d) =
        [(f.1, d.target ps secs category f.1)])
  | raises {b : Bytes} {category : DriftCategory} (there : d.fs.get f.1 = some b)
      (old : driftCategory ps f = some category)
      (noRoom : ¬ d.Accepts (d.target ps secs category f.1))
      (run : (reconcileFile ps secs f r).run (treeHandle env) d = (.error (.fileNotFound f.1), d))

theorem reconcileFile_turn (env : Env) (secs : Int) {f : Path × Int} (hplain : f.1 ∉ d.dirs)
    (r : StagingDriftReport) : Turn env ps secs d f r := by
  cases hb : d.fs.get f.1 with
  | none =>
    have hskip : filesIn d f.1 = false ∨ driftCategory ps f = none := .inl (by simp [filesIn, hb])
    exact .skips hskip (reconcileFile_skips hplain hskip r).1 (reconcileFile_skips hplain hskip r).2
  | some b =>
    cases hc : driftCategory ps f with
    | none =>
      have hskip : filesIn d f.1 = false ∨ driftCategory ps f = none := .inr hc
      exact .skips hskip (reconcileFile_skips hplain hskip r).1 (reconcileFile_skips hplain hskip r).2
    | some category =>
      by_cases h : d.Accepts (d.target ps secs category f.1)
      · exact .moves hb hc h (reconcileFile_accepted hb hc h r) (reconcileFile_moves hb hc r).2
      · exact .raises hb hc h (reconcileFile_refused hb hc h r)

/-- A pass that returns has counted its moves. -/
theorem reconcileFiles_count (env : Env) (secs : Int) :
    ∀ (files : List (Path × Int)) (r : StagingDriftReport) (d : FileTree),
    (∀ f ∈ files, f.1 ∉ d.dirs) → ∀ {r' : StagingDriftReport} {d' : FileTree},
    (reconcileFiles ps secs files r).run (treeHandle env) d = (.ok r', d') →
    r'.quarantinedCount = r.quarantinedCount +
      (renames ((reconcileFiles ps secs files r).ops (treeHandle env) d)).length
  | [], r, d, _, r', d', h => by
    cases h
    rfl
  | f :: files, r, d, hplain, r', d', h => by
    have hrest := fun g hg => hplain g (List.mem_cons_of_mem f hg)
    cases reconcileFile_turn env secs (hplain f List.mem_cons_self) r with
    | skips _ hrun hops =>
      rw [reconcileFiles, run_bind, hrun] at h
      rw [reconcileFiles, ops_bind_ok hrun, renames_append, hops]
      exact reconcileFiles_count env secs files r d hrest h
    | @moves b category _ _ hroom hrun hops =>
      rw [reconcileFiles, run_bind, hrun] at h
      have hcount := reconcileFiles_count env secs files (r.count category)
        ((d.drop f.1).put _ b hroom.1) hrest h
      rw [reconcileFiles, ops_bind_ok hrun, renames_append, hops, hcount, List.length_append,
        List.length_singleton]
      cases category <;> exact Nat.add_assoc _ 1 _
    | raises _ _ _ hrun =>
      rw [reconcileFiles, run_bind, hrun] at h
      cases h

/-- A pass over a list of files, by induction on it: a file overwritten is one
file less, and no later move brings it back. -/
theorem reconcileFiles_keeps_iff (env : Env) (secs : Int) :
    ∀ (files : List (Path × Int)) (r : StagingDriftReport) (d : FileTree),
    (∀ f ∈ files, ps.holds f.1 = true ∧ f.1 ∉ d.dirs) →
    ∀ {result : Except Err StagingDriftReport} {d' : FileTree},
    (reconcileFiles ps secs files r).run (treeHandle env) d = (result, d') →
    Multiset.card (d'.fs.values ps.holds) ≤ Multiset.card (d.fs.values ps.holds) ∧
      (((∃ r', result = .ok r') ∧ d'.fs.values ps.holds = d.fs.values ps.holds) ↔
        FindsRoom ps secs d.dirs files (filesIn d))
  | [], r, d, _, result, d', h => by
    cases h
    exact ⟨le_rfl, by simp [FindsRoom]⟩
  | f :: files, r, d, hbelow, result, d', h => by
    obtain ⟨hhere, hplain⟩ := hbelow f List.mem_cons_self
    have hrest := fun g hg => hbelow g (List.mem_cons_of_mem f hg)
    cases reconcileFile_turn env secs hplain r with
    | skips hskip hrun _ =>
      rw [reconcileFiles, run_bind, hrun] at h
      obtain ⟨hcard, hiff⟩ := reconcileFiles_keeps_iff env secs files r d hrest h
      exact ⟨hcard, hiff.trans (findsRoom_skip hskip).symm⟩
    | @moves b category hb hc hroom hrun _ =>
      rw [reconcileFiles, run_bind, hrun] at h
      have hin : filesIn d f.1 = true := by simp [filesIn, hb]
      have htarget := holds_target ps secs d category f.1
      obtain ⟨hcard, hiff⟩ := reconcileFiles_keeps_iff env secs files (r.count category)
        ((d.drop f.1).put _ b hroom.1) hrest h
      have hle := hcard.trans (Table.card_values_move_le hhere htarget hb)
      refine ⟨hle, ?_⟩
      rw [findsRoom_move hin hc, ← filesIn_move (b := b) hroom.1, vacant_iff, and_iff_left hroom]
      refine Iff.trans ?_ (and_congr_right' hiff)
      cases hover : d.fs.get (d.target ps secs category f.1) with
      | none =>
        have hkept := Table.values_move_of_none hhere htarget hb (.inl hover)
        simp only [FileTree.put, FileTree.drop]
        rw [hkept]
        simp
      | some c =>
        have hlost := Table.values_move_of_some hhere htarget (target_ne hb) hb hover
        simp only [reduceCtorEq, false_and, iff_false, not_and]
        intro _ heq
        rw [heq, hlost, Multiset.card_cons] at hcard
        exact absurd hcard (Nat.not_succ_le_self _)
    | @raises b category hb hc hno hrun =>
      rw [reconcileFiles, run_bind, hrun] at h
      cases h
      have hin : filesIn d f.1 = true := by simp [filesIn, hb]
      refine ⟨le_rfl, ?_⟩
      rw [findsRoom_move hin hc, vacant_iff]
      simp [hno]

/-- `origin` tells the files in use apart, and the names in `placed` are those of the
files `taken`. -/
structure Origins (inUse : Path → Bool) (origin : Path → Path) (taken placed : List Path) :
    Prop where
  apart : ∀ p q, inUse p = true → inUse q = true → origin p = origin q → p = q
  placed_iff : ∀ p, inUse p = true → (p ∈ placed ↔ origin p ∈ taken)

theorem Origins.move {inUse : Path → Bool} {origin : Path → Path} {taken placed : List Path}
    {src dst : Path} (h : Origins inUse origin taken placed) (hsrc : inUse src = true) :
    Origins (namesAfter inUse src dst) (Function.update origin dst (origin src))
      (origin src :: taken) (dst :: placed) := by
  have hold : ∀ p, namesAfter inUse src dst p = true → p ≠ dst → p ≠ src ∧ inUse p = true := by
    intro p hp hne
    simpa [namesAfter, hne] using hp
  constructor
  · intro p q hp hq heq
    by_cases hpd : p = dst
    · by_cases hqd : q = dst
      · rw [hpd, hqd]
      · obtain ⟨hqs, hq⟩ := hold q hq hqd
        rw [hpd, Function.update_self, Function.update_of_ne hqd] at heq
        exact absurd (h.apart src q hsrc hq heq).symm hqs
    · obtain ⟨hps, hp⟩ := hold p hp hpd
      rw [Function.update_of_ne hpd] at heq
      by_cases hqd : q = dst
      · rw [hqd, Function.update_self] at heq
        exact absurd (h.apart p src hp hsrc heq) hps
      · rw [Function.update_of_ne hqd] at heq
        exact h.apart p q hp (hold q hq hqd).2 heq
  · intro p hp
    by_cases hpd : p = dst
    · simp [hpd]
    · obtain ⟨hps, hp⟩ := hold p hp hpd
      have hnot : origin p ≠ origin src := fun heq => hps (h.apart p src hp hsrc heq)
      simp [hpd, hnot, h.placed_iff p hp]

/-- Where every file finds room, the moves are of different files exactly when none is
met where it was put. -/
theorem movedFiles_nodup_iff (env : Env) (secs : Int) :
    ∀ (files : List (Path × Int)) (r : StagingDriftReport) (d : FileTree) (origin : Path → Path)
      (taken placed : List Path),
    (∀ f ∈ files, f.1 ∉ d.dirs) → FindsRoom ps secs d.dirs files (filesIn d) →
    Origins (filesIn d) origin taken placed →
    (((movedFiles origin (renames ((reconcileFiles ps secs files r).ops (treeHandle env) d))).Nodup ∧
      ∀ x ∈ movedFiles origin (renames ((reconcileFiles ps secs files r).ops (treeHandle env) d)),
        x ∉ taken) ↔
      MovesOnce ps secs d.dirs files (filesIn d) placed)
  | [], r, d, origin, taken, placed, _, _, _ => by
    simp [reconcileFiles, renames, movedFiles, MovesOnce]
  | f :: files, r, d, origin, taken, placed, hplain, hroom, htracks => by
    have hrest := fun g hg => hplain g (List.mem_cons_of_mem f hg)
    cases reconcileFile_turn env secs (hplain f List.mem_cons_self) r with
    | skips hskip hrun hops =>
      rw [reconcileFiles, ops_bind_ok hrun, renames_append, hops, List.nil_append,
        movesOnce_skip hskip]
      exact movedFiles_nodup_iff env secs files r d origin taken placed hrest
        ((findsRoom_skip hskip).mp hroom) htracks
    | @moves b category hb hc haccepts hrun hops =>
      have hin : filesIn d f.1 = true := by simp [filesIn, hb]
      have hnext := ((findsRoom_move hin hc).mp hroom).2
      rw [← filesIn_move (b := b) haccepts.1] at hnext
      have ih := movedFiles_nodup_iff env secs files (r.count category)
        ((d.drop f.1).put _ b haccepts.1) _ _ _ hrest hnext
        (by rw [filesIn_move]; exact htracks.move hin)
      rw [reconcileFiles, ops_bind_ok hrun, renames_append, hops, List.singleton_append, movedFiles,
        movesOnce_move hin hc, ← filesIn_move (b := b) haccepts.1]
      refine Iff.trans ?_ (and_congr_right' ih)
      rw [htracks.placed_iff f.1 hin]
      simp only [List.nodup_cons, List.mem_cons, forall_eq_or_imp, not_or]
      constructor
      · rintro ⟨⟨hnew, hnodup⟩, hfirst, hfresh⟩
        refine ⟨hfirst, hnodup, fun x hx => ⟨?_, hfresh x hx⟩⟩
        rintro rfl
        exact hnew hx
      · rintro ⟨hfirst, hnodup, hfresh⟩
        exact ⟨⟨fun hmem => (hfresh _ hmem).1 rfl, hnodup⟩, hfirst, fun x hx => (hfresh x hx).2⟩
    | @raises b category hb hc hno _ =>
      have hin : filesIn d f.1 = true := by simp [filesIn, hb]
      exact absurd (vacant_iff.mp ((findsRoom_move hin hc).mp hroom).1).2 hno

/-- Files moved out of a staging tree that is apart from the quarantine are not met again. -/
theorem movesOnce_of_apart (hstaging : ¬ ps.stagingDir <+: ps.quarantineDir)
    (hquarantine : ¬ ps.quarantineDir <+: ps.stagingDir) {dirs : List Path} :
    ∀ {files : List (Path × Int)} {inUse : Path → Bool} {placed : List Path},
    (∀ f ∈ files, ps.stagingDir <+: f.1) → (∀ p ∈ placed, ps.quarantineDir <+: p) →
    MovesOnce ps secs dirs files inUse placed
  | [], _, _, _, _ => trivial
  | f :: files, inUse, placed, hbelow, hplaced => by
    have hrest := fun g hg => hbelow g (List.mem_cons_of_mem f hg)
    by_cases hmoves : inUse f.1 = true ∧ ∃ category, driftCategory ps f = some category
    · obtain ⟨hin, category, hc⟩ := hmoves
      refine (movesOnce_move hin hc).mpr ⟨fun hmem => ?_, ?_⟩
      · rcases List.prefix_or_prefix_of_prefix (hbelow f List.mem_cons_self) (hplaced _ hmem)
          with h | h
        · exact hstaging h
        · exact hquarantine h
      · refine movesOnce_of_apart hstaging hquarantine hrest fun p hp => ?_
        rcases List.mem_cons.mp hp with rfl | hp
        · exact within_driftTarget category f.1
        · exact hplaced p hp
    · have hskip : inUse f.1 = false ∨ driftCategory ps f = none := by
        by_cases hin : inUse f.1 = true
        · exact .inr (Option.eq_none_iff_forall_ne_some.mpr fun c hc => hmoves ⟨hin, c, hc⟩)
        · exact .inl (Bool.not_eq_true _ ▸ hin)
      exact (movesOnce_skip hskip).mpr (movesOnce_of_apart hstaging hquarantine hrest hplaced)

end Pass

/-! ## The three moves -/

/-- `int(now)` at the next reading of the clock. -/
def secondsAt (env : Env) (d : FileTree) : Int := (env.clock d.ticks).stamp.micros.tdiv 1000000

/-- What the files of the paths of `P` hold is the same before and after a flow. -/
def KeepsContents {α : Type} (env : Env) (P : Path → Bool) (d : FileTree) (p : Flow α) : Prop :=
  (p.run (treeHandle env) d).2.fs.values P = d.fs.values P

/-- The pass returns, and the report has the number of the files it has moved. -/
def CountsFiles (env : Env) (d : FileTree) (p : Flow StagingDriftReport) : Prop :=
  ∃ r, (p.run (treeHandle env) d).1 = .ok r ∧
    r.quarantinedCount = (movedFiles id (renames (p.ops (treeHandle env) d))).dedup.length

section Moves
variable {env : Env} {d : FileTree}

theorem length_dedup_iff {α : Type} [DecidableEq α] {xs : List α} :
    xs.length = xs.dedup.length ↔ xs.Nodup := by
  constructor
  · intro h
    rw [← List.dedup_eq_self]
    exact (List.dedup_sublist xs).eq_of_length h.symm
  · intro h
    rw [List.dedup_eq_self.mpr h]

/-- The tree after a look at the clock. -/
def FileTree.tick (d : FileTree) : FileTree := { d with ticks := d.ticks + 1 }

/-- A pass is its loop after a look at the clock. -/
theorem reconcileStagingDrift_eq (env : Env) (d : FileTree) (ps : DriftParams)
    (listing : Listing ps.stagingDir d.dirs) :
    (reconcileStagingDrift ps (some listing)).run (treeHandle env) d =
      (reconcileFiles ps (secondsAt env d) listing.files .none >>= fun r =>
        (Prog.ret { r with warnings := driftWarnings ps r } : Flow _)).run (treeHandle env) d.tick ∧
    renames ((reconcileStagingDrift ps (some listing)).ops (treeHandle env) d) =
      renames ((reconcileFiles ps (secondsAt env d) listing.files .none).ops
        (treeHandle env) d.tick) := by
  constructor
  · simp only [reconcileStagingDrift, utcNow, op_bind, ret_bind, run_op]
    rfl
  · have hloop : renames ((reconcileStagingDrift ps (some listing)).ops (treeHandle env) d) =
        renames ((reconcileFiles ps (secondsAt env d) listing.files .none >>= fun r =>
          (Prog.ret { r with warnings := driftWarnings ps r } : Flow _)).ops
            (treeHandle env) d.tick) := by
      simp only [reconcileStagingDrift, utcNow, op_bind, ret_bind, ops_op]
      rfl
    rw [hloop]
    generalize hrun : (reconcileFiles ps (secondsAt env d) listing.files .none).run (treeHandle env)
      d.tick = res
    obtain ⟨result, d'⟩ := res
    cases result with
    | ok r => rw [ops_bind_ok hrun, ops_ret, List.append_nil]
    | error e => rw [ops_bind_error hrun]

theorem reconcileStagingDrift_iff (env : Env) (d : FileTree) (ps : DriftParams)
    (listing : Listing ps.stagingDir d.dirs) :
    (CountsFiles env d (reconcileStagingDrift ps (some listing)) ∧
        KeepsContents env ps.holds d (reconcileStagingDrift ps (some listing))) ↔
      FindsRoom ps (secondsAt env d) d.dirs listing.files (filesIn d) ∧
        MovesOnce ps (secondsAt env d) d.dirs listing.files (filesIn d) [] := by
  have hbelow : ∀ f ∈ listing.files, ps.holds f.1 = true ∧ f.1 ∉ d.tick.dirs := fun f hf =>
    ⟨Bool.or_eq_true_iff.mpr (.inl (List.isPrefixOf_iff_prefix.mpr (listing.below f hf))),
      listing.plain f hf⟩
  rw [CountsFiles, KeepsContents, (reconcileStagingDrift_eq env d ps listing).1,
    (reconcileStagingDrift_eq env d ps listing).2, run_bind]
  generalize hloop : (reconcileFiles ps (secondsAt env d) listing.files .none).run (treeHandle env)
    d.tick = res
  obtain ⟨result, d'⟩ := res
  have hkeeps : ((∃ r, result = .ok r) ∧ d'.fs.values ps.holds = d.fs.values ps.holds) ↔
      FindsRoom ps (secondsAt env d) d.dirs listing.files (filesIn d) :=
    (reconcileFiles_keeps_iff env (secondsAt env d) listing.files .none d.tick hbelow hloop).2
  cases result with
  | error e =>
    have hraised : ¬ FindsRoom ps (secondsAt env d) d.dirs listing.files (filesIn d) := by
      intro hroom
      obtain ⟨⟨r, hr⟩, -⟩ := hkeeps.mpr hroom
      cases hr
    simp [hraised]
  | ok r =>
    have hcount := reconcileFiles_count env (secondsAt env d) listing.files .none d.tick
      listing.plain hloop
    have hnodup (hroom : FindsRoom ps (secondsAt env d) d.dirs listing.files (filesIn d)) :
        (movedFiles id (renames ((reconcileFiles ps (secondsAt env d) listing.files .none).ops
          (treeHandle env) d.tick))).Nodup ↔
        MovesOnce ps (secondsAt env d) d.dirs listing.files (filesIn d) [] :=
      Iff.trans (by simp) (movedFiles_nodup_iff env (secondsAt env d) listing.files .none d.tick id
        [] [] listing.plain hroom ⟨fun _ _ _ _ h => h, fun _ _ => Iff.rfl⟩)
    rw [← length_dedup_iff, length_movedFiles] at hnodup
    have hcounts : r.quarantinedCount = (renames ((reconcileFiles ps (secondsAt env d) listing.files
        .none).ops (treeHandle env) d.tick)).length := hcount.trans (Nat.zero_add _)
    rw [← hcounts] at hnodup
    simp only [run_ret, Except.ok.injEq, exists_eq_left']
    constructor
    · rintro ⟨hfiles, hkept⟩
      have hroom := hkeeps.mp ⟨⟨r, rfl⟩, hkept⟩
      exact ⟨hroom, (hnodup hroom).mp hfiles⟩
    · rintro ⟨hroom, honce⟩
      exact ⟨(hnodup hroom).mpr honce, (hkeeps.mpr hroom).2⟩

/-- One file moved, or none when it is not there or cannot be written there. -/
theorem keeps_replaceFile_iff (env : Env) (d : FileTree) {src dst : Path} (hne : src ≠ dst) :
    KeepsContents env (fun _ => true) d (replaceFile src dst) ↔
      d.fs.get src = none ∨ d.fs.get dst = none ∨ d.blocked dst = true := by
  cases hb : d.fs.get src with
  | none => simp [KeepsContents, treeHandle, hb]
  | some b =>
    by_cases haccepts : d.Accepts dst
    · have hmove : ((d.fs.drop src).put dst b).values (fun _ => true) =
          d.fs.values (fun _ => true) ↔ d.fs.get dst = none ∨ src = dst :=
        Table.values_move_iff rfl rfl hb
      have hrun : ((replaceFile src dst).run (treeHandle env) d).2.fs =
          (d.fs.drop src).put dst b := by
        simp [treeHandle, hb, dif_pos haccepts, FileTree.put, FileTree.drop]
      rw [KeepsContents, hrun, hmove]
      simp [hne, haccepts.2]
    · have hrun : ((replaceFile src dst).run (treeHandle env) d).2 = d := by
        simp [treeHandle, hb, dif_neg haccepts]
      rw [KeepsContents, hrun, eq_self_iff_true, true_iff]
      by_cases hdir : dst ∈ d.dirs
      · exact .inr (.inl (d.apart dst hdir))
      · exact .inr (.inr (by simpa [FileTree.Accepts, hdir] using haccepts))

theorem handleQuarantineOrDelete_keeps_iff (path dir : Path) (category : String) :
    KeepsContents env (fun _ => true) d (handleQuarantineOrDelete path (some dir) category) ↔
      d.fs.get path = none ∨ d.present (quarantinePath dir category path) = false ∨
        d.fs.get (stampedPath dir category (secondsAt env d) path) = none ∨
          d.blocked (stampedPath dir category (secondsAt env d) path) = true := by
  cases hfirst : d.present (quarantinePath dir category path) with
  | false =>
    have hrun : (handleQuarantineOrDelete path (some dir) category).run (treeHandle env) d =
        (replaceFile path (quarantinePath dir category path)).run (treeHandle env) d := by
      simp only [quarantinePath] at hfirst
      simp [handleQuarantineOrDelete, hfirst, quarantinePath]
    have hfree : d.fs.get (quarantinePath dir category path) = none := by
      simp only [FileTree.present, Bool.or_eq_false_iff] at hfirst
      simpa using hfirst.1
    rw [KeepsContents, hrun]
    by_cases hne : path = quarantinePath dir category path
    · -- a file at its own first name is not there either
      rw [← hne] at hfree ⊢
      simp [treeHandle, hfree]
    · have hmove := keeps_replaceFile_iff env d hne
      exact hmove.trans (by simp [hfree])
  | true =>
    have hrun : (handleQuarantineOrDelete path (some dir) category).run (treeHandle env) d =
        (replaceFile path (stampedPath dir category (secondsAt env d) path)).run (treeHandle env)
          d.tick := by
      simp only [quarantinePath] at hfirst
      simp only [handleQuarantineOrDelete, pathExists, utcNow, op_bind, ret_bind, run_op,
        treeHandle_pathExists, hfirst, if_true]
      rfl
    have hne : path ≠ stampedPath dir category (secondsAt env d) path := quarantine_ne.symm
    have hmove := keeps_replaceFile_iff env d.tick hne
    rw [KeepsContents, hrun]
    exact hmove.trans (by simp [FileTree.tick, FileTree.blocked])

theorem quarantineDestination_keeps_iff (p : Path) :
    KeepsContents env (fun _ => true) d (quarantineDestination (some p)) ↔
      d.fs.get p = none ∨ d.fs.get (p.addExt ".orphaned") = none ∨
        d.blocked (p.addExt ".orphaned") = true := by
  have hne : p ≠ p.addExt ".orphaned" := (addExt_ne (by decide)).symm
  rw [← keeps_replaceFile_iff env d hne]
  have hrun : ((quarantineDestination (some p)).run (treeHandle env) d).2 =
      ((replaceFile p (p.addExt ".orphaned")).run (treeHandle env) d).2 := by
    cases hthere : d.present p with
    | false =>
      have hnone : d.fs.get p = none := by
        simp only [FileTree.present, Bool.or_eq_false_iff] at hthere
        simpa using hthere.1
      simp [quarantineDestination, treeHandle, hthere, hnone]
    | true =>
      simp only [quarantineDestination, pathExists, op_bind, ret_bind, run_op,
        treeHandle_pathExists, hthere, if_true]
      rw [run_bind]
      generalize (replaceFile p (p.addExt ".orphaned")).run (treeHandle env) d = res
      obtain ⟨result, d'⟩ := res
      cases result <;> rfl
  rw [KeepsContents, KeepsContents, hrun]

/-- A pass counts the files it moves and keeps what the staging tree and the
quarantine hold exactly when every old file finds room and none is moved
twice; a file that fails a check, and a destination of the journal, are moved
without loss exactly when one of their names is free. -/
theorem quarantine_keeps_iff (env : Env) (d : FileTree) :
    (∀ (ps : DriftParams) (listing : Listing ps.stagingDir d.dirs),
      (CountsFiles env d (reconcileStagingDrift ps (some listing)) ∧
        KeepsContents env ps.holds d (reconcileStagingDrift ps (some listing))) ↔
      FindsRoom ps (secondsAt env d) d.dirs listing.files (filesIn d) ∧
        MovesOnce ps (secondsAt env d) d.dirs listing.files (filesIn d) []) ∧
    (∀ (path dir : Path) (category : String),
      KeepsContents env (fun _ => true) d (handleQuarantineOrDelete path (some dir) category) ↔
        d.fs.get path = none ∨ d.present (quarantinePath dir category path) = false ∨
          d.fs.get (stampedPath dir category (secondsAt env d) path) = none ∨
            d.blocked (stampedPath dir category (secondsAt env d) path) = true) ∧
    ∀ p : Path, KeepsContents env (fun _ => true) d (quarantineDestination (some p)) ↔
      d.fs.get p = none ∨ d.fs.get (p.addExt ".orphaned") = none ∨
        d.blocked (p.addExt ".orphaned") = true :=
  ⟨reconcileStagingDrift_iff env d, handleQuarantineOrDelete_keeps_iff,
    quarantineDestination_keeps_iff⟩

end Moves

/-! ## A name met three times -/

def hourlyDrift : DriftParams := ⟨["staging"], ["quarantine"], 1, 1, 1, 10⟩

/-- One name in three directories of the staging tree. -/
def sameNamesTree : FileTree :=
  sampleTree
    [(["staging", "0", "IMG.JPG"], [0]), (["staging", "1", "IMG.JPG"], [1]),
      (["staging", "2", "IMG.JPG"], [2])]
    [["staging"], ["staging", "0"], ["staging", "1"], ["staging", "2"]] (by decide)

/-- The three files, a day and a half old. -/
def sameNames : Listing hourlyDrift.stagingDir sameNamesTree.dirs where
  files := [(["staging", "0", "IMG.JPG"], micros 130000),
    (["staging", "1", "IMG.JPG"], micros 130000),
    (["staging", "2", "IMG.JPG"], micros 130000)]
  below := by decide
  plain := by decide

/-- The destination of an operation that is replayed a second time. -/
def orphanedTree : FileTree :=
  sampleTree [(["lib", "a.jpg"], [97]), (["lib", "a.jpg.orphaned"], [98])] [["lib"]] (by decide)

/-- The third file overwrites the second. A destination of the journal overwrites the one
of an earlier replay. -/
theorem quarantine_overwrites :
    ¬ KeepsContents sampleEnv hourlyDrift.holds sameNamesTree
        (reconcileStagingDrift hourlyDrift (some sameNames)) ∧
      ¬ KeepsContents sampleEnv (fun _ => true) orphanedTree
        (quarantineDestination (some ["lib", "a.jpg"])) := by
  constructor
  · unfold KeepsContents
    decide +kernel
  · unfold KeepsContents
    decide +kernel

/-! ## A quarantine in the staging tree -/

def nestedDrift : DriftParams := ⟨["staging"], ["staging", "quarantine"], 1, 1, 1, 10⟩

def nestedTree : FileTree := sampleTree [(["staging", "a.jpg"], [97])] [["staging"]] (by decide)

/-- The walk comes to the file again where the pass has put it. -/
def nestedNames : Listing nestedDrift.stagingDir nestedTree.dirs where
  files := [(["staging", "a.jpg"], micros 130000),
    (["staging", "quarantine", "orphan_unknown", "a.jpg"], micros 130000)]
  below := by decide
  plain := by decide

/-- One file is moved twice, and counted twice. -/
example : ¬ CountsFiles sampleEnv nestedTree
    (reconcileStagingDrift nestedDrift (some nestedNames)) := by
  have hops : (movedFiles id (renames ((reconcileStagingDrift nestedDrift (some nestedNames)).ops
    (treeHandle sampleEnv) nestedTree))).dedup.length = 1 := by decide +kernel
  have hreport : ((reconcileStagingDrift nestedDrift (some nestedNames)).run
    (treeHandle sampleEnv) nestedTree).1.toOption.map (·.quarantinedCount) = some 2 := by
    decide +kernel
  rintro ⟨r, hrun, hcount⟩
  rw [hrun, Except.toOption, Option.map_some, hcount, hops] at hreport
  cases hreport

end Nightfall
