import Nightfall.Core.Handlers
import Nightfall.L4System.FileTree
import Nightfall.L4System.Purgeable

/-!
# Rename and copy (`domain/storage.py`)

`commit_staging_to_accepted` renames the file on one pool; between pools it
copies it to the destination's name with `.tmp` behind it, compares the two and
renames the copy. The destination is chosen free, the name of the copy is not.

The commit runs on a `FileTree`: where no directory is in its way, nothing of them
shows (`run_of_unobstructed`).

* `commits_alike_iff`: both modes do the same exactly when nothing has the name of
  the copy and the directories above the destination can be there.
-/
namespace Nightfall
open Nightfall.Core Storage Prog

variable {env : Env} {d : FileTree} {source destination : Path} {root : Option Path} {b : Bytes}

/-! ## What a commit asks for -/

/-- The steps of a commit, with the paths they are about. -/
def CommitStep (source destination : Path) : Op → Prop
  | .pathExists p => p = source
  | .statSize p => p = source ∨ p = destination ∨ p = destination.addExt ".tmp"
  | .replace _ dst => dst = destination
  | .copy2 src dst => src ≠ dst ∧ dst = destination.addExt ".tmp"
  | .sha256File _ | .unlink _ => True
  | _ => False

theorem calls_commitStep (same : Bool) :
    (commitStagingToAccepted source destination same root).Calls (CommitStep source destination) := by
  have hrename : (commitRename source destination).Calls (CommitStep source destination) :=
    Calls.bind (calls_replaceFile rfl) fun _ => Calls.bind (calls_statSize (.inr (.inl rfl))) fun _ =>
      .ret
  have hcopy : (commitCopy source destination).Calls (CommitStep source destination) := by
    refine Calls.bind ?_ fun _ => ?_
    · by_cases hself : source = destination.addExt ".tmp"
      · simp only [copy2, if_pos hself]
        exact .err
      · exact calls_copy2 ⟨hself, rfl⟩
    refine Calls.bind (calls_statSize (.inl rfl)) fun n => ?_
    refine Calls.bind (calls_statSize (.inr (.inr rfl))) fun m => ?_
    split
    · exact Calls.bind (calls_unlink trivial) fun _ => .err
    · refine Calls.bind (calls_sha256File trivial) fun a => ?_
      refine Calls.bind (calls_sha256File trivial) fun b => ?_
      split
      · exact Calls.bind (calls_unlink trivial) fun _ => .err
      · refine Calls.bind (calls_replaceFile rfl) fun _ => ?_
        exact Calls.bind (calls_unlink trivial) fun _ => .ret
  unfold commitStagingToAccepted
  refine Calls.bind (calls_pathExists rfl) fun b => ?_
  cases b
  · constructor
  · refine calls_ensureWithin.bind fun _ => ?_
    cases same
    · exact hcopy
    · exact hrename

/-! ## A tree with nothing in the way -/

/-- No directory has a name the commit uses, and no file that of a directory. -/
structure Unobstructed (source destination : Path) (d : FileTree) : Prop where
  staged : source ∉ d.dirs
  free : destination ∉ d.dirs
  copy : destination.addExt ".tmp" ∉ d.dirs
  above : ∀ q, q <+: destination.dropLast → d.fs.get q = none

theorem dropLast_addExt (p : Path) (ext : String) : (p.addExt ext).dropLast = p.dropLast := by
  simp [Path.addExt, Path.withName]

theorem prefix_dropLast_ne {p q : Path} (hp : p ≠ []) (h : q <+: p.dropLast) : q ≠ p := by
  rintro rfl
  have hle := h.length_le
  rw [List.length_dropLast] at hle
  have hpos := List.length_pos_of_ne_nil hp
  omega

theorem Unobstructed.accepts (h : Unobstructed source destination d) : d.Accepts destination :=
  ⟨h.free, blocked_eq_false.mpr h.above⟩

theorem Unobstructed.accepts_copy (h : Unobstructed source destination d) :
    d.Accepts (destination.addExt ".tmp") :=
  ⟨h.copy, blocked_eq_false.mpr (by rw [dropLast_addExt]; exact h.above)⟩

theorem Unobstructed.ne_nil (h : Unobstructed source destination d) : destination ≠ [] := by
  rintro rfl
  exact h.free d.root

theorem Unobstructed.drop (h : Unobstructed source destination d) (p : Path) :
    Unobstructed source destination (d.drop p) where
  staged := h.staged
  free := h.free
  copy := h.copy
  above q hq := by
    show (d.fs.drop p).get q = none
    rw [Table.get_drop]
    split
    · rfl
    · exact h.above q hq

theorem Unobstructed.put {p : Path} (h : Unobstructed source destination d) (hp : p ∉ d.dirs)
    (hne : ∀ q, q <+: destination.dropLast → q ≠ p) :
    Unobstructed source destination (d.put p b hp) where
  staged := h.staged
  free := h.free
  copy := h.copy
  above q hq := by
    show (d.fs.put p b).get q = none
    rw [Table.get_put, if_neg (hne q hq)]
    exact h.above q hq

theorem unobstructed_step {o : Op} (ho : CommitStep source destination o)
    (h : Unobstructed source destination d) :
    (treeHandle env o d).1 = (handle env o d.toWorld).1 ∧
      (treeHandle env o d).2.toWorld = (handle env o d.toWorld).2 ∧
        Unobstructed source destination (treeHandle env o d).2 := by
  cases o with
  | pathExists p =>
    obtain rfl : p = source := ho
    exact ⟨by simp [treeHandle, handle, FileTree.present, h.staged], rfl, h⟩
  | statSize p =>
    have hdir : p ∉ d.dirs := by
      rcases ho with rfl | rfl | rfl
      · exact h.staged
      · exact h.free
      · exact h.copy
    exact ⟨by simp [treeHandle, handle, hdir], rfl, h⟩
  | replace src dst =>
    obtain rfl : dst = destination := ho
    simp only [treeHandle, handle, moveFile]
    cases d.fs.get src with
    | none => exact ⟨rfl, rfl, h⟩
    | some b =>
      simp only [dif_pos h.accepts]
      exact ⟨rfl, rfl, (h.drop src).put h.free fun q => prefix_dropLast_ne h.ne_nil⟩
  | copy2 src dst =>
    obtain ⟨hne, rfl⟩ := ho
    have hland : d.landing src (destination.addExt ".tmp") = destination.addExt ".tmp" :=
      if_neg h.copy
    simp only [treeHandle, handle, copyFile, hland]
    cases d.fs.get src with
    | none => exact ⟨rfl, rfl, h⟩
    | some b =>
      simp only [dif_pos (And.intro h.accepts_copy hne.symm)]
      refine ⟨rfl, rfl, h.put h.copy fun q hq => prefix_dropLast_ne ?_ (by rwa [dropLast_addExt])⟩
      simp [Path.addExt, Path.withName]
  | sha256File p => exact ⟨rfl, rfl, h⟩
  | unlink p => exact ⟨rfl, rfl, h.drop p⟩
  | _ => exact ho.elim

/-- A commit with nothing in its way does on the tree what it does on the files. -/
theorem run_of_unobstructed (env : Env) (root : Option Path)
    (h : Unobstructed source destination d) (same : Bool) :
    ((commitStagingToAccepted source destination same root).run (treeHandle env) d).1 =
        ((commitStagingToAccepted source destination same root).run (handle env) d.toWorld).1 ∧
      ((commitStagingToAccepted source destination same root).run (treeHandle env) d).2.toWorld =
        ((commitStagingToAccepted source destination same root).run (handle env) d.toWorld).2 :=
  (calls_commitStep same).run_proj (fun _ _ => unobstructed_step) h

/-! ## Both modes -/

variable {w : World}

/-- Both modes return, move the file and leave the same files. -/
structure CommitsAlike (env : Env) (source destination : Path) (root : Option Path) (b : Bytes)
    (d : FileTree) : Prop where
  returns : ∀ same, ∃ r,
    ((commitStagingToAccepted source destination same root).run (treeHandle env) d).1 = .ok r
  moved : ∀ same, Relocated source destination b d.toWorld
    ((commitStagingToAccepted source destination same root).run (treeHandle env) d).2.toWorld
  alike : ∀ q,
    ((commitStagingToAccepted source destination true root).run (treeHandle env) d).2.fs.get q =
      ((commitStagingToAccepted source destination false root).run (treeHandle env) d).2.fs.get q

/-- Where the name of the copy is free, a commit moves the file in either mode. -/
theorem wp_commit_moves {same : Bool} (hb : w.fs.get source = some b)
    (hfree : w.fs.get destination = none)
    (hin : ∀ r, root = some r → withinRoot destination r = true)
    (htmp : w.fs.get (destination.addExt ".tmp") = none) :
    (commitStagingToAccepted source destination same root).Wp (handle env) w fun r w' =>
      (∃ res, r = .ok res) ∧ Relocated source destination b w w' := by
  have hne : destination ≠ source := by
    rintro rfl
    rw [hb] at hfree
    cases hfree
  have hself : source ≠ destination.addExt ".tmp" := by
    rintro rfl
    rw [hb] at htmp
    cases htmp
  have hreturns : (commitStagingToAccepted source destination same root).Wp (handle env) w
      fun r _ => ∃ res, r = .ok res :=
    wp_commit_within hb hne hin (fun _ heq => absurd heq hself) fun r _ _ _ _ => ⟨r, rfl⟩
  have hmoves : (commitStagingToAccepted source destination same root).Wp (handle env) w
      (onOk fun _ w' => Relocated source destination b w w') :=
    wp_commit_relocated hb hfree (.inr htmp) (fun _ _ h _ => h) fun _ => trivial
  refine wp_mono (fun r w' h => ?_) (wp_and hreturns hmoves)
  obtain ⟨⟨res, rfl⟩, hmoved⟩ := h
  exact ⟨⟨res, rfl⟩, hmoved⟩

/-- A copy that returns has left nothing under the name of the copy. -/
theorem wp_commit_takes_partial (hb : w.fs.get source = some b) :
    (commitStagingToAccepted source destination false root).Wp (handle env) w
      (onOk fun _ w' => source ≠ destination.addExt ".tmp" ∧
        w'.fs.get (destination.addExt ".tmp") = none) := by
  have hcopy : (commitCopy source destination).Wp (handle env) w
      (onOk fun _ w' => source ≠ destination.addExt ".tmp" ∧
        w'.fs.get (destination.addExt ".tmp") = none) := by
    by_cases hself : source = destination.addExt ".tmp"
    · simp only [commitCopy, copy2, if_pos hself]
      exact wp_err.mpr trivial
    · refine wp_commitCopy hb (fun h => absurd h hself) fun r w' hfs _ => ⟨hself, ?_⟩
      have hne : destination.addExt ".tmp" ≠ destination := addExt_ne (by decide)
      simp [hfs, Table.get_drop, Table.get_put, hne]
  unfold commitStagingToAccepted
  refine wp_bind.mpr (wp_pathExists.mpr ?_)
  simp only [thenWp_ok, hb, Option.isSome_some, if_true]
  refine wp_bind.mpr ?_
  cases root with
  | none => exact wp_ret.mpr hcopy
  | some root =>
    simp only [ensureWithin, ensureWithinRoot]
    split
    · exact wp_ret.mpr hcopy
    · exact wp_err.mpr trivial

/-- A commit of an existing file inside its root comes to the move. -/
theorem wp_commit_tree {same : Bool} {Q : Except Err CommitResult → FileTree → Prop}
    (hb : d.fs.get source = some b)
    (h : (if same then commitRename source destination else commitCopy source destination).Wp
      (treeHandle env) d Q) (herr : ∀ e, Q (.error e) d) :
    (commitStagingToAccepted source destination same root).Wp (treeHandle env) d Q := by
  have hpresent : d.present source = true := by simp [FileTree.present, hb]
  refine wp_op.mpr ?_
  show Wp _ (if d.present source = true then _ else _) _ _
  rw [if_pos hpresent]
  refine wp_bind.mpr ?_
  cases root with
  | none => exact wp_ret.mpr h
  | some root =>
    simp only [ensureWithin, ensureWithinRoot]
    split
    · exact wp_ret.mpr h
    · exact wp_err.mpr (herr _)

/-- Where the destination's directory can not be made the rename raises. -/
theorem rename_blocked (hb : d.fs.get source = some b) (hblocked : d.blocked destination = true) :
    (commitStagingToAccepted source destination true root).Wp (treeHandle env) d
      (onOk fun _ _ => False) := by
  have hrefused : ¬ d.Accepts destination := fun h => by simp [h.2] at hblocked
  refine wp_commit_tree hb (wp_op.mpr ?_) fun _ => trivial
  simp only [treeHandle, hb, dif_neg hrefused]
  exact wp_err.mpr trivial

/-- A directory with the name of the copy takes the copy in: it is no file to compare
with the source, and the copy raises. -/
theorem copy_into_directory (hb : d.fs.get source = some b)
    (hdir : destination.addExt ".tmp" ∈ d.dirs) :
    (commitStagingToAccepted source destination false root).Wp (treeHandle env) d
      (onOk fun _ _ => False) := by
  refine wp_commit_tree hb ?_ fun _ => trivial
  have hself : source ≠ destination.addExt ".tmp" := by
    rintro rfl
    rw [d.apart _ hdir] at hb
    cases hb
  simp only [commitCopy, copy2, if_neg hself]
  refine wp_bind.mpr (wp_op.mpr ?_)
  by_cases h : d.Accepts (d.landing source (destination.addExt ".tmp")) ∧
      d.landing source (destination.addExt ".tmp") ≠ source
  · simp only [treeHandle, hb, dif_pos h]
    -- the copy lies in the directory, which is now compared with the source
    set d' := d.put (d.landing source (destination.addExt ".tmp")) b h.1.1 with hd'
    have hsource : d'.fs.get source = some b := by
      rw [hd', FileTree.put, Table.get_put, if_neg h.2.symm]
      exact hb
    have hstaged : source ∉ d'.dirs := fun hin => by simp [d'.apart _ hin] at hsource
    have hnone : d'.fs.get (destination.addExt ".tmp") = none := d'.apart _ hdir
    have hdir' : destination.addExt ".tmp" ∈ d'.dirs := hdir
    refine wp_ret.mpr (wp_bind.mpr (wp_op.mpr ?_))
    simp only [treeHandle, if_neg hstaged, hsource, Option.map_some]
    refine wp_ret.mpr (wp_bind.mpr (wp_op.mpr ?_))
    simp only [treeHandle, if_pos hdir']
    refine wp_ret.mpr ?_
    simp only [thenWp_ok]
    split
    · exact wp_bind.mpr (wp_op.mpr (wp_ret.mpr (wp_err.mpr trivial)))
    · refine wp_bind.mpr (wp_op.mpr ?_)
      simp only [treeHandle, handle, hsource, Option.map_some]
      refine wp_ret.mpr (wp_bind.mpr (wp_op.mpr ?_))
      simp only [treeHandle, handle, hnone, Option.map_none]
      exact wp_err.mpr trivial
  · simp only [treeHandle, hb, dif_neg h]
    exact wp_err.mpr trivial

/-- A mode that raises is not alike. -/
theorem CommitsAlike.not_raises {same : Bool} (h : CommitsAlike env source destination root b d)
    (hraises : (commitStagingToAccepted source destination same root).Wp (treeHandle env) d
      (onOk fun _ _ => False)) : False := by
  obtain ⟨r, hr⟩ := h.returns same
  have hend := wp_iff.mp hraises
  rw [hr] at hend
  exact hend

/-- From an existing source to a free destination below its root, rename and copy
do the same exactly when nothing has the name of the copy and no file is in the place
of a directory above the destination. -/
theorem commits_alike_iff (hb : d.fs.get source = some b) (hfree : d.present destination = false)
    (hin : ∀ r, root = some r → withinRoot destination r = true) :
    CommitsAlike env source destination root b d ↔
      d.present (destination.addExt ".tmp") = false ∧ d.blocked destination = false := by
  have hstaged : source ∉ d.dirs := fun h => by simp [d.apart _ h] at hb
  simp only [FileTree.present, Bool.or_eq_false_iff, Option.isSome_eq_false_iff,
    Option.isNone_iff_eq_none, List.contains_eq_mem, decide_eq_false_iff_not] at hfree ⊢
  constructor
  · intro h
    have hblocked : d.blocked destination = false :=
      Bool.eq_false_iff.mpr fun hb' => h.not_raises (rename_blocked hb hb')
    have hdir : destination.addExt ".tmp" ∉ d.dirs :=
      fun hd => h.not_raises (copy_into_directory hb hd)
    have hopen : Unobstructed source destination d :=
      ⟨hstaged, hfree.2, hdir, blocked_eq_false.mp hblocked⟩
    obtain ⟨r, hr⟩ := h.returns false
    obtain ⟨hresult, hworld⟩ := run_of_unobstructed env root hopen false
    have hcopy :
        (commitStagingToAccepted source destination false root).Wp (handle env) d.toWorld _ :=
      wp_commit_takes_partial hb
    have htaken := wp_iff.mp hcopy
    rw [← hresult, hr] at htaken
    obtain ⟨hself, hgone⟩ := htaken
    have hmoved := (h.moved false).2 (destination.addExt ".tmp")
    rw [hworld, hgone, if_neg (addExt_ne (by decide)), if_neg hself.symm] at hmoved
    exact ⟨⟨hmoved.symm, hdir⟩, hblocked⟩
  · intro ⟨⟨htmp, hdir⟩, hblocked⟩
    have hopen : Unobstructed source destination d :=
      ⟨hstaged, hfree.2, hdir, blocked_eq_false.mp hblocked⟩
    have hwp : ∀ same, (commitStagingToAccepted source destination same root).Wp (handle env)
      d.toWorld _ := fun _ => wp_commit_moves hb hfree.1 hin htmp
    have hboth : ∀ same, (∃ r, ((commitStagingToAccepted source destination same root).run
        (treeHandle env) d).1 = .ok r) ∧
        Relocated source destination b d.toWorld ((commitStagingToAccepted source destination same
          root).run (treeHandle env) d).2.toWorld := by
      intro same
      obtain ⟨hresult, hworld⟩ := run_of_unobstructed env root hopen same
      rw [hresult, hworld]
      exact wp_iff.mp (hwp same)
    refine ⟨fun same => (hboth same).1, fun same => (hboth same).2, fun q => ?_⟩
    rw [(hboth true).2.2 q, (hboth false).2.2 q]

/-- A photo whose name with `.tmp` behind it is another file. -/
def besidePartial : FileTree :=
  sampleTree [(["staging", "x"], [97]), (["lib", "pending", "IMG.JPG.tmp"], [98])]
    [["staging"], ["lib"], ["lib", "pending"]] (by decide +kernel)

/-- The rename keeps the other file, the copy destroys it. -/
theorem copy_destroys_partial :
    besidePartial.fs.get ["staging", "x"] = some [97] ∧
      besidePartial.present ["lib", "pending", "IMG.JPG"] = false ∧
      ¬ CommitsAlike sampleEnv ["staging", "x"] ["lib", "pending", "IMG.JPG"]
        (some ["lib", "pending"]) [97] besidePartial := by
  refine ⟨by decide +kernel, by decide +kernel, fun h => ?_⟩
  have hsame := h.alike ["lib", "pending", "IMG.JPG.tmp"]
  exact absurd hsame (by decide +kernel)

/-- With the name free the modes agree. -/
theorem copy_like_rename :
    CommitsAlike sampleEnv ["staging", "x"] ["lib", "pending", "IMG.JPG"] (some ["lib", "pending"])
      [97] (sampleTree [(["staging", "x"], [97])] [["staging"], ["lib"]] (by decide +kernel)) := by
  refine (commits_alike_iff (by decide +kernel) (by decide +kernel) ?_).mpr (by decide +kernel)
  rintro r ⟨⟩
  decide +kernel

end Nightfall
