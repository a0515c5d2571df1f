import Nightfall.L3Flows.Effects

/-!
# What each storage operation ends in

One rule per step and one per storage flow, in weakest-precondition form. The
flows above cite these and do not unfold the operations again.

* `wp_choose`: the chosen destination is free and lies beside the base path.
* `wp_renderRelativePath`: rendering reads at most the clock; what it renders
  is not empty.
* `wp_commit_rename`: the same-pool commit is one move.
-/
namespace Nightfall
open Nightfall.Core Storage Prog

variable {env : Env} {w : World}

/-! ## Single steps -/

section Steps
variable {p src dst : Path} {b : Bytes}

theorem wp_pathExists {Q : Except Err Bool → World → Prop} :
    (pathExists p).Wp (handle env) w Q ↔ Q (.ok (w.fs.get p).isSome) w := by
  simp [handle]

theorem wp_statSize {Q : Except Err Nat → World → Prop} (h : w.fs.get p = some b) :
    (statSize p).Wp (handle env) w Q ↔ Q (.ok b.length) w := by
  simp [handle, h]

theorem wp_sha256File {Q : Except Err String → World → Prop} (h : w.fs.get p = some b) :
    (sha256File p).Wp (handle env) w Q ↔ Q (.ok (env.sha256 b)) w := by
  simp [handle, h]

theorem wp_sha256File_none {Q : Except Err String → World → Prop} (h : w.fs.get p = none) :
    (sha256File p).Wp (handle env) w Q ↔ Q (.error (.fileNotFound p)) w := by
  simp [handle, h]

theorem wp_replaceFile {Q : Except Err Unit → World → Prop} (h : w.fs.get src = some b)
    (hQ : ∀ w', w'.fs = (w.fs.drop src).put dst b → w'.reg = w.reg → Q (.ok ()) w') :
    (replaceFile src dst).Wp (handle env) w Q := by
  simp only [replaceFile, wp_op, handle, moveFile, h, Option.map_some]
  exact wp_ret.mpr (hQ _ rfl rfl)

theorem wp_unlink {Q : Except Err Unit → World → Prop}
    (hQ : ∀ w', w'.fs = w.fs.drop p → w'.reg = w.reg → Q (.ok ()) w') :
    (unlink p).Wp (handle env) w Q := by
  simp only [unlink, wp_op, wp_ret]
  exact hQ _ rfl rfl

theorem wp_utcNow {Q : Except Err Instant → World → Prop} :
    utcNow.Wp (handle env) w Q ↔ Q (.ok (env.clock w.ticks)) { w with ticks := w.ticks + 1 } := by
  simp [handle]

theorem wp_getFile {sha : String} {Q : Except Err (Option FileRecord) → World → Prop} :
    (getFile sha).Wp (handle env) w Q ↔ Q (.ok (w.reg.files.get sha)) w := by
  simp [getFile, handle, Registry.getFile]

/-- A transaction commits, or rolls back and is raised. -/
theorem wp_transact {t : Tx} {Q : Except Err Unit → World → Prop}
    (hok : ∀ r now w', t.apply w.reg now = .ok r → w'.fs = w.fs → w'.reg = r → Q (.ok ()) w')
    (herr : ∀ e now w', t.apply w.reg now = .error e → w'.fs = w.fs → w'.reg = w.reg →
      Q (.error (.tx e)) w') : (transact t).Wp (handle env) w Q := by
  cases hr : t.apply w.reg (env.clock w.ticks).iso with
  | ok r =>
    simp only [transact, wp_op, handle, hr, wp_ret]
    exact hok r _ _ hr rfl rfl
  | error e =>
    simp only [transact, wp_op, handle, hr, wp_err]
    exact herr e _ _ hr rfl rfl

theorem wp_transactOrReject {t : Tx} {Q : Except Err Unit → World → Prop}
    (hok : ∀ r now w', t.apply w.reg now = .ok r → w'.fs = w.fs → w'.reg = r → Q (.ok ()) w')
    (herr : ∀ e e' now w', t.apply w.reg now = .error e → w'.fs = w.fs → w'.reg = w.reg →
      Q (.error e') w') : (transactOrReject t).Wp (handle env) w Q := by
  cases hr : t.apply w.reg (env.clock w.ticks).iso with
  | ok r =>
    simp only [transactOrReject, wp_op, handle, hr, wp_ret]
    exact hok r _ _ hr rfl rfl
  | error e =>
    cases e <;> simp only [transactOrReject, wp_op, handle, hr, wp_err] <;>
      exact herr _ _ _ _ hr rfl rfl

end Steps

/-- Some row has this path. -/
def Named (r : Registry) (p : Path) : Prop :=
  ∃ sha row, r.files.get sha = some row ∧ row.currentPath = some p

/-! ## Steps that leave files and tables alone -/

/-- The files and the registry are the same. -/
structure Still (w w' : World) : Prop where
  fs : w'.fs = w.fs
  reg : w'.reg = w.reg

theorem Still.refl (w : World) : Still w w := ⟨rfl, rfl⟩

theorem Still.trans {w₁ w₂ w₃ : World} (h : Still w₁ w₂) (h' : Still w₂ w₃) : Still w₁ w₃ :=
  ⟨h'.fs.trans h.fs, h'.reg.trans h.reg⟩

theorem Later.still {w t : World} : Later w t → Still w t := by
  rintro ⟨m, rfl⟩
  exact ⟨rfl, rfl⟩

/-- The step changes neither a file nor a table. -/
def Op.Quiet (o : Op) : Prop := o.isTx = false ∧ o.writesFs = false

theorem still_handle {o : Op} (h : o.Quiet) : Still w (handle env o w).2 :=
  ⟨handle_fs h.2, handle_reg h.1⟩

theorem wp_quiet {α : Type} {p : Flow α} {Q : Except Err α → World → Prop}
    (hp : p.Calls Op.Quiet) (hQ : ∀ r w', Still w w' → Q r w') : p.Wp (handle env) w Q :=
  hp.wp Still.refl (fun _ _ _ => Still.trans) (fun _ _ ho => still_handle ho) hQ

/-- A flow that calls nothing leaves the world as it is. -/
theorem wp_idle {α : Type} {p : Flow α} {Q : Except Err α → World → Prop}
    (hp : p.Calls fun _ => False) (hQ : ∀ r, Q r w) : p.Wp (handle env) w Q := by
  refine hp.wp (R := Eq) (fun _ => rfl) (fun _ _ _ => Eq.trans) (fun _ _ h => h.elim) ?_
  rintro r t rfl
  exact hQ r

/-- `journalAppend` never fails. -/
theorem wp_journalAppend {eng : Engine} {opId : String} {phase : JournalPhase}
    {c : StagedCandidate} {d : Option Path} {sha : Option String}
    {Q : Except Err Unit → World → Prop} (hQ : ∀ w', Still w w' → Q (.ok ()) w') :
    (journalAppend eng opId phase c d sha).Wp (handle env) w Q := by
  unfold journalAppend
  split
  · exact wp_ret.mpr (hQ w (.refl w))
  · simp only [wp_op, wp_ret]
    exact hQ _ ⟨rfl, rfl⟩

/-! ## Rendering -/

/-- The template holds a brace. -/
theorem hasGood_of_namesFile {template : String} (h : namesFile template = true) :
    HasGood template.toList := by
  refine ⟨'\x7b', ?_, by decide⟩
  rcases Bool.or_eq_true_iff.mp h with h | h
  · exact mem_of_isIn h (by decide)
  · exact mem_of_isIn h (by decide)

/-- A text of hexadecimal digits that is long enough for `{sha8}`. -/
def IsSha (sha : String) : Prop := sha.toList.length = 64 ∧ sha.toList.all isHexDigit = true

theorem IsSha.hasGood {sha : String} (h : IsSha sha) : HasGood (sha.toList.take 8) := by
  obtain ⟨hl, ha⟩ := h
  cases hs : sha.toList with
  | nil => simp [hs] at hl
  | cons c cs =>
    refine ⟨c, by simp, ?_⟩
    rw [hs, List.all_cons, Bool.and_eq_true] at ha
    have hne : c ≠ '/' ∧ c ≠ '.' := by
      constructor <;> (rintro rfl; exact absurd ha.1 (by decide))
    simp [isGood, hne]

theorem quiet_render {template sha original mt : String} :
    (renderRelativePath env template sha original mt).Calls Op.Quiet :=
  calls_renderRelativePath ⟨rfl, rfl⟩

/-- Rendering reads at most the clock, and what it renders is below the root. -/
theorem wp_renderRelativePath {template sha original mt : String}
    {Q : Except Err (List String) → World → Prop} (ht : namesFile template = true) (hs : IsSha sha)
    (hok : ∀ rel w', Still w w' → rel ≠ [] → Q (.ok rel) w')
    (herr : ∀ e w', Still w w' → Q (.error e) w') :
    (renderRelativePath env template sha original mt).Wp (handle env) w Q := by
  unfold renderRelativePath
  refine wp_bind.mpr (wp_quiet (calls_parseTimestamp ⟨rfl, rfl⟩) fun r w' hw => ?_)
  cases r with
  | error e => exact herr e w' hw
  | ok ts =>
    simp only [thenWp_ok]
    cases hr : renderStorageRelativePath template sha original ts with
    | error e => exact wp_err.mpr (herr _ w' hw)
    | ok rel =>
      exact wp_ret.mpr (hok rel w' hw
        (renderStorageRelativePath_ne_nil (hasGood_of_namesFile ht) hs.hasGood hr))

/-! ## A free destination -/

/-- Beside `base`: the same directory, any name. -/
def Beside (base d : Path) : Prop := ∃ n, d = base.dropLast ++ [n]

theorem beside_self {base : Path} (h : base ≠ []) : Beside base base :=
  ⟨base.getLast h, (List.dropLast_append_getLast h).symm⟩

theorem beside_withName (base : Path) (n : String) : Beside base (base.withName n) := ⟨n, rfl⟩

theorem Beside.addExt {base d : Path} (h : Beside base d) (ext : String) :
    Beside base (d.addExt ext) := by
  obtain ⟨n, hd⟩ := h
  refine ⟨d.name ++ ext, ?_⟩
  rw [Path.addExt, Path.withName, hd, List.dropLast_concat]

/-- A path beside one below the root is below the root. -/
theorem Beside.within {root rel d : Path} (hrel : rel ≠ []) (h : Beside (root ++ rel) d) :
    root <+: d := by
  obtain ⟨n, rfl⟩ := h
  rw [List.dropLast_append_of_ne_nil hrel, List.append_assoc]
  exact List.prefix_append _ _

theorem wp_tryCollisions {base : Path} {Q : Except Err (Option Path) → World → Prop}
    (hnone : Q (.ok none) w)
    (hsome : ∀ d, w.fs.get d = none → Beside base d → Q (.ok (some d)) w) :
    ∀ (n index : Nat), (tryCollisions base index n).Wp (handle env) w Q
  | 0, _ => wp_ret.mpr hnone
  | n + 1, index => by
    unfold tryCollisions
    refine wp_bind.mpr (wp_pathExists.mpr ?_)
    simp only [thenWp_ok]
    split
    · exact wp_tryCollisions hnone hsome n (index + 1)
    · next h =>
      refine wp_ret.mpr (hsome _ ?_ (beside_withName _ _))
      simpa using h

/-- The chosen destination is free, whatever the base. -/
theorem wp_choose_free {base : Path} {n : Int} :
    (chooseCollisionSafeDestinationWithThreshold base n).Wp (handle env) w
      (onOk fun d w' => w' = w ∧ w.fs.get d = none) := by
  unfold chooseCollisionSafeDestinationWithThreshold
  split
  · exact wp_err.mpr trivial
  · refine wp_bind.mpr (wp_pathExists.mpr ?_)
    simp only [thenWp_ok]
    split
    · refine wp_bind.mpr (wp_tryCollisions ?_ ?_ _ _)
      · exact wp_err.mpr trivial
      · exact fun d hd _ => wp_ret.mpr ⟨rfl, hd⟩
    · next h => exact wp_ret.mpr ⟨rfl, by simpa using h⟩

/-- The chosen destination is free and beside the base; nothing is written. -/
theorem wp_choose {base : Path} {n : Int} {Q : Except Err Path → World → Prop}
    (hbase : base ≠ []) (hok : ∀ d, w.fs.get d = none → Beside base d → Q (.ok d) w)
    (herr : ∀ e, Q (.error e) w) :
    (chooseCollisionSafeDestinationWithThreshold base n).Wp (handle env) w Q := by
  unfold chooseCollisionSafeDestinationWithThreshold
  split
  · exact wp_err.mpr (herr _)
  · refine wp_bind.mpr (wp_pathExists.mpr ?_)
    simp only [thenWp_ok]
    split
    · refine wp_bind.mpr (wp_tryCollisions ?_ ?_ _ _)
      · exact wp_err.mpr (herr _)
      · exact fun d hd hb => wp_ret.mpr (hok d hd hb)
    · next h =>
      refine wp_ret.mpr (hok base ?_ (beside_self hbase))
      simpa using h

/-! ## Commit -/

/-- The same-pool commit is one move; it fails only before it. -/
theorem wp_commit_rename {source destination : Path} {root : Option Path}
    {Q : Except Err CommitResult → World → Prop}
    (hok : ∀ b r w', w.fs.get source = some b → w'.fs = (w.fs.drop source).put destination b →
      w'.reg = w.reg → Q (.ok r) w')
    (herr : ∀ e, Q (.error e) w) :
    (commitStagingToAccepted source destination true root).Wp (handle env) w Q := by
  unfold commitStagingToAccepted
  refine wp_bind.mpr (wp_pathExists.mpr ?_)
  simp only [thenWp_ok]
  cases hb : w.fs.get source with
  | none => exact wp_err.mpr (herr _)
  | some b =>
    simp only [Option.isSome_some, if_true]
    refine wp_bind.mpr ?_
    have hin : (ensureWithin destination root).Wp (handle env) w
        (thenWp (handle env) (fun _ => commitRename source destination) Q) := by
      have hmove : (commitRename source destination).Wp (handle env) w Q := by
        refine wp_bind.mpr (wp_replaceFile hb fun w' hfs hreg => ?_)
        refine wp_bind.mpr ((wp_statSize (b := b) (by simp [hfs])).mpr ?_)
        exact wp_ret.mpr (hok b _ w' hb hfs hreg)
      cases root with
      | none => exact wp_ret.mpr hmove
      | some root =>
        simp only [ensureWithin, ensureWithinRoot]
        split
        · exact wp_ret.mpr hmove
        · exact wp_err.mpr (herr _)
    exact hin

theorem wp_commit_missing {source destination : Path} {same : Bool} {root : Option Path}
    {Q : Except Err CommitResult → World → Prop} (hb : w.fs.get source = none)
    (herr : ∀ e, Q (.error e) w) :
    (commitStagingToAccepted source destination same root).Wp (handle env) w Q := by
  unfold commitStagingToAccepted
  refine wp_bind.mpr (wp_pathExists.mpr ?_)
  simp only [thenWp_ok, hb]
  exact wp_err.mpr (herr _)

theorem wp_copy2 {src dst : Path} {b : Bytes} {Q : Except Err Unit → World → Prop}
    (h : w.fs.get src = some b) (hne : src ≠ dst)
    (hQ : ∀ w', w'.fs = w.fs.put dst b → w'.reg = w.reg → Q (.ok ()) w') :
    (copy2 src dst).Wp (handle env) w Q := by
  simp only [copy2, if_neg hne, wp_op, handle, copyFile, h, Option.map_some]
  exact wp_ret.mpr (hQ _ rfl rfl)

/-- The cross-pool commit: the copy is exact, so both checks pass. It raises only
where the source has the name of the copy. -/
theorem wp_commitCopy {source destination : Path} {b : Bytes}
    {Q : Except Err CommitResult → World → Prop} (hb : w.fs.get source = some b)
    (herr : source = destination.addExt ".tmp" → ∀ e, Q (.error e) w)
    (hok : ∀ r w', w'.fs = ((((w.fs.put (destination.addExt ".tmp") b).drop
      (destination.addExt ".tmp")).put destination b).drop source) → w'.reg = w.reg →
      Q (.ok r) w') :
    (commitCopy source destination).Wp (handle env) w Q := by
  unfold commitCopy
  by_cases hsame : source = destination.addExt ".tmp"
  · simp only [copy2, if_pos hsame]
    exact wp_err.mpr (herr hsame _)
  refine wp_bind.mpr (wp_copy2 hb hsame fun w₁ hfs₁ hreg₁ => ?_)
  have hsrc : w₁.fs.get source = some b := by
    rw [hfs₁, Table.get_put]
    split
    · rfl
    · exact hb
  have htmp : w₁.fs.get (destination.addExt ".tmp") = some b := by
    rw [hfs₁]; exact Table.get_put_self _ _ _
  refine wp_bind.mpr ((wp_statSize hsrc).mpr (wp_bind.mpr ((wp_statSize htmp).mpr ?_)))
  simp only [thenWp_ok, ne_eq, not_true_eq_false, if_false]
  refine wp_bind.mpr ((wp_sha256File hsrc).mpr (wp_bind.mpr ((wp_sha256File htmp).mpr ?_)))
  simp only [thenWp_ok, not_true_eq_false, if_false]
  refine wp_bind.mpr (wp_replaceFile htmp fun w₂ hfs₂ hreg₂ => ?_)
  refine wp_bind.mpr (wp_unlink fun w₃ hfs₃ hreg₃ => wp_ret.mpr (hok _ w₃ ?_ ?_))
  · rw [hfs₃, hfs₂, hfs₁]
  · rw [hreg₃, hreg₂, hreg₁]

/-- Either commit puts the source's bytes at the destination and removes the source;
only a copy of the source onto itself is refused. -/
theorem wp_commit_within {source destination : Path} {same : Bool} {root : Option Path} {b : Bytes}
    {Q : Except Err CommitResult → World → Prop} (hb : w.fs.get source = some b)
    (hne : destination ≠ source) (hin : ∀ r, root = some r → withinRoot destination r = true)
    (herr : same = false → source = destination.addExt ".tmp" → ∀ e, Q (.error e) w)
    (hok : ∀ r w', w'.fs.get destination = some b → w'.fs.get source = none → w'.reg = w.reg →
      Q (.ok r) w') :
    (commitStagingToAccepted source destination same root).Wp (handle env) w Q := by
  have hmove : (if same then commitRename source destination else commitCopy source destination).Wp
      (handle env) w Q := by
    cases same with
    | true =>
      refine wp_bind.mpr (wp_replaceFile hb fun w' hfs hreg => ?_)
      refine wp_bind.mpr ((wp_statSize (b := b) (by simp [hfs])).mpr ?_)
      refine wp_ret.mpr (hok _ w' (by simp [hfs]) ?_ hreg)
      rw [hfs, Table.get_put, if_neg hne.symm, Table.get_drop, if_pos rfl]
    | false =>
      refine wp_commitCopy hb (herr rfl) fun r w' hfs hreg => hok r w' ?_ ?_ hreg
      · rw [hfs, Table.get_drop, if_neg hne]
        exact Table.get_put_self _ _ _
      · rw [hfs, Table.get_drop, if_pos rfl]
  unfold commitStagingToAccepted
  refine wp_bind.mpr (wp_pathExists.mpr ?_)
  simp only [thenWp_ok, hb, Option.isSome_some, if_true]
  refine wp_bind.mpr ?_
  cases root with
  | none => exact wp_ret.mpr hmove
  | some root =>
    simp only [ensureWithin, ensureWithinRoot, hin root rfl, if_true]
    exact wp_ret.mpr hmove

/-- A destination outside its root is refused before anything moves. -/
theorem wp_commit_outside {source destination root : Path} {same : Bool} {b : Bytes}
    {Q : Except Err CommitResult → World → Prop} (hb : w.fs.get source = some b)
    (hout : withinRoot destination root = false) (herr : ∀ e, Q (.error e) w) :
    (commitStagingToAccepted source destination same (some root)).Wp (handle env) w Q := by
  unfold commitStagingToAccepted
  refine wp_bind.mpr (wp_pathExists.mpr ?_)
  simp only [thenWp_ok, hb, Option.isSome_some, if_true]
  refine wp_bind.mpr ?_
  simp only [ensureWithin, ensureWithinRoot, hout]
  exact wp_err.mpr (herr _)

theorem wp_commit {source destination : Path} {same : Bool} {root : Option Path} {b : Bytes}
    {Q : Except Err CommitResult → World → Prop} (hb : w.fs.get source = some b)
    (hne : destination ≠ source)
    (hok : ∀ r w', w'.fs.get destination = some b → w'.fs.get source = none → w'.reg = w.reg →
      Q (.ok r) w')
    (herr : ∀ e, Q (.error e) w) :
    (commitStagingToAccepted source destination same root).Wp (handle env) w Q := by
  by_cases hin : ∀ r, root = some r → withinRoot destination r = true
  · exact wp_commit_within hb hne hin (fun _ _ => herr) hok
  · obtain ⟨r, rfl, hout⟩ : ∃ r, root = some r ∧ withinRoot destination r = false := by
      simpa using hin
    exact wp_commit_outside hb hout herr

end Nightfall
