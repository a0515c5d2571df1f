import Nightfall.L4System.Location

/-!
# What the trash keeps

`process_trash` unlinks every trash file, whatever `_apply_reject` did with it.
The bytes survive only where the row of their hash is unknown yet, so that the
file itself is moved, or where the row's path still holds them.

* `InPlace`: the row's path holds the bytes, where a reject will find them.
* `Keeps`: what every step of the trash loop leaves alone; it composes.
* `wp_trashOne_keeps`, `wp_trashLoop_keeps`: one file, then the loop.
* `trash_retained`: in every run, each `process_trash` that starts from a
  covered state retains all it was given.
-/
namespace Nightfall
open Nightfall.Core Storage Prog

/-- A file of the trash and its content. -/
def Trashed (cfg : CoreConfig) (w : World) (f : Path) (b : Bytes) : Prop :=
  f ∈ filesBelow w.fs cfg.trashPath ∧ w.fs.get f = some b

/-- The columns of the pairs that a reject never writes. -/
def pairKeys (r : Registry) : List (String × String × String) :=
  r.livePhotoPairs.map fun pair => (pair.pairId, pair.photoSha256, pair.videoSha256)

def PairMember (r : Registry) (sha : String) : Prop :=
  ∃ key ∈ pairKeys r, key.2.1 = sha ∨ key.2.2 = sha

/-- The row is neither absent nor a tombstone, or there is no row. -/
def NotPurged (w : World) (sha : String) : Prop :=
  ∀ row, w.reg.files.get sha = some row → row.status ≠ .purged

/-- The row's path holds the bytes below the rejected root; or, while the row is
not rejected, below another queue root and at a path that no other row of `V`
names. -/
def InPlace (cfg : CoreConfig) (V : String → Prop) (w : World) (sha : String) (b : Bytes)
    (row : FileRecord) : Prop :=
  ∃ q, row.currentPath = some q ∧ w.fs.get q = some b ∧
    (cfg.rejectedPath <+: q ∨ (row.status ≠ .rejected ∧
      (withinRoot q cfg.pendingPath || withinRoot q cfg.acceptedPath) = true ∧
      ∀ k row', k ≠ sha → V k → w.reg.files.get k = some row' → row'.currentPath ≠ some q))

/-- The bytes are below the rejected root, at the path of their row. -/
def Retained (cfg : CoreConfig) (w : World) (sha : String) (b : Bytes) : Prop :=
  ∃ row q, w.reg.files.get sha = some row ∧ row.currentPath = some q ∧ cfg.rejectedPath <+: q ∧
    w.fs.get q = some b

def OnDisk (w : World) (b : Bytes) : Prop := ∃ q, w.fs.get q = some b

/-- The queue roots and the trash, none inside another. -/
structure Layout (cfg : CoreConfig) : Prop where
  trash : Apart cfg cfg.trashPath
  pending : Unnested cfg.pendingPath cfg.rejectedPath
  accepted : Unnested cfg.acceptedPath cfg.rejectedPath

section Steps
variable {env : Env} {cfg : CoreConfig} {V : String → Prop} {T L : Bytes → Prop}
  {w w' w'' : World} {sha : String}

/-- A path a reject may move is neither in the trash nor below the rejected
root. -/
theorem Layout.movable (h : Layout cfg) {p : Path}
    (hp : (withinRoot p cfg.pendingPath || withinRoot p cfg.acceptedPath) = true) :
    ¬ cfg.rejectedPath <+: p ∧ ¬ cfg.trashPath <+: p := by
  rcases Bool.or_eq_true_iff.mp hp with hp | hp
  · exact ⟨h.pending.disjoint (prefix_of_withinRoot hp),
      h.trash.pending.disjoint (prefix_of_withinRoot hp)⟩
  · exact ⟨h.accepted.disjoint (prefix_of_withinRoot hp),
      h.trash.accepted.disjoint (prefix_of_withinRoot hp)⟩

theorem InPlace.not_trash (hl : Layout cfg) {b : Bytes} {row : FileRecord}
    (h : InPlace cfg V w sha b row) {q : Path} (hq : row.currentPath = some q) :
    ¬ cfg.trashPath <+: q := by
  obtain ⟨q', hq', -, hroot⟩ := h
  rw [hq] at hq'
  cases hq'
  rcases hroot with hroot | ⟨-, hin, -⟩
  · exact hl.trash.rejected.disjoint hroot
  · exact (hl.movable hin).2

/-- What a stretch of the trash loop leaves: the tracked bytes `T` stay where a
reject finds them, retained bytes stay retained, no live content `L` goes, the
trash only loses files and the pairs keep their members. -/
structure Keeps (env : Env) (cfg : CoreConfig) (V : String → Prop) (T L : Bytes → Prop)
    (w w' : World) : Prop where
  place : ∀ b, T b → (∀ row, w.reg.files.get (env.sha256 b) = some row →
      InPlace cfg V w (env.sha256 b) b row) →
    ∀ row, w'.reg.files.get (env.sha256 b) = some row → InPlace cfg V w' (env.sha256 b) b row
  kept : ∀ b, Retained cfg w (env.sha256 b) b → Retained cfg w' (env.sha256 b) b
  disk : ∀ b, L b → OnDisk w b → OnDisk w' b
  trash : ∀ f b, cfg.trashPath <+: f → w'.fs.get f = some b → w.fs.get f = some b
  pairs : pairKeys w'.reg = pairKeys w.reg

theorem Keeps.trans (h : Keeps env cfg V T L w w') (h' : Keeps env cfg V T L w' w'') :
    Keeps env cfg V T L w w'' where
  place b hb hp := h'.place b hb (h.place b hb hp)
  kept b hb := h'.kept b (h.kept b hb)
  disk b hb hd := h'.disk b hb (h.disk b hb hd)
  trash f b hf hb := h.trash f b hf (h'.trash f b hf hb)
  pairs := h'.pairs.trans h.pairs

/-- Files, rows and members as they were. -/
theorem Keeps.same (hfs : w'.fs = w.fs) (hfiles : w'.reg.files = w.reg.files)
    (hpairs : pairKeys w'.reg = pairKeys w.reg) : Keeps env cfg V T L w w' where
  place b _ hp := by unfold InPlace; rw [hfs, hfiles]; exact hp
  kept b hb := by unfold Retained; rw [hfs, hfiles]; exact hb
  disk b _ hd := by unfold OnDisk; rw [hfs]; exact hd
  trash f b _ hb := by rwa [hfs] at hb
  pairs := hpairs

theorem Keeps.still (h : Still w w') : Keeps env cfg V T L w w' :=
  .same h.fs (by rw [h.reg]) (by rw [h.reg])

/-! ## The changes the loop makes -/

/-- A file moves to a free path below the rejected root and row `k` names it.
Nobody else's bytes were at the old path. -/
theorem Keeps.move (hl : Layout cfg) {k : String} {row' : FileRecord} {p d : Path} {b : Bytes}
    (hm : Moved p d b w w') (hfree : w.fs.get d = none) (hd : cfg.rejectedPath <+: d)
    (hpr : ¬ cfg.rejectedPath <+: p) (hget : w'.reg.files.get k = some row')
    (hpath : row'.currentPath = some d)
    (hothers : ∀ j, j ≠ k → w'.reg.files.get j = w.reg.files.get j)
    (hpairs : pairKeys w'.reg = pairKeys w.reg)
    (hown : ∀ b', T b' → env.sha256 b' = k → (∀ row, w.reg.files.get k = some row →
      InPlace cfg V w k b' row) → b' = b)
    (hold : ∀ b', ¬ Retained cfg w k b')
    (hnone : ∀ t b' row q, t ≠ k → w.reg.files.get t = some row → InPlace cfg V w t b' row →
      row.currentPath = some q → q ≠ p) : Keeps env cfg V T L w w' where
  place b' hT hp row hrow := by
    by_cases hk : env.sha256 b' = k
    · rw [hk, hget] at hrow
      cases hrow
      rw [hk] at hp ⊢
      obtain rfl := hown b' hT hk hp
      exact ⟨d, hpath, hm.get_dst, .inl hd⟩
    · rw [hothers _ hk] at hrow
      have hin := hp row hrow
      obtain ⟨q, hq, hb, hroot⟩ := id hin
      have hqd : q ≠ d := by rintro rfl; rw [hfree] at hb; cases hb
      refine ⟨q, hq, by rw [hm.get_of_ne hqd (hnone _ _ _ _ hk hrow hin hq), hb], ?_⟩
      refine hroot.imp_right fun ⟨hst, hqin, halone⟩ => ⟨hst, hqin, fun j row'' hj hV hj' => ?_⟩
      by_cases hjk : j = k
      · subst hjk
        rw [hget] at hj'
        cases hj'
        rw [hpath]
        simpa using fun h => hqd h.symm
      · rw [hothers j hjk] at hj'
        exact halone j row'' hj hV hj'
  kept b' hb := by
    obtain ⟨row, q, hrow, hq, hqr, hb'⟩ := id hb
    have hk : env.sha256 b' ≠ k := by intro hk; rw [hk] at hb; exact hold b' hb
    have hqd : q ≠ d := by rintro rfl; rw [hfree] at hb'; cases hb'
    have hqp : q ≠ p := by rintro rfl; exact hpr hqr
    exact ⟨row, q, by rw [hothers _ hk, hrow], hq, hqr, by rw [hm.get_of_ne hqd hqp, hb']⟩
  disk b' _ hdisk := by
    obtain ⟨q, hq⟩ := hdisk
    by_cases hqp : q = p
    · subst hqp
      rw [hm.1] at hq
      cases hq
      exact ⟨d, hm.get_dst⟩
    · have hqd : q ≠ d := by rintro rfl; rw [hfree] at hq; cases hq
      exact ⟨q, by rw [hm.get_of_ne hqd hqp, hq]⟩
  trash f b' hf hb := by
    have hfd : f ≠ d := by rintro rfl; exact hl.trash.rejected.disjoint hd hf
    rw [hm.2, Table.get_put, if_neg hfd, Table.get_drop] at hb
    split at hb
    · cases hb
    · exact hb
  pairs := hpairs

/-- The files stay and one row is written: its path is what it was, or it is
dropped with the file gone already. -/
theorem Keeps.row {k : String} {old new : FileRecord} (hfs : w'.fs = w.fs)
    (hold : w.reg.files.get k = some old) (hget : w'.reg.files.get k = some new)
    (hothers : ∀ j, j ≠ k → w'.reg.files.get j = w.reg.files.get j)
    (hpairs : pairKeys w'.reg = pairKeys w.reg)
    (hpath : ∀ q, old.currentPath = some q →
      (new.currentPath = some q ∧ cfg.rejectedPath <+: q) ∨ w.fs.get q = none)
    (hnew : ∀ q, new.currentPath = some q → old.currentPath = some q) :
    Keeps env cfg V T L w w' where
  place b hT hp row hrow := by
    by_cases hk : env.sha256 b = k
    · rw [hk] at hp hrow ⊢
      rw [hget] at hrow
      cases hrow
      obtain ⟨q, hq, hb, -⟩ := hp old hold
      rcases hpath q hq with ⟨hq', hr⟩ | hgone
      · exact ⟨q, hq', by rw [hfs, hb], .inl hr⟩
      · rw [hgone] at hb
        cases hb
    · rw [hothers _ hk] at hrow
      obtain ⟨q, hq, hb, hroot⟩ := hp row hrow
      refine ⟨q, hq, by rw [hfs, hb], hroot.imp_right fun ⟨hst, hin, halone⟩ =>
        ⟨hst, hin, fun j row' hj hV hj' hjq => ?_⟩⟩
      by_cases hjk : j = k
      · subst hjk
        rw [hget] at hj'
        cases hj'
        exact halone j old hj hV hold (hnew q hjq)
      · rw [hothers j hjk] at hj'
        exact halone j row' hj hV hj' hjq
  kept b hb := by
    obtain ⟨row, q, hrow, hq, hr, hb⟩ := hb
    by_cases hk : env.sha256 b = k
    · rw [hk] at hrow ⊢
      rw [hold] at hrow
      cases hrow
      rcases hpath q hq with ⟨hq', -⟩ | hgone
      · exact ⟨new, q, hget, hq', hr, by rw [hfs, hb]⟩
      · rw [hgone] at hb
        cases hb
    · exact ⟨row, q, by rw [hothers _ hk, hrow], hq, hr, by rw [hfs, hb]⟩
  disk b _ hd := by unfold OnDisk; rw [hfs]; exact hd
  trash f b _ hb := by rwa [hfs] at hb
  pairs := hpairs

/-- A trash file goes; its bytes are retained, or they are not live. -/
theorem Keeps.unlink (hl : Layout cfg) {f : Path} (hf : cfg.trashPath <+: f)
    (hfs : w'.fs = w.fs.drop f) (hreg : w'.reg = w.reg)
    (hret : ∀ b, w.fs.get f = some b → L b → Retained cfg w (env.sha256 b) b) :
    Keeps env cfg V T L w w' := by
  have hget : ∀ q, q ≠ f → w'.fs.get q = w.fs.get q := fun q hq => by
    rw [hfs, Table.get_drop, if_neg hq]
  have hkept : ∀ b, Retained cfg w (env.sha256 b) b → Retained cfg w' (env.sha256 b) b := by
    rintro b ⟨row, q, hrow, hq, hr, hb⟩
    have hqf : q ≠ f := by rintro rfl; exact hl.trash.rejected.disjoint hr hf
    exact ⟨row, q, by rw [hreg, hrow], hq, hr, by rw [hget q hqf, hb]⟩
  constructor
  · intro b hT hp row hrow
    rw [hreg] at hrow
    have hin := hp row hrow
    obtain ⟨q, hq, hb, hroot⟩ := id hin
    have hqf : q ≠ f := by rintro rfl; exact hin.not_trash hl hq hf
    refine ⟨q, hq, by rw [hget q hqf, hb], ?_⟩
    rw [hreg]
    exact hroot
  · exact hkept
  · rintro b hL ⟨q, hq⟩
    by_cases hqf : q = f
    · subst hqf
      obtain ⟨_, q', -, -, -, hq'⟩ := hkept b (hret b hq hL)
      exact ⟨q', hq'⟩
    · exact ⟨q, by rw [hget q hqf, hq]⟩
  · intro g b _ hb
    rw [hfs, Table.get_drop] at hb
    split at hb
    · cases hb
    · exact hb
  · rw [hreg]

/-- The row's path, if it has one, is below the rejected root. -/
def Shelved (cfg : CoreConfig) (w : World) (sha : String) : Prop :=
  ∀ row q, w.reg.files.get sha = some row → row.currentPath = some q → cfg.rejectedPath <+: q

def RowRejected (w : World) (sha : String) : Prop :=
  ∃ row, w.reg.files.get sha = some row ∧ row.status = .rejected

/-- Rejected and in place is retained. -/
theorem retained_of_rejected {b : Bytes} (h : RowRejected w sha)
    (hp : ∀ row, w.reg.files.get sha = some row → InPlace cfg V w sha b row) :
    Retained cfg w sha b := by
  obtain ⟨row, hrow, hst⟩ := h
  obtain ⟨q, hq, hb, hr | ⟨hne, -⟩⟩ := hp row hrow
  · exact ⟨row, q, hrow, hq, hr, hb⟩
  · exact absurd hst hne

/-! ## The flows -/

/-- `_move_to_rejected_folder` of any row the loop may touch. -/
theorem wp_moveToRejectedFolder_keeps (hl : Layout cfg) (hs : IsSha sha) (hV : V sha) :
    (moveToRejectedFolder env cfg sha).Wp (handle env) w (onOk fun _ w' =>
      Keeps env cfg V T L w w' ∧ Shelved cfg w' sha ∧
        ∀ j, Shelved cfg w j → Shelved cfg w' j) := by
  cases hrow : w.reg.files.get sha with
  | none =>
    unfold moveToRejectedFolder
    refine wp_bind.mpr (wp_getFile.mpr ?_)
    simp only [thenWp_ok, hrow]
    refine wp_ret.mpr ⟨.still (.refl w), ?_, fun _ h => h⟩
    intro row q hrow'
    rw [hrow] at hrow'
    cases hrow'
  | some row =>
    -- the row is written and every other row is as it was
    have hshelved : ∀ {w' : World} {row' : FileRecord}, w'.reg.files.get sha = some row' →
        (∀ j, j ≠ sha → w'.reg.files.get j = w.reg.files.get j) →
        (∀ q, row'.currentPath = some q → cfg.rejectedPath <+: q) →
        Shelved cfg w' sha ∧ ∀ j, Shelved cfg w j → Shelved cfg w' j := by
      intro w' row' hget hothers hq
      have hown : Shelved cfg w' sha := by
        intro row'' q hrow'' hq'
        rw [hget] at hrow''
        cases hrow''
        exact hq q hq'
      refine ⟨hown, fun j hj => ?_⟩
      by_cases hjs : j = sha
      · rw [hjs]; exact hown
      · intro row'' q hrow'' hq'
        rw [hothers j hjs] at hrow''
        exact hj row'' q hrow'' hq'
    refine wp_moveToRejectedFolder hs hrow ?_ ?_ ?_ fun _ _ _ => trivial
    · intro hnull
      exact ⟨.still (.refl w), hshelved hrow (fun _ _ => rfl) (by simp [hnull])⟩
    · intro p w' now hp hgone hfs hreg
      have hget : w'.reg.files.get sha = some { row with currentPath := none, updatedAt := now } := by
        rw [hreg, Registry.files_clearCurrentPath, Table.get_modify, if_pos rfl, hrow]; rfl
      have hothers : ∀ j, j ≠ sha → w'.reg.files.get j = w.reg.files.get j := fun j hj => by
        rw [hreg, Registry.files_clearCurrentPath, Table.get_modify, if_neg hj]
      refine ⟨.row hfs hrow hget hothers (by rw [hreg]; rfl) (fun q hq => .inr ?_) (by simp),
        hshelved hget hothers (by simp)⟩
      rw [hp] at hq
      cases hq
      exact hgone
    · intro p d b w' now hp hin hfree hd hm hreg
      have hget : w'.reg.files.get sha =
          some { row with currentPath := some d, updatedAt := now } := by
        rw [hreg, Registry.files_updateCurrentPath, Table.get_modify, if_pos rfl, hrow]; rfl
      have hothers : ∀ j, j ≠ sha → w'.reg.files.get j = w.reg.files.get j := fun j hj => by
        rw [hreg, Registry.files_updateCurrentPath, Table.get_modify, if_neg hj]
      refine ⟨.move hl hm hfree hd.within (hl.movable hin).1 hget rfl hothers (by rw [hreg]; rfl)
        ?_ ?_ ?_, hshelved hget hothers fun q hq => by cases hq; exact hd.within⟩
      · -- the row's own bytes are the ones that moved
        intro b' _ _ hplace
        obtain ⟨q, hq, hb', -⟩ := hplace row hrow
        rw [hp] at hq
        cases hq
        rw [hm.1] at hb'
        exact (Option.some.inj hb').symm
      · rintro b' ⟨row', q, hrow', hq, hqr, -⟩
        rw [hrow] at hrow'
        cases hrow'
        rw [hp] at hq
        cases hq
        exact (hl.movable hin).1 hqr
      · rintro t b' row' q ht hrow' ⟨q', hq', -, hroot⟩ hq rfl
        rw [hq] at hq'
        cases hq'
        rcases hroot with hr | ⟨-, -, halone⟩
        · exact (hl.movable hin).1 hr
        · exact halone sha row (Ne.symm ht) hV hrow hp

/-- The status transaction on a row whose file is out of the way. -/
theorem transition_keeps (env : Env) (V : String → Prop) (T L : Bytes → Prop) {r : Registry}
    {reason actor now : String} (hsh : Shelved cfg w sha)
    (h : w.reg.transitionStatus sha .rejected reason actor now = .ok r) (hfs : w'.fs = w.fs)
    (hreg : w'.reg = r) :
    Keeps env cfg V T L w w' ∧ (∀ j, Shelved cfg w j → Shelved cfg w' j) ∧
      RowRejected w' sha ∧ ∀ j, RowRejected w j → RowRejected w' j := by
  obtain ⟨old, hold, hf⟩ := Registry.files_transitionStatus h
  have hget : w'.reg.files.get sha = some { old with status := .rejected, updatedAt := now } := by
    rw [hreg, hf]; exact Table.get_put_self _ _ _
  have hothers : ∀ j, j ≠ sha → w'.reg.files.get j = w.reg.files.get j := fun j hj => by
    rw [hreg, hf, Table.get_put, if_neg hj]
  have hpairs : pairKeys w'.reg = pairKeys w.reg := by
    rw [hreg]
    simp only [Registry.transitionStatus, hold] at h
    cases h
    rfl
  refine ⟨.row hfs hold hget hothers hpairs (fun q hq => .inl ⟨hq, hsh old q hold hq⟩)
    (fun q hq => hq), fun j hj => ?_, ⟨_, hget, rfl⟩, fun j hj => ?_⟩
  · intro row q hrow hq
    by_cases hjs : j = sha
    · subst hjs
      rw [hget] at hrow
      cases hrow
      exact hsh old q hold hq
    · rw [hothers j hjs] at hrow
      exact hj row q hrow hq
  · by_cases hjs : j = sha
    · subst hjs
      exact ⟨_, hget, rfl⟩
    · obtain ⟨row, hrow, hst⟩ := hj
      exact ⟨row, by rw [hothers j hjs, hrow], hst⟩

/-- `pair_id` is the primary key. -/
def PairIdsDistinct (r : Registry) : Prop := ((pairKeys r).map (·.1)).Nodup

theorem pairKeys_of_find {r : Registry} {p : LivePhotoPairRecord → Bool}
    {pair : LivePhotoPairRecord} (h : r.livePhotoPairs.find? p = some pair) :
    (pair.pairId, pair.photoSha256, pair.videoSha256) ∈ pairKeys r :=
  List.mem_map_of_mem (List.mem_of_find?_eq_some h)

theorem pairKeys_setLivePhotoPairStatus (r : Registry) (id : String) (st : Status) (now : String) :
    pairKeys (r.setLivePhotoPairStatus id st now) = pairKeys r := by
  simp only [pairKeys, Registry.setLivePhotoPairStatus, List.map_map]
  refine List.map_congr_left fun pair _ => ?_
  simp only [Function.comp_apply]
  split <;> rfl

/-- The id of a pair leads back to its members. -/
theorem PairIdsDistinct.members {r : Registry} (h : PairIdsDistinct r)
    {id p v p' v' : String} (hk : (id, p, v) ∈ pairKeys r) (hk' : (id, p', v') ∈ pairKeys r) :
    p = p' ∧ v = v' := by
  have := List.inj_on_of_nodup_map h hk hk' rfl
  simp only [Prod.mk.injEq, true_and] at this
  exact this

theorem wp_applyLivePhotoPairStatus_keeps {id photo video reason actor : String}
    (hids : PairIdsDistinct w.reg) (hkey : (id, photo, video) ∈ pairKeys w.reg)
    (hp : Shelved cfg w photo) (hv : Shelved cfg w video) :
    (applyLivePhotoPairStatus id .rejected reason actor).Wp (handle env) w (onOk fun _ w' =>
      Keeps env cfg V T L w w' ∧ RowRejected w' photo ∧ RowRejected w' video) := by
  unfold applyLivePhotoPairStatus
  refine wp_bind.mpr ?_
  simp only [getLivePhotoPair, wp_op, handle, wp_ret, thenWp_ok]
  cases hpair : w.reg.getLivePhotoPair id with
  | none => exact wp_err.mpr trivial
  | some pair =>
    have hid : pair.pairId = id := by simpa using List.find?_some hpair
    obtain ⟨rfl, rfl⟩ := hids.members hkey (by rw [← hid]; exact pairKeys_of_find hpair)
    refine wp_bind.mpr (wp_transact (fun r now w₁ hr hfs₁ hreg₁ => ?_) fun _ _ _ _ _ _ => trivial)
    obtain ⟨hk₁, hsh₁, hrej₁, -⟩ := transition_keeps env V T L hp hr hfs₁ hreg₁
    refine wp_bind.mpr (wp_transact (fun r now w₂ hr hfs₂ hreg₂ => ?_) fun _ _ _ _ _ _ => trivial)
    obtain ⟨hk₂, -, hrej₂, hrest₂⟩ := transition_keeps env V T L (hsh₁ _ hv) hr hfs₂ hreg₂
    refine wp_transact (fun r now w₃ hr hfs₃ hreg₃ => ?_) fun _ _ _ _ _ _ => trivial
    cases hr
    have hfiles₃ : w₃.reg.files = w₂.reg.files := by rw [hreg₃]; rfl
    have hk₃ : Keeps env cfg V T L w₂ w₃ :=
      .same hfs₃ hfiles₃ (by rw [hreg₃]; exact pairKeys_setLivePhotoPairStatus _ _ _ _)
    refine ⟨(hk₁.trans hk₂).trans hk₃, ?_, ?_⟩
    · obtain ⟨row, hrow, hst⟩ := hrest₂ _ hrej₁
      exact ⟨row, by rw [hfiles₃, hrow], hst⟩
    · obtain ⟨row, hrow, hst⟩ := hrej₂
      exact ⟨row, by rw [hfiles₃, hrow], hst⟩

theorem wp_rejectPair_keeps {reason actor : String} {pair : LivePhotoPairRecord} (hl : Layout cfg)
    (hids : PairIdsDistinct w.reg)
    (hkey : (pair.pairId, pair.photoSha256, pair.videoSha256) ∈ pairKeys w.reg)
    (hmem : ∀ k, PairMember w.reg k → V k ∧ IsSha k)
    (hsha : pair.photoSha256 = sha ∨ pair.videoSha256 = sha) :
    (rejectPair env cfg sha reason actor pair).Wp (handle env) w (onOk fun _ w' =>
      Keeps env cfg V T L w w' ∧ RowRejected w' sha) := by
  obtain ⟨hVp, hsp⟩ := hmem _ ⟨_, hkey, .inl rfl⟩
  obtain ⟨hVv, hsv⟩ := hmem _ ⟨_, hkey, .inr rfl⟩
  unfold rejectPair
  refine wp_bind_onOk (wp_moveToRejectedFolder_keeps (T := T) (L := L) hl hsp hVp) ?_
  rintro _ w₁ ⟨hk₁, hp₁, -⟩
  refine wp_bind_onOk (wp_moveToRejectedFolder_keeps (T := T) (L := L) hl hsv hVv) ?_
  rintro _ w₂ ⟨hk₂, hv₂, hsh₂⟩
  have hpairs : pairKeys w₂.reg = pairKeys w.reg := hk₂.pairs.trans hk₁.pairs
  refine wp_bind_onOk (wp_applyLivePhotoPairStatus_keeps (V := V) (T := T) (L := L)
    (by unfold PairIdsDistinct; rwa [hpairs])
    (by rw [hpairs]; exact hkey) (hsh₂ _ hp₁) hv₂) ?_
  rintro _ w₃ ⟨hk₃, hrp, hrv⟩
  refine wp_ret.mpr ⟨(hk₁.trans hk₂).trans hk₃, ?_⟩
  rcases hsha with rfl | rfl
  · exact hrp
  · exact hrv

theorem wp_rejectKnown_keeps {reason actor : String} {row : FileRecord} (hl : Layout cfg)
    (hs : IsSha sha) (hV : V sha) (hrow : w.reg.files.get sha = some row) :
    (rejectKnown env cfg sha reason actor row).Wp (handle env) w (onOk fun _ w' =>
      Keeps env cfg V T L w w' ∧ RowRejected w' sha) := by
  unfold rejectKnown
  split
  · next hst =>
    refine wp_bind.mpr (wp_transact (fun r now w₁ hr hfs hreg => ?_) (fun _ _ _ h => nomatch h))
    cases hr
    have hfiles : w₁.reg.files = w.reg.files := by rw [hreg]; rfl
    exact wp_ret.mpr ⟨.same hfs hfiles (by rw [hreg]; rfl), row, by rw [hfiles, hrow], hst⟩
  · refine wp_bind_onOk (wp_moveToRejectedFolder_keeps (T := T) (L := L) hl hs hV) ?_
    rintro _ w₁ ⟨hk₁, hsh₁, -⟩
    refine wp_bind.mpr (wp_transactOrReject (fun r now w₂ hr hfs hreg => ?_)
      fun _ _ _ _ _ _ _ => trivial)
    obtain ⟨hk₂, -, hrej, -⟩ := transition_keeps env V T L hsh₁ hr hfs hreg
    exact wp_ret.mpr ⟨hk₁.trans hk₂, hrej⟩

/-- What the loop assumes of the tables before each file. -/
structure Tables (V : String → Prop) (w : World) : Prop where
  ids : PairIdsDistinct w.reg
  members : ∀ k, PairMember w.reg k → V k ∧ IsSha k

theorem Keeps.tables (h : Keeps env cfg V T L w w') (ht : Tables V w) : Tables V w' := by
  refine ⟨?_, fun k hk => ht.members k ?_⟩
  · unfold PairIdsDistinct
    rw [h.pairs]
    exact ht.ids
  · unfold PairMember at hk ⊢
    rwa [h.pairs] at hk

/-- `_apply_reject` of a trash file: either the file itself moves and its row is
created, or the row that is there is rejected. -/
theorem wp_applyReject_keeps {reason actor : String} {name : Option String} {size : Nat}
    {f : Path} {b : Bytes} (hl : Layout cfg) (hs : IsSha (env.sha256 b)) (hV : V (env.sha256 b))
    (ht : Tables V w) (hf : cfg.trashPath <+: f) (hb : w.fs.get f = some b)
    (hone : ∀ b', T b' → env.sha256 b' = env.sha256 b → b' = b) :
    (applyReject env cfg (env.sha256 b) reason actor name size (some f)).Wp (handle env) w
      (onOk fun _ w' => Keeps env cfg V T L w w' ∧ RowRejected w' (env.sha256 b)) := by
  unfold applyReject
  refine wp_bind.mpr (wp_getFile.mpr ?_)
  simp only [thenWp_ok]
  cases hrow : w.reg.files.get (env.sha256 b) with
  | none =>
    refine wp_rejectUnknown hs (fun row w' hno => ?_) ?_ fun _ _ _ => trivial
    · simp [hb] at hno
    · intro s d b' row w' hsrc hfree hd hm hst hpath hfiles hpairs
      cases hsrc
      have hbb : b' = b := Option.some.inj (hm.1.symm.trans hb)
      have hget : w'.reg.files.get (env.sha256 b) = some row := by
        rw [hfiles]; exact Table.get_put_self _ _ _
      have hothers : ∀ j, j ≠ env.sha256 b → w'.reg.files.get j = w.reg.files.get j :=
        fun j hj => by rw [hfiles, Table.get_put, if_neg hj]
      refine ⟨.move hl hm hfree hd.within (fun hr => hl.trash.rejected.disjoint hr hf) hget hpath
        hothers (by unfold pairKeys; rw [hpairs]) ?_ ?_ ?_, row, hget, hst⟩
      · intro b'' hT hsha _
        rw [hbb]
        exact hone b'' hT hsha
      · rintro b'' ⟨row', q, hrow', -⟩
        rw [hrow] at hrow'
        cases hrow'
      · rintro t b'' row' q _ _ hin hq rfl
        exact hin.not_trash hl hq hf
  | some row =>
    refine wp_bind.mpr ?_
    simp only [getLivePhotoPairForMember, wp_op, handle, wp_ret, thenWp_ok]
    cases hpair : w.reg.getLivePhotoPairForMember (env.sha256 b) with
    | none => exact wp_rejectKnown_keeps hl hs hV hrow
    | some pair =>
      simp only
      split
      · have hmem : pair.photoSha256 = env.sha256 b ∨ pair.videoSha256 = env.sha256 b := by
          simpa using List.find?_some hpair
        exact wp_rejectPair_keeps hl ht.ids (pairKeys_of_find hpair) ht.members hmem
      · exact wp_rejectKnown_keeps hl hs hV hrow

/-- What is known of the bytes of a trash file. -/
structure Offered (env : Env) (V : String → Prop) (T L : Bytes → Prop) (b : Bytes) : Prop where
  touched : V (env.sha256 b)
  tracked : L b → T b
  one : ∀ b', T b' → env.sha256 b' = env.sha256 b → b' = b

/-- Every tracked row is in place. -/
def AllInPlace (env : Env) (cfg : CoreConfig) (V : String → Prop) (T : Bytes → Prop) (w : World) :
    Prop :=
  ∀ b, T b → ∀ row, w.reg.files.get (env.sha256 b) = some row →
    InPlace cfg V w (env.sha256 b) b row

/-- One file of the loop: its bytes are retained before it is unlinked. -/
theorem wp_trashOne_keeps {f : Path} (hsha : ∀ b, IsSha (env.sha256 b)) (hl : Layout cfg)
    (ht : Tables V w) (hplace : AllInPlace env cfg V T w) (hf : cfg.trashPath <+: f)
    (hoff : ∀ b, w.fs.get f = some b → Offered env V T L b) :
    (trashOne env cfg f).Wp (handle env) w (onOk fun _ w' => Keeps env cfg V T L w w' ∧
      ∃ b, w.fs.get f = some b ∧ (L b → Retained cfg w' (env.sha256 b) b)) := by
  unfold trashOne
  cases hb : w.fs.get f with
  | none => exact wp_bind.mpr ((wp_sha256File_none hb).mpr trivial)
  | some b =>
    have ho := hoff b hb
    refine wp_bind.mpr ((wp_sha256File hb).mpr (wp_bind.mpr ((wp_statSize hb).mpr ?_)))
    refine wp_bind_onOk (wp_applyReject_keeps (T := T) (L := L) hl (hsha b) ho.touched ht hf hb
      ho.one) ?_
    rintro r w₁ ⟨hk₁, hrej⟩
    have hret : L b → Retained cfg w₁ (env.sha256 b) b := fun hL =>
      retained_of_rejected hrej (hk₁.place b (ho.tracked hL) (hplace b (ho.tracked hL)))
    refine wp_bind.mpr (wp_unlink fun w₂ hfs hreg => wp_ret.mpr ?_)
    have hk₂ : Keeps env cfg V T L w₁ w₂ := by
      refine .unlink hl hf hfs hreg fun b' hb' hL => ?_
      obtain rfl : b' = b := Option.some.inj ((hk₁.trash f b' hf hb').symm.trans hb)
      exact hret hL
    exact ⟨hk₁.trans hk₂, b, rfl, fun hL => hk₂.kept b (hret hL)⟩

/-- The loop, by induction on the files left: every file it went through was
there, and its bytes are retained at the end. -/
theorem wp_trashLoop_keeps (hsha : ∀ b, IsSha (env.sha256 b)) (hl : Layout cfg) :
    ∀ (files : List Path) (acc : TrashProcessResult) (w : World), Tables V w →
      AllInPlace env cfg V T w →
      (∀ f ∈ files, cfg.trashPath <+: f ∧ ∀ b, w.fs.get f = some b → Offered env V T L b) →
      (trashLoop env cfg files acc).Wp (handle env) w (onOk fun _ w' =>
        Keeps env cfg V T L w w' ∧
        ∀ f ∈ files, ∃ b, w.fs.get f = some b ∧ (L b → Retained cfg w' (env.sha256 b) b))
  | [], _, w, _, _, _ => wp_ret.mpr ⟨.still (.refl w), by simp⟩
  | f :: files, acc, w, ht, hplace, hfiles => by
    unfold trashLoop
    obtain ⟨hf, hoff⟩ := hfiles f List.mem_cons_self
    refine wp_bind_onOk (wp_trashOne_keeps hsha hl ht hplace hf hoff) ?_
    rintro r w₁ ⟨hk₁, b, hb, hret⟩
    have hrest : ∀ g ∈ files, cfg.trashPath <+: g ∧
        ∀ b, w₁.fs.get g = some b → Offered env V T L b := fun g hg => by
      obtain ⟨hg', hoff'⟩ := hfiles g (List.mem_cons_of_mem _ hg)
      exact ⟨hg', fun b' hb' => hoff' b' (hk₁.trash g b' hg' hb')⟩
    refine wp_mono ?_ (wp_trashLoop_keeps hsha hl files (acc.add f r) w₁ (hk₁.tables ht)
      (fun b' hT => hk₁.place b' hT (hplace b' hT)) hrest)
    rintro (e | r') w₂ h₂
    · trivial
    · obtain ⟨hk₂, hall⟩ := h₂
      refine ⟨hk₁.trans hk₂, List.forall_mem_cons.mpr ⟨⟨b, hb, fun hL => hk₂.kept b (hret hL)⟩, ?_⟩⟩
      intro g hg
      obtain ⟨b', hb', hret'⟩ := hall g hg
      exact ⟨b', hk₁.trash g b' (hrest g hg).1 hb', hret'⟩

end Steps

/-! ## Every run -/

/-- The rows `process_trash` may touch: those of the trash and all members of
pairs. -/
def Touches (env : Env) (cfg : CoreConfig) (w : World) (sha : String) : Prop :=
  PairMember w.reg sha ∨ ∃ f b, Trashed cfg w f b ∧ env.sha256 b = sha

/-- Every trash file is new, purged, or still in place in its queue: its row's
path holds the same bytes. -/
structure Covered (env : Env) (cfg : CoreConfig) (w : World) : Prop where
  ids : PairIdsDistinct w.reg
  members : ∀ k, PairMember w.reg k → IsSha k
  one : ∀ f b g b', Trashed cfg w f b → Trashed cfg w g b' → env.sha256 b = env.sha256 b' → b = b'
  place : ∀ f b row, Trashed cfg w f b → w.reg.files.get (env.sha256 b) = some row →
    row.status ≠ .purged → InPlace cfg (Touches env cfg w) w (env.sha256 b) b row

/-- When `process_trash` returns, the bytes of every trash file are below the
rejected root at the path of their row, and no content has left the disk;
purged ones apart. -/
def TrashRetains (env : Env) (cfg : CoreConfig) (w : World) : Prop :=
  ∀ r w', (processTrash env cfg).run (handle env) w = (.ok r, w') →
    (∀ f b, Trashed cfg w f b → NotPurged w (env.sha256 b) → Retained cfg w' (env.sha256 b) b) ∧
    ∀ b, NotPurged w (env.sha256 b) → OnDisk w b → OnDisk w' b

theorem covered_retains {env : Env} {cfg : CoreConfig} {w : World}
    (hsha : ∀ b, IsSha (env.sha256 b)) (hl : Layout cfg) (h : Covered env cfg w) :
    TrashRetains env cfg w := by
  have hwp : (processTrash env cfg).Wp (handle env) w (onOk fun _ w' =>
      Keeps env cfg (Touches env cfg w)
        (fun b => (∃ f, Trashed cfg w f b) ∧ NotPurged w (env.sha256 b))
        (fun b => NotPurged w (env.sha256 b)) w w' ∧
      ∀ f ∈ filesBelow w.fs cfg.trashPath, ∃ b, w.fs.get f = some b ∧
        (NotPurged w (env.sha256 b) → Retained cfg w' (env.sha256 b) b)) := by
    unfold processTrash
    refine wp_bind.mpr (wp_op.mpr (wp_ret.mpr ?_))
    refine wp_bind_onOk (wp_trashLoop_keeps hsha hl (filesBelow w.fs cfg.trashPath) ⟨0, 0, 0, 0, []⟩
      w ⟨h.ids, fun k hk => ⟨.inl hk, h.members k hk⟩⟩ ?_ ?_) fun _ _ hr => wp_ret.mpr hr
    · rintro b ⟨⟨f, hf⟩, hlive⟩ row hrow
      exact h.place f b row hf hrow (hlive row hrow)
    · intro f hf
      refine ⟨(mem_filesBelow.mp hf).2.1, fun b hb => ?_⟩
      refine ⟨.inr ⟨f, b, ⟨hf, hb⟩, rfl⟩, fun hL => ⟨⟨f, hf, hb⟩, hL⟩, ?_⟩
      rintro b' ⟨⟨g, hg⟩, -⟩ heq
      exact h.one g b' f b hg ⟨hf, hb⟩ heq
  intro r w' hrun
  have hend := wp_iff.mp hwp
  rw [hrun] at hend
  obtain ⟨hk, hall⟩ := hend
  refine ⟨fun f b hf hlive => ?_, fun b hlive => hk.disk b hlive⟩
  obtain ⟨b', hb', hret⟩ := hall f hf.1
  obtain rfl : b' = b := Option.some.inj (hb'.symm.trans hf.2)
  exact hret hlive

/-- `P` holds of every state in which the run starts a `process_trash`. -/
def EachTrash (env : Env) (cfg : CoreConfig) (P : World → Prop) : List Action → World → Prop
  | [], _ => True
  | a :: as, w => (a = .command .processTrash → P w) ∧ EachTrash env cfg P as (a.after env cfg w)

/-- In every run whose `process_trash` commands all meet a covered trash, each
of them retains the bytes. -/
theorem trash_retained (env : Env) (cfg : CoreConfig) (hsha : ∀ b, IsSha (env.sha256 b))
    (hl : Layout cfg) (as : List Action) (w : World)
    (hrun : EachTrash env cfg (Covered env cfg) as w) :
    EachTrash env cfg (TrashRetains env cfg) as w := by
  induction as generalizing w with
  | nil => trivial
  | cons a as ih =>
    exact ⟨fun ha => covered_retains hsha hl (hrun.1 ha), ih _ hrun.2⟩

/-! ## One retained and one lost photo -/

theorem sample_layout : Layout sampleConfig :=
  ⟨sample_apart.2, by constructor <;> decide +kernel, by constructor <;> decide +kernel⟩

def pendingPhoto : Path := ["lib", "pending", "2024", "01", "IMG.JPG"]

/-- A pending photo whose copy was dropped into the trash. -/
def copiedWorld : World :=
  sampleWorld [(pendingPhoto, [97]), (["lib", "trash", "copy"], [97])]
    { Registry.empty with files := Table.put ∅ shaA (sampleRow .pending (some pendingPhoto)) }

theorem copiedWorld_trashed {f : Path} {b : Bytes} (h : Trashed sampleConfig copiedWorld f b) :
    b = [97] := by
  have hfiles : filesBelow copiedWorld.fs sampleConfig.trashPath = [["lib", "trash", "copy"]] := by
    decide +kernel
  obtain ⟨hf, hb⟩ := h
  rw [hfiles, List.mem_singleton] at hf
  subst hf
  have hcopy : copiedWorld.fs.get ["lib", "trash", "copy"] = some [97] := by decide +kernel
  exact Option.some.inj (hb.symm.trans hcopy)

theorem copiedWorld_covered : Covered sampleEnv sampleConfig copiedWorld where
  ids := List.nodup_nil
  members k hk := by obtain ⟨_, hkey, -⟩ := hk; cases hkey
  one f b g b' hf hg _ := (copiedWorld_trashed hf).trans (copiedWorld_trashed hg).symm
  place f b row hf hrow _ := by
    obtain rfl := copiedWorld_trashed hf
    have hsha : sampleEnv.sha256 [97] = shaA := by decide +kernel
    rw [hsha] at hrow ⊢
    cases hrow
    refine ⟨pendingPhoto, rfl, by decide +kernel, .inr ⟨by decide, by decide +kernel, ?_⟩⟩
    intro k row' hk _ hrow'
    have hfiles : copiedWorld.reg.files.get k = none := by
      change (Table.put ∅ shaA _).get k = none
      rw [Table.get_put, if_neg hk]
      rfl
    rw [hfiles] at hrow'
    cases hrow'

theorem trash_retained_copy :
    EachTrash sampleEnv sampleConfig (TrashRetains sampleEnv sampleConfig)
      [.command .processTrash] copiedWorld :=
  trash_retained sampleEnv sampleConfig sampleEnv_isSha sample_layout _ copiedWorld
    ⟨fun _ => copiedWorld_covered, trivial⟩

/-- A photo is ingested, the operator moves it from the pending root into the
trash, and the trash is processed. -/
def movedToTrash : List Action :=
  [.outside (Table.put ∅ ["staging", "x"] [97]) [],
    .command (.processBatch ⟨none⟩ sampleBatch [sampleCandidate "id1" ["staging", "x"]]),
    .outside (Table.put ∅ ["lib", "trash", "IMG.JPG"] [97]) [],
    .command .processTrash]

/-- The world that `process_trash` meets there. -/
def displacedWorld : World :=
  after sampleEnv sampleConfig (movedToTrash.take 3) (sampleWorld [] Registry.empty)

theorem displaced_not_retained : ¬ TrashRetains sampleEnv sampleConfig displacedWorld := by
  intro h
  obtain ⟨hok, hst, hfile, hempty⟩ :
      ((processTrash sampleEnv sampleConfig).run (handle sampleEnv) displacedWorld).1 =
        .ok ⟨1, 1, 0, 0, [["lib", "trash", "IMG.JPG"]]⟩ ∧
      (displacedWorld.reg.files.get (sampleEnv.sha256 [97])).map (·.status) = some .pending ∧
      displacedWorld.fs.get ["lib", "trash", "IMG.JPG"] = some [97] ∧
      ((processTrash sampleEnv sampleConfig).run (handle sampleEnv)
        displacedWorld).2.fs.keys = [] := by decide +kernel
  have hlive : NotPurged displacedWorld (sampleEnv.sha256 [97]) := by
    intro row hrow hpurged
    rw [hrow, Option.map_some, hpurged] at hst
    cases hst
  obtain ⟨q, hq⟩ := (h _ _ (run_of_result hok)).2 [97] hlive
    ⟨["lib", "trash", "IMG.JPG"], hfile⟩
  have hmem := (Table.mem_keys_iff _ q).mpr ⟨_, hq⟩
  rw [hempty] at hmem
  cases hmem

/-- The row loses its path and the only copy is unlinked. -/
theorem trash_loses_moved :
    ¬ EachTrash sampleEnv sampleConfig (TrashRetains sampleEnv sampleConfig) movedToTrash
      (sampleWorld [] Registry.empty) := by
  rintro ⟨-, -, -, h, -⟩
  exact displaced_not_retained (h rfl)

end Nightfall
