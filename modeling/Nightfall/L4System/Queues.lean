import Nightfall.L3Flows.Transactions
import Nightfall.L4System.Retention

/-!
# The files of the queue roots

Rows and files of the three queue roots, one to one: a row with a path holds its
content there, a file below a root is named by the row of its content, and a
rejected row's file is below the rejected root. A file and its row change in
separate steps, so this holds between commands.

* `Filed.update`, `Filed.frame`, `Filed.restatus`: how a command changes them.
* `ids_run`: no flow ever gives two pairs one id.
* `wp_*_filed`: reject, trash and purge keep `Filed`, with pairs as without.
-/
namespace Nightfall
open Nightfall.Core Storage Prog

/-- The path lies below one of the queue roots. -/
def InQueue (cfg : CoreConfig) (p : Path) : Prop :=
  Under cfg.pendingPath p ∨ Under cfg.acceptedPath p ∨ Under cfg.rejectedPath p

/-- The path of the row, if there is a row and it has one. -/
def pathOf (w : World) (sha : String) : Option Path :=
  (w.reg.files.get sha).bind (·.currentPath)

structure Filed (env : Env) (cfg : CoreConfig) (w : World) : Prop where
  placed : ∀ sha p, pathOf w sha = some p →
    InQueue cfg p ∧ ∃ b, w.fs.get p = some b ∧ env.sha256 b = sha
  tracked : ∀ p b, InQueue cfg p → w.fs.get p = some b → pathOf w (env.sha256 b) = some p
  shelved : ∀ sha, w.reg.statusOf sha = some .rejected → Shelved cfg w sha
  hashed : ∀ sha row, w.reg.files.get sha = some row → IsSha sha

variable {env : Env} {cfg : CoreConfig} {w w' : World} {sha : String}

theorem pathOf_of_row {row : FileRecord} (h : w.reg.files.get sha = some row) :
    pathOf w sha = row.currentPath := by
  simp [pathOf, h]

theorem statusOf_of_row {row : FileRecord} (h : w.reg.files.get sha = some row) :
    w.reg.statusOf sha = some row.status := by
  simp [Registry.statusOf, h]

theorem shelved_iff : Shelved cfg w sha ↔ ∀ p, pathOf w sha = some p → cfg.rejectedPath <+: p := by
  unfold Shelved pathOf
  cases w.reg.files.get sha with
  | none => simp
  | some row =>
    refine ⟨fun h p hp => h row p rfl hp, fun h row' q hrow hq => ?_⟩
    cases hrow
    exact h q hq

theorem shelved_of_files (hfiles : w'.reg.files.get sha = w.reg.files.get sha)
    (h : Shelved cfg w sha) : Shelved cfg w' sha := by
  unfold Shelved
  rw [hfiles]
  exact h

/-- A path below an unrelated root is in no queue. -/
theorem Apart.not_inQueue {root p : Path} (h : Apart cfg root) (hp : root <+: p) :
    ¬ InQueue cfg p := by
  rintro (hq | hq | hq)
  · exact h.pending.disjoint hq.within hp
  · exact h.accepted.disjoint hq.within hp
  · exact h.rejected.disjoint hq.within hp

/-! ## How the files and rows change -/

/-- The rows stay, and so do the files of the queues. -/
theorem Filed.frame (h : Filed env cfg w) (hfiles : w'.reg.files = w.reg.files)
    (hkeep : ∀ p, InQueue cfg p → w'.fs.get p = w.fs.get p) : Filed env cfg w' := by
  have hpath : ∀ k, pathOf w' k = pathOf w k := fun k => by simp only [pathOf, hfiles]
  refine ⟨fun k p hp => ?_, fun p b hq hb => ?_, fun k hk => ?_, fun k row hrow => ?_⟩
  · rw [hpath] at hp
    obtain ⟨hq, b, hb, hsha⟩ := h.placed k p hp
    exact ⟨hq, b, by rw [hkeep p hq, hb], hsha⟩
  · rw [hkeep p hq] at hb
    rw [hpath]
    exact h.tracked p b hq hb
  · rw [Registry.statusOf_of_files hfiles] at hk
    exact shelved_of_files (by rw [hfiles]) (h.shelved k hk)
  · rw [hfiles] at hrow
    exact h.hashed k row hrow

theorem Filed.still (h : Filed env cfg w) (hw : Still w w') : Filed env cfg w' :=
  h.frame (by rw [hw.reg]) fun _ _ => by rw [hw.fs]

/-- A file in no queue is dropped. -/
theorem Filed.drop (h : Filed env cfg w) {q : Path} (hq : ¬ InQueue cfg q)
    (hfs : w'.fs = w.fs.drop q) (hfiles : w'.reg.files = w.reg.files) : Filed env cfg w' := by
  refine h.frame hfiles fun p hp => ?_
  have hne : p ≠ q := by rintro rfl; exact hq hp
  rw [hfs, Table.get_drop, if_neg hne]

/-- Row `k` is written. Its new path, if it has one, was free or its own and
holds its content; its old one is the new one or is empty now; the other files
of the queues stay. -/
theorem Filed.update (h : Filed env cfg w) {k : String} {row : FileRecord} (hk : IsSha k)
    (hget : w'.reg.files.get k = some row)
    (hothers : ∀ j, j ≠ k → w'.reg.files.get j = w.reg.files.get j)
    (hnew : ∀ d, row.currentPath = some d → InQueue cfg d ∧
      (w.fs.get d = none ∨ pathOf w k = some d) ∧ ∃ b, w'.fs.get d = some b ∧ env.sha256 b = k)
    (hold : ∀ p, pathOf w k = some p → row.currentPath = some p ∨ w'.fs.get p = none)
    (hkeep : ∀ q, InQueue cfg q → row.currentPath ≠ some q → pathOf w k ≠ some q →
      w'.fs.get q = w.fs.get q)
    (hshelf : row.status = .rejected → ∀ d, row.currentPath = some d → cfg.rejectedPath <+: d) :
    Filed env cfg w' := by
  have hown : pathOf w' k = row.currentPath := pathOf_of_row hget
  have hrest : ∀ j, j ≠ k → pathOf w' j = pathOf w j := fun j hj => by
    simp only [pathOf, hothers j hj]
  -- the file of another row is neither the old nor the new file of `k`
  have hapart : ∀ j p, j ≠ k → pathOf w j = some p →
      row.currentPath ≠ some p ∧ pathOf w k ≠ some p := by
    intro j p hj hp
    obtain ⟨-, b, hb, hsha⟩ := h.placed j p hp
    have hkp : pathOf w k ≠ some p := by
      intro hkp
      obtain ⟨-, b', hb', hsha'⟩ := h.placed k p hkp
      rw [hb] at hb'
      cases hb'
      exact hj (hsha.symm.trans hsha')
    refine ⟨fun hd => ?_, hkp⟩
    rcases (hnew p hd).2.1 with hfree | hself
    · rw [hfree] at hb
      cases hb
    · exact hkp hself
  refine ⟨fun j p hp => ?_, fun p b hq hb => ?_, fun j hj => ?_, fun j row' hrow => ?_⟩
  · by_cases hjk : j = k
    · subst hjk
      rw [hown] at hp
      exact ⟨(hnew p hp).1, (hnew p hp).2.2⟩
    · rw [hrest j hjk] at hp
      obtain ⟨hq, b, hb, hsha⟩ := h.placed j p hp
      obtain ⟨hne, hne'⟩ := hapart j p hjk hp
      exact ⟨hq, b, by rw [hkeep p hq hne hne', hb], hsha⟩
  · by_cases hd : row.currentPath = some p
    · obtain ⟨b', hb', hsha⟩ := (hnew p hd).2.2
      rw [hb] at hb'
      cases hb'
      rw [hsha, hown, hd]
    · by_cases hp : pathOf w k = some p
      · rcases hold p hp with hd' | hgone
        · exact absurd hd' hd
        · rw [hgone] at hb
          cases hb
      · rw [hkeep p hq hd hp] at hb
        have htr := h.tracked p b hq hb
        have hne : env.sha256 b ≠ k := by
          rintro rfl
          exact hp htr
        rw [hrest _ hne, htr]
  · by_cases hjk : j = k
    · subst hjk
      rw [statusOf_of_row hget] at hj
      refine shelved_iff.mpr fun d hd => ?_
      rw [hown] at hd
      exact hshelf (Option.some.inj hj) d hd
    · have hst : w.reg.statusOf j = some .rejected := by
        rw [← hj, Registry.statusOf, Registry.statusOf, hothers j hjk]
      exact shelved_of_files (hothers j hjk) (h.shelved j hst)
  · by_cases hjk : j = k
    · subst hjk
      exact hk
    · rw [hothers j hjk] at hrow
      exact h.hashed j row' hrow

theorem Filed.put (h : Filed env cfg w) {k : String} {row : FileRecord} (hk : IsSha k)
    (hfiles : w'.reg.files = w.reg.files.put k row)
    (hnew : ∀ d, row.currentPath = some d → InQueue cfg d ∧
      (w.fs.get d = none ∨ pathOf w k = some d) ∧ ∃ b, w'.fs.get d = some b ∧ env.sha256 b = k)
    (hold : ∀ p, pathOf w k = some p → row.currentPath = some p ∨ w'.fs.get p = none)
    (hkeep : ∀ q, InQueue cfg q → row.currentPath ≠ some q → pathOf w k ≠ some q →
      w'.fs.get q = w.fs.get q)
    (hshelf : row.status = .rejected → ∀ d, row.currentPath = some d → cfg.rejectedPath <+: d) :
    Filed env cfg w' :=
  h.update hk (by rw [hfiles]; exact Table.get_put_self _ _ _)
    (fun j hj => by rw [hfiles, Table.get_put, if_neg hj]) hnew hold hkeep hshelf

/-- A status is written; the files and the path stay. -/
theorem Filed.restatus (h : Filed env cfg w) {k : String} {old new : FileRecord}
    (hrow : w.reg.files.get k = some old) (hfiles : w'.reg.files = w.reg.files.put k new)
    (hpath : new.currentPath = old.currentPath) (hfs : w'.fs = w.fs)
    (hshelf : new.status = .rejected → Shelved cfg w k) : Filed env cfg w' := by
  have hnew : pathOf w k = new.currentPath := by rw [pathOf_of_row hrow, hpath]
  refine h.put (h.hashed k old hrow) hfiles (fun d hd => ?_) (fun p hp => .inl (hnew ▸ hp))
    (fun q _ _ _ => by rw [hfs]) fun hst d hd => shelved_iff.mp (hshelf hst) d (hnew.trans hd)
  obtain ⟨hq, hb⟩ := h.placed k d (hnew.trans hd)
  exact ⟨hq, .inr (hnew.trans hd), by rwa [hfs]⟩

/-- A file has gone from `src` to the free path `d`, as far as any path shows. -/
def Relocated (src d : Path) (b : Bytes) (w w' : World) : Prop :=
  w.fs.get src = some b ∧
    ∀ q, w'.fs.get q = if q = d then some b else if q = src then none else w.fs.get q

theorem Moved.relocated {src d : Path} {b : Bytes} (h : Moved src d b w w') :
    Relocated src d b w w' :=
  ⟨h.1, fun q => by rw [h.2, Table.get_put, Table.get_drop]⟩

/-- The content of row `k` moves to the free path `d` of a queue, from the row's
own path or, for a row without one, from outside the queues. -/
theorem Filed.relocate (h : Filed env cfg w) {k : String} {row : FileRecord} {src d : Path}
    {b : Bytes} (hm : Relocated src d b w w') (hfree : w.fs.get d = none) (hd : InQueue cfg d)
    (hb : env.sha256 b = k) (hk : IsSha k)
    (hsrc : pathOf w k = some src ∨ pathOf w k = none ∧ ¬ InQueue cfg src)
    (hget : w'.reg.files.get k = some row)
    (hothers : ∀ j, j ≠ k → w'.reg.files.get j = w.reg.files.get j)
    (hpath : row.currentPath = some d)
    (hshelf : row.status = .rejected → cfg.rejectedPath <+: d) : Filed env cfg w' := by
  refine h.update hk hget hothers ?_ ?_ ?_ ?_
  · intro d' hd'
    rw [hpath] at hd'
    cases hd'
    exact ⟨hd, .inl hfree, b, by rw [hm.2, if_pos rfl], hb⟩
  · intro p hp
    rcases hsrc with hsrc | ⟨hnull, -⟩
    · rw [hsrc] at hp
      cases hp
      have hne : src ≠ d := by
        rintro rfl
        rw [hm.1] at hfree
        cases hfree
      exact .inr (by rw [hm.2, if_neg hne, if_pos rfl])
    · rw [hnull] at hp
      cases hp
  · intro q hq hqd hqk
    have hne : q ≠ d := by
      rintro rfl
      exact hqd hpath
    have hne' : q ≠ src := by
      rintro rfl
      rcases hsrc with hsrc | ⟨-, hout⟩
      · exact hqk hsrc
      · exact hout hq
    rw [hm.2, if_neg hne, if_neg hne']
  · intro hst d' hd'
    rw [hpath] at hd'
    cases hd'
    exact hshelf hst

/-! ## Pair ids -/

/-- The upsert replaces the row with its id or adds a new id. -/
theorem ids_upsertLivePhotoPair {r r' : Registry} {id account stem p v now : String}
    {st : PairStatus} (h : r.upsertLivePhotoPair id account stem p v st now = .ok r')
    (hids : PairIdsDistinct r) : PairIdsDistinct r' := by
  simp only [PairIdsDistinct, pairKeys, List.map_map] at hids ⊢
  unfold Registry.upsertLivePhotoPair at h
  simp only at h
  split at h
  · cases h
    dsimp only
    split
    · -- each row keeps its id
      have hsame : r.livePhotoPairs.map ((·.1) ∘ (fun pair : LivePhotoPairRecord =>
            (pair.pairId, pair.photoSha256, pair.videoSha256)) ∘ fun row =>
            if row.pairId = id then
              (⟨id, account, stem, p, v, st, row.createdAt, now⟩ : LivePhotoPairRecord)
            else row) =
          r.livePhotoPairs.map ((·.1) ∘ fun pair : LivePhotoPairRecord =>
            (pair.pairId, pair.photoSha256, pair.videoSha256)) := by
        refine List.map_congr_left fun row _ => ?_
        simp only [Function.comp_apply]
        split
        · next hid => exact hid.symm
        · rfl
      rw [List.map_map, Function.comp_assoc, hsame]
      exact hids
    · next hnew =>
      rw [List.map_append, List.nodup_append]
      refine ⟨hids, by simp, fun a ha b hb => ?_⟩
      simp only [List.map_cons, List.map_nil, List.mem_singleton, Function.comp_apply] at hb
      subst hb
      rintro rfl
      obtain ⟨row, hrow, hid⟩ := List.mem_map.mp ha
      exact hnew (List.any_eq_true.mpr ⟨row, hrow, by simpa using hid⟩)
  · cases h

theorem ids_apply {t : Tx} {r r' : Registry} {now : String} (h : t.apply r now = .ok r')
    (hids : PairIdsDistinct r) : PairIdsDistinct r' := by
  cases ht : t.writesPairs with
  | false =>
    unfold PairIdsDistinct pairKeys
    rw [livePhotoPairs_apply h ht]
    exact hids
  | true =>
    cases t with
    | upsertLivePhotoPair => exact ids_upsertLivePhotoPair h hids
    | setLivePhotoPairStatus id st =>
      cases h
      unfold PairIdsDistinct
      rw [pairKeys_setLivePhotoPairStatus]
      exact hids
    | _ => cases ht

theorem ids_handle (o : Op) (hids : PairIdsDistinct w.reg) :
    PairIdsDistinct (handle env o w).2.reg := by
  cases o with
  | tx t =>
    simp only [handle]
    split
    · next r hr => exact ids_apply hr hids
    · exact hids
  | _ => rw [handle_reg rfl]; exact hids

/-- `pair_id` stays a key through every flow. -/
theorem ids_run {α : Type} (p : Flow α) (hids : PairIdsDistinct w.reg) :
    p.Wp (handle env) w fun _ w' => PairIdsDistinct w'.reg :=
  wp_iff.mpr (run_inv (C := fun _ _ => True) (I := fun u : World => PairIdsDistinct u.reg)
    (fun o _ _ hs => ids_handle o hs) (fun _ _ => trivial) hids)

/-! ## Reject -/

theorem wp_moveToRejectedFolder_filed (h : Filed env cfg w) :
    (moveToRejectedFolder env cfg sha).Wp (handle env) w fun r w' =>
      Filed env cfg w' ∧ w'.reg.livePhotoPairs = w.reg.livePhotoPairs ∧
        (∀ j, Shelved cfg w j → Shelved cfg w' j) ∧ onOk (fun _ t => Shelved cfg t sha) r w' := by
  cases hrow : w.reg.files.get sha with
  | none =>
    unfold moveToRejectedFolder
    refine wp_bind.mpr (wp_getFile.mpr ?_)
    simp only [thenWp_ok, hrow]
    refine wp_ret.mpr ⟨h, rfl, fun _ hj => hj, shelved_iff.mpr fun p hp => ?_⟩
    simp [pathOf, hrow] at hp
  | some row =>
    have hown := pathOf_of_row hrow
    refine wp_moveToRejectedFolder (h.hashed sha row hrow) hrow ?_ ?_ ?_ ?_
    · intro hnull
      refine ⟨h, rfl, fun _ hj => hj, shelved_iff.mpr fun p hp => ?_⟩
      rw [hown, hnull] at hp
      cases hp
    · -- the file of a row is there
      intro p w' now hp hgone
      obtain ⟨-, b, hb, -⟩ := h.placed sha p (hown.trans hp)
      rw [hgone] at hb
      cases hb
    · intro p d b w' now hp _ hfree hd hm hreg
      have hget : w'.reg.files.get sha =
          some { row with currentPath := some d, updatedAt := now } := by
        rw [hreg, Registry.files_updateCurrentPath, Table.get_modify, if_pos rfl, hrow]; rfl
      have hothers : ∀ j, j ≠ sha → w'.reg.files.get j = w.reg.files.get j := fun j hj => by
        rw [hreg, Registry.files_updateCurrentPath, Table.get_modify, if_neg hj]
      have hshelf : Shelved cfg w' sha := shelved_iff.mpr fun q hq => by
        rw [pathOf_of_row hget] at hq
        cases hq
        exact hd.within
      obtain ⟨-, b', hb', hsha⟩ := h.placed sha p (hown.trans hp)
      obtain rfl : b' = b := Option.some.inj (hb'.symm.trans hm.1)
      refine ⟨h.relocate hm.relocated hfree (.inr (.inr hd)) hsha (h.hashed sha row hrow)
        (.inl (hown.trans hp)) hget hothers rfl fun _ => hd.within, by rw [hreg]; rfl,
        fun j hj => ?_, hshelf⟩
      by_cases hjs : j = sha
      · rw [hjs]; exact hshelf
      · exact shelved_of_files (hothers j hjs) hj
    · intro e w' hw
      exact ⟨h.still hw, by rw [hw.reg], fun j hj => shelved_of_files (by rw [hw.reg]) hj, trivial⟩

/-- The status transaction of a reject, on a row whose file is out of the way. -/
theorem Filed.transition (h : Filed env cfg w) {r : Registry} {reason actor now : String}
    (hshelf : Shelved cfg w sha)
    (hr : w.reg.transitionStatus sha .rejected reason actor now = .ok r) (hfs : w'.fs = w.fs)
    (hreg : w'.reg = r) : Filed env cfg w' ∧ ∀ j, Shelved cfg w j → Shelved cfg w' j := by
  obtain ⟨old, hold, hf⟩ := Registry.files_transitionStatus hr
  have hfiles : w'.reg.files =
      w.reg.files.put sha { old with status := .rejected, updatedAt := now } := by rw [hreg, hf]
  refine ⟨h.restatus hold hfiles rfl hfs fun _ => hshelf, fun j hj => ?_⟩
  have hpath : pathOf w' j = pathOf w j := by
    simp only [pathOf, hfiles, Table.get_put]
    split
    · next hjs => rw [hjs, hold]; rfl
    · rfl
  exact shelved_iff.mpr fun p hp => shelved_iff.mp hj p (hpath.symm.trans hp)

/-- Both members are shelved, so both statuses may be written. -/
theorem wp_applyLivePhotoPairStatus_filed {id photo video reason actor : String}
    (h : Filed env cfg w) (hids : PairIdsDistinct w.reg)
    (hkey : (id, photo, video) ∈ pairKeys w.reg) (hp : Shelved cfg w photo)
    (hv : Shelved cfg w video) :
    (applyLivePhotoPairStatus id .rejected reason actor).Wp (handle env) w
      fun _ w' => Filed env cfg w' := by
  unfold applyLivePhotoPairStatus
  refine wp_bind.mpr ?_
  simp only [getLivePhotoPair, wp_op, handle, wp_ret, thenWp_ok]
  cases hpair : w.reg.getLivePhotoPair id with
  | none => exact wp_err.mpr h
  | some pair =>
    have hid : pair.pairId = id := by simpa using List.find?_some hpair
    obtain ⟨rfl, rfl⟩ := hids.members hkey (by rw [← hid]; exact pairKeys_of_find hpair)
    have hfail : ∀ {u u' : World}, Filed env cfg u → u'.fs = u.fs → u'.reg = u.reg →
        Filed env cfg u' := fun hu hfs hreg => hu.still ⟨hfs, hreg⟩
    refine wp_bind.mpr (wp_transact (fun r now w₁ hr hfs₁ hreg₁ => ?_)
      fun _ _ _ _ hfs hreg => hfail h hfs hreg)
    obtain ⟨h₁, hsh₁⟩ := h.transition hp hr hfs₁ hreg₁
    refine wp_bind.mpr (wp_transact (fun r now w₂ hr hfs₂ hreg₂ => ?_)
      fun _ _ _ _ hfs hreg => hfail h₁ hfs hreg)
    obtain ⟨h₂, -⟩ := h₁.transition (hsh₁ _ hv) hr hfs₂ hreg₂
    refine wp_transact (fun r now w₃ hr hfs₃ hreg₃ => ?_)
      fun _ _ _ _ hfs hreg => hfail h₂ hfs hreg
    cases hr
    exact h₂.frame (by rw [hreg₃]; rfl) fun _ _ => by rw [hfs₃]

theorem wp_rejectPair_filed {reason actor : String} {pair : LivePhotoPairRecord}
    (h : Filed env cfg w) (hids : PairIdsDistinct w.reg)
    (hkey : (pair.pairId, pair.photoSha256, pair.videoSha256) ∈ pairKeys w.reg) :
    (rejectPair env cfg sha reason actor pair).Wp (handle env) w fun _ w' => Filed env cfg w' := by
  unfold rejectPair
  refine wp_bind.mpr (wp_mono ?_ (wp_moveToRejectedFolder_filed h))
  rintro (e | photo) w₁ ⟨h₁, hpairs₁, -, hp₁⟩
  · exact h₁
  refine wp_bind.mpr (wp_mono ?_ (wp_moveToRejectedFolder_filed h₁))
  rintro (e | video) w₂ ⟨h₂, hpairs₂, hsh₂, hv₂⟩
  · exact h₂
  have hkeys : pairKeys w₂.reg = pairKeys w.reg := by
    simp only [pairKeys, hpairs₂, hpairs₁]
  refine wp_bind.mpr (wp_mono ?_ (wp_applyLivePhotoPairStatus_filed h₂
    (by unfold PairIdsDistinct; rwa [hkeys]) (by rwa [hkeys]) (hsh₂ _ hp₁) hv₂))
  rintro (e | u) w₃ h₃
  · exact h₃
  · exact wp_ret.mpr h₃

theorem wp_rejectKnown_filed {reason actor : String} {row : FileRecord} (h : Filed env cfg w) :
    (rejectKnown env cfg sha reason actor row).Wp (handle env) w fun _ w' => Filed env cfg w' := by
  unfold rejectKnown
  split
  · refine wp_bind.mpr (wp_transact (fun r now w₁ hr hfs hreg => wp_ret.mpr ?_)
      (fun _ _ _ h => nomatch h))
    cases hr
    exact h.frame (by rw [hreg]; rfl) fun _ _ => by rw [hfs]
  · refine wp_bind.mpr (wp_mono ?_ (wp_moveToRejectedFolder_filed h))
    rintro (e | removed) w₁ ⟨h₁, -, -, hsh₁⟩
    · exact h₁
    refine wp_bind.mpr (wp_transactOrReject (fun r now w₂ hr hfs hreg => wp_ret.mpr ?_)
      fun _ _ _ _ _ hfs hreg => h₁.still ⟨hfs, hreg⟩)
    exact (h₁.transition hsh₁ hr hfs hreg).1

/-- Reject of any hash. A file handed in for an unknown hash lies in no queue and
has that hash. -/
theorem wp_applyReject_filed {reason actor : String} {name : Option String} {size : Nat}
    {incoming : Option Path} (hs : IsSha sha) (h : Filed env cfg w)
    (hids : PairIdsDistinct w.reg)
    (hin : ∀ f, incoming = some f →
      ¬ InQueue cfg f ∧ ∀ b, w.fs.get f = some b → env.sha256 b = sha) :
    (applyReject env cfg sha reason actor name size incoming).Wp (handle env) w
      fun _ w' => Filed env cfg w' := by
  unfold applyReject
  refine wp_bind.mpr (wp_getFile.mpr ?_)
  simp only [thenWp_ok]
  cases hrow : w.reg.files.get sha with
  | none =>
    have hnull : pathOf w sha = none := by simp [pathOf, hrow]
    refine wp_rejectUnknown hs ?_ ?_ fun _ w' hw => h.still hw
    · intro row w' _ _ hpath hfs hfiles _
      refine h.put hs hfiles (by simp [hpath]) (by simp [hnull]) (fun _ _ _ _ => by rw [hfs])
        (by simp [hpath])
    · intro f d b row w' hf hfree hd hm _ hpath hfiles _
      obtain ⟨hout, hcontent⟩ := hin f hf
      exact h.relocate hm.relocated hfree (.inr (.inr hd)) (hcontent b hm.1) hs
        (.inr ⟨hnull, hout⟩) (by rw [hfiles]; exact Table.get_put_self _ _ _)
        (fun j hj => by rw [hfiles, Table.get_put, if_neg hj]) hpath fun _ => hd.within
  | some row =>
    refine wp_bind.mpr ?_
    simp only [getLivePhotoPairForMember, wp_op, handle, wp_ret, thenWp_ok]
    cases hpair : w.reg.getLivePhotoPairForMember sha with
    | none => exact wp_rejectKnown_filed h
    | some pair =>
      simp only
      split
      · exact wp_rejectPair_filed h hids (pairKeys_of_find hpair)
      · exact wp_rejectKnown_filed h

theorem wp_rejectSha256_filed {reason : Option String} {actor : String} (h : Filed env cfg w)
    (hids : PairIdsDistinct w.reg) :
    (rejectSha256 env cfg sha reason actor).Wp (handle env) w fun _ w' => Filed env cfg w' := by
  unfold rejectSha256
  exact wp_withNormalizedSha (fun _ => h) fun n hn =>
    wp_applyReject_filed (normalizeSha_isSha hn) h hids (fun f hf => nomatch hf)

/-! ## Trash -/

theorem wp_trashOne_filed {file : Path} (hsha : ∀ b, IsSha (env.sha256 b))
    (hfile : ¬ InQueue cfg file) (h : Filed env cfg w) (hids : PairIdsDistinct w.reg) :
    (trashOne env cfg file).Wp (handle env) w fun _ w' => Filed env cfg w' := by
  unfold trashOne
  cases hb : w.fs.get file with
  | none => exact wp_bind.mpr ((wp_sha256File_none hb).mpr h)
  | some b =>
    refine wp_bind.mpr ((wp_sha256File hb).mpr (wp_bind.mpr ((wp_statSize hb).mpr ?_)))
    have hin : ∀ f, some file = some f →
        ¬ InQueue cfg f ∧ ∀ b', w.fs.get f = some b' → env.sha256 b' = env.sha256 b := by
      rintro f ⟨⟩
      exact ⟨hfile, fun b' hb' => by rw [Option.some.inj (hb'.symm.trans hb)]⟩
    refine wp_bind.mpr (wp_mono ?_ (wp_applyReject_filed (hsha b) h hids hin))
    rintro (e | r) w₁ h₁
    · exact h₁
    · exact wp_bind.mpr (wp_unlink fun w₂ hfs hreg => wp_ret.mpr (h₁.drop hfile hfs (by rw [hreg])))

/-- By induction on the files left; the pair ids stay distinct on the way. -/
theorem wp_trashLoop_filed (hsha : ∀ b, IsSha (env.sha256 b)) :
    ∀ (files : List Path) (acc : TrashProcessResult) (w : World),
      (∀ f ∈ files, ¬ InQueue cfg f) → Filed env cfg w → PairIdsDistinct w.reg →
      (trashLoop env cfg files acc).Wp (handle env) w fun _ w' => Filed env cfg w'
  | [], _, _, _, h, _ => wp_ret.mpr h
  | file :: files, acc, w, hfiles, h, hids => by
    unfold trashLoop
    have hone := wp_trashOne_filed hsha (hfiles file List.mem_cons_self) h hids
    refine wp_bind.mpr (wp_mono ?_ (wp_and hone (ids_run _ hids)))
    rintro (e | r) w₁ ⟨h₁, hids₁⟩
    · exact h₁
    · exact wp_trashLoop_filed hsha files _ w₁ (fun f hf => hfiles f (List.mem_cons_of_mem _ hf))
        h₁ hids₁

theorem wp_processTrash_filed (hsha : ∀ b, IsSha (env.sha256 b))
    (htrash : Apart cfg cfg.trashPath) (h : Filed env cfg w) (hids : PairIdsDistinct w.reg) :
    (processTrash env cfg).Wp (handle env) w fun _ w' => Filed env cfg w' := by
  unfold processTrash
  refine wp_bind.mpr (wp_op.mpr (wp_ret.mpr ?_))
  refine wp_bind.mpr (wp_mono ?_ (wp_trashLoop_filed hsha (filesBelow w.fs cfg.trashPath)
    ⟨0, 0, 0, 0, []⟩ w (fun f hf => htrash.not_inQueue (mem_filesBelow.mp hf).2.1) h hids))
  rintro (e | r) w₁ h₁
  · exact h₁
  · exact wp_ret.mpr h₁

/-! ## Purge -/

/-- A purge takes the file of the row along: nothing is left of its content. -/
theorem wp_purgeSha256_filed (sha : String) (reason : Option String) (actor : String)
    (h : Filed env cfg w) :
    (purgeSha256 cfg sha reason actor).Wp (handle env) w fun r w' => Filed env cfg w' ∧
      onOk (fun _ t => ∀ n p b, normalizeSha sha = some n → InQueue cfg p →
        t.fs.get p = some b → env.sha256 b ≠ n) r w' := by
  refine wp_purgeSha256_iff ?_ fun _ _ => ⟨h, trivial⟩
  intro n row row' r w' hn hrow _ hfs _ hpath hfiles
  have hown := pathOf_of_row hrow
  have hget : ∀ q, w'.fs.get q = if row.currentPath = some q then none else w.fs.get q := by
    intro q
    rcases hfs with ⟨hfs, hgone⟩ | ⟨p, hp, -, hfs⟩
    · rw [hfs]
      split
      · next hq => simpa [hq] using hgone
      · rfl
    · rw [hfs, Table.get_drop, hp]
      simp only [Option.some.injEq, eq_comm]
  have hfiled : Filed env cfg w' := by
    refine h.put (h.hashed n row hrow) hfiles (by simp [hpath]) (fun p hp => .inr ?_)
      (fun q _ _ hq => ?_) (by simp [hpath])
    · rw [hget, if_pos (hown.symm.trans hp)]
    · rw [hget, if_neg (by rwa [← hown])]
  refine ⟨hfiled, fun n' p b hn' hq hb hsha => ?_⟩
  rw [hn] at hn'
  cases hn'
  have htr := hfiled.tracked p b hq hb
  simp [pathOf, hfiles, hsha, hpath] at htr

end Nightfall
