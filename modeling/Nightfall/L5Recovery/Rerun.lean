import Nightfall.Core.Crash
import Nightfall.L4System.Location

/-!
# Running an operator command again after a crash

`reject_sha256` and `accept_sha256` move a file and then write its row, in one
transaction or two. A crash before the move leaves the state the command started
from. After the move the row still names the old path, or a pending row already
names the rejected root, and the guards of a second run turn both down.

* `track_rejectSha256`, `track_acceptSha256`: the states a crash can leave.
* `rerun_converges_iff`: the second run ends where an uninterrupted one does
  exactly when the file had not left its place.
-/
namespace Nightfall
open Nightfall.Core Storage Prog

inductive OperatorCommand where
  | accept
  | reject
  deriving DecidableEq, Repr

def OperatorCommand.flow (env : Env) (cfg : CoreConfig) (sha : String) (reason : Option String)
    (actor : String) : OperatorCommand → Flow Unit
  | .accept => do let _ ← acceptSha256 env cfg sha reason actor
  | .reject => do let _ ← rejectSha256 env cfg sha reason actor

/-- The status the command ends in. -/
def OperatorCommand.target : OperatorCommand → Status
  | .accept => .accepted
  | .reject => .rejected

/-- The row is pending or accepted and its file is in place; there are no pairs. -/
structure Standing (cfg : CoreConfig) (w : World) (sha : String) (row : FileRecord) (p : Path)
    (b : Bytes) : Prop where
  pairs : w.reg.livePhotoPairs = []
  known : w.reg.files.get sha = some row
  path : row.currentPath = some p
  root : (row.status = .pending ∧ withinRoot p cfg.pendingPath = true) ∨
    (row.status = .accepted ∧ withinRoot p cfg.acceptedPath = true)
  file : w.fs.get p = some b

/-- The row has the status, and its path holds the bytes below the root of it. -/
def Settled (cfg : CoreConfig) (st : Status) (sha : String) (b : Bytes) (w : World) : Prop :=
  ∃ row d root, w.reg.files.get sha = some row ∧ row.status = st ∧ row.currentPath = some d ∧
    rootOf cfg st = some root ∧ Under root d ∧ w.fs.get d = some b

/-- The step removes the file at `p`. -/
def Op.takes (p : Path) : Op → Bool
  | .replace src _ => src == p
  | .unlink q => q == p
  | _ => false

def Op.copies : Op → Bool
  | .copy2 _ _ => true
  | _ => false

/-- No step so far has removed the file at `p`. -/
def NotTaken (p : Path) (h : List (Event Ops World)) : Prop := ∀ e ∈ h, e.op.takes p = false

/-- A cross-device move has begun to copy the file and has not removed it: the
move is under way. -/
def MidMove (p : Path) (h : List (Event Ops World)) : Prop :=
  (∃ e ∈ h, e.op.copies = true) ∧ NotTaken p h

section Points
variable {env : Env} {cfg : CoreConfig} {w : World} {sha : String} {p : Path}

/-- Before the move: only the clock may have been read. -/
structure Before (p : Path) (w : World) (h : List (Event Ops World)) (t : World) : Prop where
  place : NotTaken p h
  uncopied : ∀ e ∈ h, e.op.copies = false
  later : Later w t

/-- After the move: the file is gone from its place and the tables are as they
were. -/
def Gone (p : Path) (w : World) (h : List (Event Ops World)) (t : World) : Prop :=
  ¬ NotTaken p h ∧ t.fs.get p = none ∧ t.reg = w.reg

/-- The path is written already, the status is not. -/
def Half (cfg : CoreConfig) (p : Path) (w : World) (sha : String) (h : List (Event Ops World))
    (t : World) : Prop :=
  ¬ NotTaken p h ∧ ∃ d now, cfg.rejectedPath <+: d ∧ t.fs.get d ≠ none ∧
    t.reg = w.reg.updateCurrentPath sha d now

theorem NotTaken.append {h h' : List (Event Ops World)} (hh : NotTaken p h)
    (hh' : NotTaken p h') : NotTaken p (h ++ h') :=
  List.forall_mem_append.mpr ⟨hh, hh'⟩

theorem not_notTaken_append {h : List (Event Ops World)} {e : Event Ops World}
    (he : e.op.takes p = true) : ¬ NotTaken p (h ++ [e]) := by
  intro hn
  have := hn e (by simp)
  rw [he] at this
  cases this

theorem not_takes_of_readsOnly {o : Op} (h : o.readsOnly = true) : o.takes p = false := by
  cases o with
  | replace | unlink => cases h
  | _ => rfl

theorem not_copies_of_readsOnly {o : Op} (h : o.readsOnly = true) : o.copies = false := by
  cases o with
  | copy2 => cases h
  | _ => rfl

theorem before_start : Before p w [] w := ⟨by simp [NotTaken], by simp, .refl w⟩

theorem Before.still {h : List (Event Ops World)} {t : World} (hb : Before p w h t) : Still w t :=
  hb.later.still

/-- A stretch without writes, before the move. -/
theorem track_before {α : Type} {pr : Flow α} {Φ : List (Event Ops World) → World → Prop}
    {h : List (Event Ops World)} {s : World} {W : Except Err α → World → Prop}
    {Q : Except Err α → List (Event Ops World) → World → Prop}
    (hp : pr.Calls fun o : Op => o.readsOnly = true)
    (hw : pr.Wp (handle env) s W) (hs : Before p w h s) (hΦ : ∀ h t, Before p w h t → Φ h t)
    (hQ : ∀ r h' t, W r t → Before p w h' t → Q r h' t) : pr.Track (handle env) Φ h s Q := by
  have hbefore : ∀ h' t, Later s t → (∀ e ∈ h', e.op.readsOnly = true) → Before p w (h ++ h') t :=
    fun h' t hst hh => ⟨hs.place.append fun e he => not_takes_of_readsOnly (hh e he),
      List.forall_mem_append.mpr ⟨hs.uncopied, fun e he => not_copies_of_readsOnly (hh e he)⟩,
      hs.later.trans hst⟩
  exact track_stretch Later.refl (fun _ _ _ => Later.trans) (fun o s ho => later_handle ho) hp hw
    (fun h' t hst hh => hΦ _ t (hbefore h' t hst hh))
    fun r h' t hW hst hh => hQ r _ t hW (hbefore h' t hst hh)

/-! ## Reject -/

/-- Where a reject can be interrupted. -/
def RejectPoint (cfg : CoreConfig) (p : Path) (w : World) (sha : String)
    (h : List (Event Ops World)) (t : World) : Prop :=
  Before p w h t ∨ Gone p w h t ∨ Half cfg p w sha h t

/-- The move itself: before it, or with the file gone from its place. -/
theorem track_movePhysicalToRejected {b : Bytes} {name : Option String} {mt : String}
    {h : List (Event Ops World)} {s : World} {Φ : List (Event Ops World) → World → Prop}
    {Q : Except Err (Option Path) → List (Event Ops World) → World → Prop} (hs : IsSha sha)
    (hb : w.fs.get p = some b) (hbefore : Before p w h s) (hΦ : ∀ h t, Before p w h t → Φ h t)
    (hmove : ∀ d h' t, cfg.rejectedPath <+: d → t.fs.get d ≠ none → Gone p w h' t →
      Q (.ok (some d)) h' t)
    (herr : ∀ e h' t, Q (.error e) h' t) :
    (movePhysicalToRejected env cfg (some p) sha name mt).Track (handle env) Φ h s Q := by
  unfold movePhysicalToRejected
  refine track_bind.mpr (track_before (W := fun r _ => r = .ok (s.fs.get p).isSome)
    (calls_pathExists rfl) (wp_pathExists.mpr rfl) hbefore hΦ ?_)
  rintro _ h₁ s₁ rfl hb₁
  simp only [thenTrack, hbefore.still.fs, hb, Option.isSome_some, if_true]
  refine track_bind.mpr (track_before (W := fun r _ => ∀ rel, r = .ok rel → rel ≠ [])
    (calls_renderRelativePath rfl) (wp_renderRelativePath cfg.storage_named hs ?_ (by simp))
      hb₁ hΦ ?_)
  · rintro rel w' _ hrel rel' h'
    cases h'
    exact hrel
  rintro (e | rel) h₂ s₂ hrel hb₂
  · exact herr e h₂ s₂
  have hrel := hrel rel rfl
  refine track_bind.mpr (track_before (W := fun r t => ∀ d, r = .ok d →
    t.fs.get d = none ∧ Under cfg.rejectedPath d) (calls_choose fun _ => rfl)
    (wp_choose (by simp [hrel]) ?_ (by simp)) hb₂ hΦ ?_)
  · rintro d hfree hd d' h'
    cases h'
    exact ⟨hfree, hd.under hrel⟩
  rintro (e | d) h₃ s₃ hd hb₃
  · exact herr e h₃ s₃
  obtain ⟨hfree, hd⟩ := hd d rfl
  have hsrc : s₃.fs.get p = some b := by rw [hb₃.still.fs, hb]
  refine track_bind.mpr ⟨hΦ _ _ hb₃, ?_⟩
  simp only [handle, moveFile, hsrc, Option.map_some]
  refine hmove d _ _ hd.within (by simp) ⟨not_notTaken_append (by simp [Op.takes]), ?_, hb₃.still.reg⟩
  have hne : p ≠ d := by rintro rfl; rw [hfree] at hsrc; cases hsrc
  rw [Table.get_put, if_neg hne, Table.get_drop, if_pos rfl]

theorem track_rejectSha256 {n : String} {row : FileRecord} {b : Bytes} (env : Env)
    (reason : Option String) (actor : String) (hn : normalizeSha sha = some n)
    (hw : Standing cfg w n row p b) :
    (rejectSha256 env cfg sha reason actor).Track (handle env) (RejectPoint cfg p w n) [] w
      fun _ _ _ => True := by
  have hΦ : ∀ h t, Before p w h t → RejectPoint cfg p w n h t := fun _ _ h => .inl h
  have hst : row.status ≠ .rejected := by
    rcases hw.root with ⟨h, -⟩ | ⟨h, -⟩ <;> rw [h] <;> decide
  have hin : ¬ (!withinRoot p cfg.pendingPath && !withinRoot p cfg.acceptedPath) = true := by
    rcases hw.root with ⟨-, h⟩ | ⟨-, h⟩ <;> simp [h]
  unfold rejectSha256 withNormalizedSha
  simp only [hn, applyReject]
  refine track_bind.mpr (track_before (W := fun r _ => r = .ok (w.reg.files.get n))
    (calls_getFile rfl) (wp_getFile.mpr rfl) before_start hΦ ?_)
  rintro _ h₁ w₁ rfl hb₁
  simp only [thenTrack, hw.known]
  refine track_bind.mpr (track_before (W := fun r _ => r = .ok none) (.op rfl fun _ => .ret)
    (wp_getLivePhotoPairForMember (by rw [hb₁.still.reg, hw.pairs]) rfl) hb₁ hΦ ?_)
  rintro _ h₂ w₂ rfl hb₂
  simp only [thenTrack, rejectKnown, if_neg hst, moveToRejectedFolder]
  refine track_bind.mpr (track_bind.mpr (track_before
    (W := fun r _ => r = .ok (w₂.reg.files.get n)) (calls_getFile rfl) (wp_getFile.mpr rfl)
    hb₂ hΦ ?_))
  rintro _ h₃ w₃ rfl hb₃
  simp only [thenTrack, hb₂.still.reg, hw.known, hw.path]
  refine track_bind.mpr (track_before (W := fun r _ => r = .ok (w₃.fs.get p).isSome)
    (calls_pathExists rfl) (wp_pathExists.mpr rfl) hb₃ hΦ ?_)
  rintro _ h₄ w₄ rfl hb₄
  simp only [thenTrack, hb₃.still.fs, hw.file, Option.isSome_some, if_true, if_neg hin]
  refine track_bind.mpr (track_before (W := fun _ _ => True) (calls_rejectModifiedTime rfl rfl)
    (wp_iff.mpr trivial) hb₄ hΦ ?_)
  rintro (e | mt) h₅ w₅ - hb₅
  · trivial
  refine track_bind.mpr (track_movePhysicalToRejected (normalizeSha_isSha hn) hw.file hb₅ hΦ ?_
    fun _ _ _ => trivial)
  -- the two transactions behind the move
  intro d h₆ w₆ hd hex hgone
  simp only [thenTrack]
  refine track_bind.mpr ⟨.inr (.inl hgone), ?_⟩
  simp only [handle, Tx.apply, track_ret, thenTrack]
  refine track_bind.mpr ⟨.inr (.inr ⟨?_, d, _, hd, hex, by rw [hgone.2.2]⟩), ?_⟩
  · exact fun hno => hgone.1 fun e he => hno e (List.mem_append_left _ he)
  · simp only [handle]
    split <;> trivial

/-! ## Accept -/

/-- Where an accept can be interrupted. -/
def AcceptPoint (p : Path) (w : World) (h : List (Event Ops World)) (t : World) : Prop :=
  Before p w h t ∨ MidMove p h ∨ Gone p w h t

/-- Inside a cross-device move. -/
theorem track_mid {α : Type} {pr : Flow α} {h : List (Event Ops World)} {s : World}
    {Q : Except Err α → List (Event Ops World) → World → Prop}
    (hp : pr.Calls fun o : Op => o.takes p = false ∧ o.isTx = false) (hm : MidMove p h)
    (hreg : s.reg = w.reg) (hQ : ∀ r h' t, MidMove p h' → t.reg = w.reg → Q r h' t) :
    pr.Track (handle env) (AcceptPoint p w) h s Q := by
  have hmid : ∀ h' : List (Event Ops World), (∀ e ∈ h', e.op.takes p = false ∧
      e.op.isTx = false) → MidMove p (h ++ h') := fun h' hh => by
    obtain ⟨e, he, hc⟩ := hm.1
    exact ⟨⟨e, List.mem_append_left _ he, hc⟩, hm.2.append fun e he => (hh e he).1⟩
  refine track_stretch (R := SameReg) (W := fun _ _ => True) (fun _ => rfl)
    (fun _ _ _ => SameReg.trans) (fun o s ho => handle_reg ho.2) hp (wp_iff.mpr trivial)
    (fun h' t _ hh => .inr (.inl (hmid h' hh))) fun r h' t _ hR hh => ?_
  exact hQ r _ t (hmid h' hh) (Eq.trans hR hreg)

/-- The commit of a pending file, on one device or two. -/
theorem track_commit {b : Bytes} {d : Path} {same : Bool} {root : Option Path}
    {h : List (Event Ops World)} {s : World}
    {Q : Except Err CommitResult → List (Event Ops World) → World → Prop}
    (hb : w.fs.get p = some b) (hfree : w.fs.get d = none) (htmp : d.addExt ".tmp" ≠ p)
    (hbefore : Before p w h s) (hok : ∀ r h' t, Gone p w h' t → Q (.ok r) h' t)
    (herr : ∀ e h' t, Q (.error e) h' t) :
    (commitStagingToAccepted p d same root).Track (handle env) (AcceptPoint p w) h s Q := by
  have hne : p ≠ d := by rintro rfl; rw [hfree] at hb; cases hb
  have hrename : ∀ h s, Before p w h s →
      (commitRename p d).Track (handle env) (AcceptPoint p w) h s Q := by
    intro h s hs
    have hsrc : s.fs.get p = some b := by rw [hs.still.fs, hb]
    refine track_bind.mpr ⟨.inl hs, ?_⟩
    simp only [handle, moveFile, hsrc, Option.map_some]
    have hgone : Gone p w (h ++ [⟨.replace p d, s, { s with fs := (s.fs.drop p).put d b }⟩])
        { s with fs := (s.fs.drop p).put d b } := by
      refine ⟨not_notTaken_append (by simp [Op.takes]), ?_, hs.still.reg⟩
      rw [Table.get_put, if_neg hne, Table.get_drop, if_pos rfl]
    refine track_bind.mpr ⟨.inr (.inr hgone), ?_⟩
    simp only [handle, Table.get_put_self, Option.map_some]
    refine hok _ _ _ ⟨?_, hgone.2.1, hgone.2.2⟩
    exact fun hno => hgone.1 fun e he => hno e (List.mem_append_left _ he)
  have hcopy : ∀ h s, Before p w h s →
      (commitCopy p d).Track (handle env) (AcceptPoint p w) h s Q := by
    intro h s hs
    have hsrc : s.fs.get p = some b := by rw [hs.still.fs, hb]
    rw [commitCopy]
    simp only [copy2, if_neg htmp.symm]
    refine track_bind.mpr ⟨.inl hs, ?_⟩
    simp only [handle, copyFile, hsrc, Option.map_some]
    refine track_bind.mpr (track_mid (w := w) (calls_statSize ⟨rfl, rfl⟩) ⟨⟨_, List.mem_append_right _
      (List.mem_singleton_self _), rfl⟩, hs.place.append (by simp [NotTaken, Op.takes])⟩
      hs.still.reg ?_)
    rintro (e | n₁) h₁ s₁ hm₁ hreg₁
    · exact herr e h₁ s₁
    refine track_bind.mpr (track_mid (calls_statSize ⟨rfl, rfl⟩) hm₁ hreg₁ ?_)
    rintro (e | n₂) h₂ s₂ hm₂ hreg₂
    · exact herr e h₂ s₂
    simp only [thenTrack]
    have hdrop : (unlink (d.addExt ".tmp")).Calls fun o : Op => o.takes p = false ∧ o.isTx = false :=
      calls_unlink ⟨by simpa [Op.takes] using htmp, rfl⟩
    split
    · refine track_bind.mpr (track_mid hdrop hm₂ hreg₂ ?_)
      rintro (e | u) h₃ s₃ - -
      · exact herr e h₃ s₃
      · exact herr _ h₃ s₃
    refine track_bind.mpr (track_mid (calls_sha256File ⟨rfl, rfl⟩) hm₂ hreg₂ ?_)
    rintro (e | sha₁) h₃ s₃ hm₃ hreg₃
    · exact herr e h₃ s₃
    refine track_bind.mpr (track_mid (calls_sha256File ⟨rfl, rfl⟩) hm₃ hreg₃ ?_)
    rintro (e | sha₂) h₄ s₄ hm₄ hreg₄
    · exact herr e h₄ s₄
    simp only [thenTrack]
    split
    · refine track_bind.mpr (track_mid hdrop hm₄ hreg₄ ?_)
      rintro (e | u) h₅ s₅ - -
      · exact herr e h₅ s₅
      · exact herr _ h₅ s₅
    refine track_bind.mpr (track_mid (calls_replaceFile ⟨by simpa [Op.takes] using htmp, rfl⟩) hm₄
      hreg₄ ?_)
    rintro (e | u) h₅ s₅ hm₅ hreg₅
    · exact herr e h₅ s₅
    refine track_bind.mpr ⟨.inr (.inl hm₅), ?_⟩
    simp only [handle]
    refine hok _ _ _ ⟨not_notTaken_append (by simp [Op.takes]), ?_, hreg₅⟩
    rw [Table.get_drop, if_pos rfl]
  unfold commitStagingToAccepted
  refine track_bind.mpr (track_before (W := fun r _ => r = .ok (s.fs.get p).isSome)
    (calls_pathExists rfl) (wp_pathExists.mpr rfl) hbefore (fun _ _ => .inl) ?_)
  rintro _ h₁ s₁ rfl hb₁
  simp only [thenTrack, hbefore.still.fs, hb, Option.isSome_some, if_true]
  refine track_bind.mpr (track_before (W := fun _ _ => True) calls_ensureWithin (wp_iff.mpr trivial)
    hb₁ (fun _ _ => .inl) ?_)
  rintro (e | u) h₂ s₂ - hb₂
  · exact herr e h₂ s₂
  simp only [thenTrack]
  cases same
  · exact hcopy h₂ s₂ hb₂
  · exact hrename h₂ s₂ hb₂

theorem track_acceptSha256 {n : String} {row : FileRecord} {b : Bytes} (env : Env)
    (reason : Option String) (actor : String) (hroots : Unnested cfg.pendingPath cfg.acceptedPath)
    (hn : normalizeSha sha = some n) (hw : Standing cfg w n row p b) :
    (acceptSha256 env cfg sha reason actor).Track (handle env) (AcceptPoint p w) [] w
      fun _ _ _ => True := by
  have hΦ : ∀ h t, Before p w h t → AcceptPoint p w h t := fun _ _ h => .inl h
  unfold acceptSha256 withNormalizedSha
  simp only [hn]
  refine track_bind.mpr (track_before (W := fun _ _ => True) (calls_getAcceptContext rfl)
    (wp_iff.mpr trivial) before_start hΦ ?_)
  rintro (e | ctx) h₁ w₁ - hb₁
  · trivial
  cases ctx with
  | none => trivial
  | some ctx =>
    refine track_bind.mpr (track_before (W := fun r _ => r = .ok (w₁.reg.files.get n))
      (calls_getFile rfl) (wp_getFile.mpr rfl) hb₁ hΦ ?_)
    rintro _ h₂ w₂ rfl hb₂
    simp only [thenTrack, hb₁.still.reg, hw.known, hw.path, acceptFrom]
    split
    · trivial
    split
    · next hin =>
      refine track_bind.mpr (track_before (W := fun r _ => ∀ rel, r = .ok rel → rel ≠ [])
        (calls_renderRelativePath rfl)
        (wp_renderRelativePath cfg.accepted_named (normalizeSha_isSha hn) ?_ (by simp)) hb₂ hΦ ?_)
      · rintro rel w' _ hrel rel' h'
        cases h'
        exact hrel
      rintro (e | rel) h₃ w₃ hrel hb₃
      · trivial
      have hrel := hrel rel rfl
      refine track_bind.mpr (track_before (W := fun r t => ∀ d, r = .ok d →
        t.fs.get d = none ∧ Beside (cfg.acceptedPath ++ rel) d)
        (calls_choose fun _ => rfl) (wp_choose (by simp [hrel]) ?_ (by simp)) hb₃ hΦ ?_)
      · rintro d hfree hd d' h'
        cases h'
        exact ⟨hfree, hd⟩
      rintro (e | d) h₄ w₄ hd hb₄
      · trivial
      obtain ⟨hfree, hd⟩ := hd d rfl
      -- the temporary name stands beside the destination, so not in the pending root
      have htmp : d.addExt ".tmp" ≠ p := by
        rintro rfl
        exact hroots.disjoint (prefix_of_withinRoot hin) ((hd.addExt ".tmp").within hrel)
      refine track_bind.mpr (track_before (W := fun _ _ => True)
        (.op rfl fun _ => .op rfl fun _ => .ret) (wp_iff.mpr trivial) hb₄ hΦ ?_)
      rintro (e | same) h₅ w₅ - hb₅
      · trivial
      refine track_bind.mpr (track_commit hw.file (by rw [← hb₄.still.fs]; exact hfree) htmp hb₅ ?_
        fun _ _ _ => trivial)
      intro r h₆ w₆ hgone
      refine track_bind.mpr ⟨.inr (.inr hgone), ?_⟩
      simp only [handle]
      split <;> trivial
    · trivial

/-- Dropping the result adds no step. -/
theorem track_dropped {α : Type} {pr : Flow α} {Φ : List (Event Ops World) → World → Prop}
    {h : List (Event Ops World)} {s : World}
    (hp : pr.Track (handle env) Φ h s fun _ _ _ => True) :
    (do let _ ← pr : Flow Unit).Track (handle env) Φ h s fun _ _ _ => True := by
  refine track_bind.mpr (track_mono ?_ hp)
  rintro (e | a) _ _ - <;> trivial

end Points

/-! ## The second run -/

section Rerun
variable {env : Env} {cfg : CoreConfig} {w t : World} {sha n actor : String}
  {reason : Option String} {row : FileRecord} {p : Path} {b : Bytes}

/-- Every reject from a standing row that succeeds ends settled. -/
theorem wp_rejectSha256_settles (hn : normalizeSha sha = some n) (hw : Standing cfg w n row p b) :
    (rejectSha256 env cfg sha reason actor).Wp (handle env) w (onOk fun _ w' =>
      Settled cfg .rejected n b w') := by
  have hst : row.status ≠ .rejected := by
    rcases hw.root with ⟨h, -⟩ | ⟨h, -⟩ <;> rw [h] <;> decide
  unfold rejectSha256 withNormalizedSha
  simp only [hn]
  refine wp_applyReject (normalizeSha_isSha hn) hw.pairs ?_ ?_ ?_ ?_ fun _ _ _ => trivial
  · intro hnone
    rw [hw.known] at hnone
    cases hnone
  · intro row' w' hrow' hst'
    rw [hw.known] at hrow'
    cases hrow'
    exact absurd hst' hst
  · intro row' _ w' hrow' _ hgone
    rw [hw.known] at hrow'
    cases hrow'
    simp [hw.path, hw.file] at hgone
  · intro row' row'' p' d b' w' hrow' _ hp' _ _ hd hm hst'' hpath'' hget _ _
    rw [hw.known] at hrow'
    cases hrow'
    rw [hw.path] at hp'
    cases hp'
    obtain rfl : b = b' := Option.some.inj (hw.file.symm.trans hm.1)
    exact ⟨row'', d, _, hget, hst'', hpath'', rfl, hd, hm.get_dst⟩

theorem wp_acceptSha256_settles (hn : normalizeSha sha = some n) (hw : Standing cfg w n row p b) :
    (acceptSha256 env cfg sha reason actor).Wp (handle env) w (onOk fun _ w' =>
      Settled cfg .accepted n b w') := by
  refine wp_acceptSha256_commit ?_ fun _ _ _ => trivial
  intro n' row' ctx p' d w₁ hn' hrow hst hp _ hfree hd hs
  obtain rfl : n = n' := Option.some.inj (hn.symm.trans hn')
  rw [hw.known] at hrow
  cases hrow
  rw [hw.path] at hp
  cases hp
  have hne : d ≠ p := by rintro rfl; rw [hw.file] at hfree; cases hfree
  refine wp_bind.mpr (wp_commit (b := b) (by rw [hs.fs, hw.file]) hne (fun r w₂ hd₂ _ hreg₂ => ?_)
    fun _ => trivial)
  refine wp_finalizeAccept (by rw [hreg₂, hs.reg, hw.known]) hst
    fun row' w₃ hst' hpath' hfs₃ hf => ?_
  exact ⟨row', d, _, by rw [hf]; exact Table.get_put_self _ _ _, hst', hpath', rfl, hd,
    by rw [hfs₃, hd₂]⟩

/-- With its file gone a second accept fails. -/
theorem wp_acceptSha256_gone (hn : normalizeSha sha = some n) (hw : Standing cfg w n row p b)
    (hgone : t.fs.get p = none) (hreg : t.reg = w.reg) :
    (acceptSha256 env cfg sha reason actor).Wp (handle env) t fun r _ => ∃ e, r = .error e := by
  refine wp_acceptSha256_commit ?_ fun e _ _ => ⟨e, rfl⟩
  intro n' row' ctx p' d w₁ hn' hrow _ hp _ _ _ hs
  obtain rfl : n = n' := Option.some.inj (hn.symm.trans hn')
  rw [hreg, hw.known] at hrow
  cases hrow
  rw [hw.path] at hp
  cases hp
  exact wp_bind.mpr (wp_commit_missing (by rw [hs.fs, hgone]) fun e => ⟨e, rfl⟩)

/-- With its file gone a second reject drops the path. -/
theorem wp_rejectSha256_gone (hn : normalizeSha sha = some n) (hw : Standing cfg w n row p b)
    (hgone : t.fs.get p = none) (hreg : t.reg = w.reg) :
    (rejectSha256 env cfg sha reason actor).Wp (handle env) t (onOk fun _ w' =>
      ∃ row', w'.reg.files.get n = some row' ∧ row'.currentPath = none) := by
  have hst : row.status ≠ .rejected := by
    rcases hw.root with ⟨h, -⟩ | ⟨h, -⟩ <;> rw [h] <;> decide
  have hknown : t.reg.files.get n = some row := by rw [hreg, hw.known]
  unfold rejectSha256 withNormalizedSha
  simp only [hn]
  refine wp_applyReject (normalizeSha_isSha hn) (by rw [hreg, hw.pairs]) ?_ ?_ ?_ ?_
    fun _ _ _ => trivial
  · intro hnone
    rw [hknown] at hnone
    cases hnone
  · intro row' w' hrow' hst'
    rw [hknown] at hrow'
    cases hrow'
    exact absurd hst' hst
  · intro row' row'' w' _ _ _ _ hnull _ hget _ _
    exact ⟨row'', hget, hnull⟩
  · intro row' row'' p' d b' w' hrow' _ hp' _ _ _ hm
    rw [hknown] at hrow'
    cases hrow'
    rw [hw.path] at hp'
    cases hp'
    rw [hm.1] at hgone
    cases hgone

/-- With the path below the rejected root already, a second reject raises. -/
theorem wp_rejectSha256_half {d : Path} {now : String} (env : Env) (reason : Option String)
    (actor : String) (hn : normalizeSha sha = some n)
    (hp : Unnested cfg.pendingPath cfg.rejectedPath)
    (ha : Unnested cfg.acceptedPath cfg.rejectedPath) (hw : Standing cfg w n row p b)
    (hd : cfg.rejectedPath <+: d) (hfile : t.fs.get d ≠ none)
    (hreg : t.reg = w.reg.updateCurrentPath n d now) :
    (rejectSha256 env cfg sha reason actor).Wp (handle env) t fun r _ => ∃ e, r = .error e := by
  have hst : row.status ≠ .rejected := by
    rcases hw.root with ⟨h, -⟩ | ⟨h, -⟩ <;> rw [h] <;> decide
  have hknown : t.reg.files.get n = some { row with currentPath := some d, updatedAt := now } := by
    rw [hreg, Registry.files_updateCurrentPath, Table.get_modify, if_pos rfl, hw.known]; rfl
  unfold rejectSha256 withNormalizedSha
  simp only [hn]
  refine wp_applyReject (normalizeSha_isSha hn) (by rw [hreg]; exact hw.pairs) ?_ ?_ ?_ ?_
    fun e _ _ => ⟨e, rfl⟩
  · intro hnone
    rw [hknown] at hnone
    cases hnone
  · intro row' w' hrow' hst'
    rw [hknown] at hrow'
    cases hrow'
    exact absurd hst' hst
  · intro row' row'' w' hrow' _ hgone
    rw [hknown] at hrow'
    cases hrow'
    exact absurd hgone hfile
  · intro row' row'' p' d' b' w' hrow' _ hp' hin
    rw [hknown] at hrow'
    cases hrow'
    cases hp'
    rcases Bool.or_eq_true_iff.mp hin with h | h
    · exact absurd hd (hp.disjoint (prefix_of_withinRoot h))
    · exact absurd hd (ha.disjoint (prefix_of_withinRoot h))

end Rerun

/-- The command is interrupted before its `k`-th step and run again: it succeeds
and the row is where it should be, with its bytes. -/
def Converges (env : Env) (cfg : CoreConfig) (cmd : OperatorCommand) (sha : String)
    (reason : Option String) (actor n : String) (b : Bytes) (w : World) (k : Nat) : Prop :=
  let flow := cmd.flow env cfg sha reason actor
  let again := flow.run (handle env) (flow.crash (handle env) k w)
  again.1 = .ok () ∧ Settled cfg cmd.target n b again.2

section Converges
variable {env : Env} {cfg : CoreConfig} {cmd : OperatorCommand} {w t : World}
  {sha n actor : String} {reason : Option String} {row : FileRecord} {p : Path} {b : Bytes}

theorem Standing.still (h : Standing cfg w n row p b) (ht : Still w t) :
    Standing cfg t n row p b :=
  ⟨by rw [ht.reg, h.pairs], by rw [ht.reg, h.known], h.path, h.root, by rw [ht.fs, h.file]⟩

/-- A run of either command that succeeds settles the row. -/
theorem run_settles (hn : normalizeSha sha = some n) (hw : Standing cfg w n row p b)
    (hok : ((cmd.flow env cfg sha reason actor).run (handle env) w).1 = .ok ()) :
    Settled cfg cmd.target n b ((cmd.flow env cfg sha reason actor).run (handle env) w).2 := by
  have hwp : (cmd.flow env cfg sha reason actor).Wp (handle env) w
      (onOk fun _ w' => Settled cfg cmd.target n b w') := by
    cases cmd with
    | accept => exact wp_bind_onOk (wp_acceptSha256_settles hn hw) fun _ _ h => wp_ret.mpr h
    | reject => exact wp_bind_onOk (wp_rejectSha256_settles hn hw) fun _ _ h => wp_ret.mpr h
  have hend := wp_iff.mp hwp
  rw [hok] at hend
  exact hend

theorem not_settled_of_null {row' : FileRecord} {st : Status} (hrow : t.reg.files.get n = some row')
    (hnull : row'.currentPath = none) : ¬ Settled cfg st n b t := by
  rintro ⟨row'', d, _, hrow'', -, hd, -⟩
  rw [hrow] at hrow''
  cases hrow''
  rw [hnull] at hd
  cases hd

/-- From a state with the file gone neither command settles the row. -/
theorem not_settles_gone (hn : normalizeSha sha = some n) (hw : Standing cfg w n row p b)
    (hgone : t.fs.get p = none) (hreg : t.reg = w.reg) :
    ¬ (((cmd.flow env cfg sha reason actor).run (handle env) t).1 = .ok () ∧
      Settled cfg cmd.target n b ((cmd.flow env cfg sha reason actor).run (handle env) t).2) := by
  rintro ⟨hok, hset⟩
  cases cmd with
  | accept =>
    have hwp : (OperatorCommand.accept.flow env cfg sha reason actor).Wp (handle env) t
        fun r _ => ∃ e, r = .error e :=
      wp_bind.mpr (wp_mono (by rintro _ _ ⟨e, rfl⟩; exact ⟨e, rfl⟩)
        (wp_acceptSha256_gone hn hw hgone hreg))
    obtain ⟨e, he⟩ := wp_iff.mp hwp
    rw [hok] at he
    cases he
  | reject =>
    have hwp : (OperatorCommand.reject.flow env cfg sha reason actor).Wp (handle env) t
        (onOk fun _ w' => ∃ row', w'.reg.files.get n = some row' ∧ row'.currentPath = none) :=
      wp_bind_onOk (wp_rejectSha256_gone hn hw hgone hreg) fun _ _ h => wp_ret.mpr h
    have hend := wp_iff.mp hwp
    rw [hok] at hend
    obtain ⟨row', hrow', hnull⟩ := hend
    exact not_settled_of_null hrow' hnull hset

/-- From a half-written row a second reject does not settle it. -/
theorem not_settles_half {d : Path} {now : String} (hn : normalizeSha sha = some n)
    (hpr : Unnested cfg.pendingPath cfg.rejectedPath)
    (har : Unnested cfg.acceptedPath cfg.rejectedPath) (hw : Standing cfg w n row p b)
    (hd : cfg.rejectedPath <+: d) (hfile : t.fs.get d ≠ none)
    (hreg : t.reg = w.reg.updateCurrentPath n d now) :
    ((OperatorCommand.reject.flow env cfg sha reason actor).run (handle env) t).1 ≠ .ok () := by
  have hwp : (OperatorCommand.reject.flow env cfg sha reason actor).Wp (handle env) t
      fun r _ => ∃ e, r = .error e :=
    wp_bind.mpr (wp_mono (by rintro _ _ ⟨e, rfl⟩; exact ⟨e, rfl⟩)
      (wp_rejectSha256_half env reason actor hn hpr har hw hd hfile hreg))
  obtain ⟨e, he⟩ := wp_iff.mp hwp
  rw [he]
  exact nofun

/-- A crash point is before the move, or a second run does not converge. -/
theorem before_or_diverges {k : Nat} (hpa : Unnested cfg.pendingPath cfg.acceptedPath)
    (hpr : Unnested cfg.pendingPath cfg.rejectedPath)
    (har : Unnested cfg.acceptedPath cfg.rejectedPath) (hn : normalizeSha sha = some n)
    (hw : Standing cfg w n row p b)
    (hk : k < ((cmd.flow env cfg sha reason actor).trace (handle env) w).length)
    (hmid : ¬ MidMove p ((cmd.flow env cfg sha reason actor).executed (handle env) k w)) :
    Before p w ((cmd.flow env cfg sha reason actor).executed (handle env) k w)
        ((cmd.flow env cfg sha reason actor).crash (handle env) k w) ∨
      (¬ NotTaken p ((cmd.flow env cfg sha reason actor).executed (handle env) k w) ∧
        ¬ Converges env cfg cmd sha reason actor n b w k) := by
  cases cmd with
  | accept =>
    rcases track_crash (track_dropped (track_acceptSha256 env reason actor hpa hn hw)) k hk with
      h | h | h
    · exact .inl h
    · exact absurd h hmid
    · exact .inr ⟨h.1, not_settles_gone hn hw h.2.1 h.2.2⟩
  | reject =>
    rcases track_crash (track_dropped (track_rejectSha256 env reason actor hn hw)) k hk with
      h | h | ⟨h, d, now, hd, hfile, hreg⟩
    · exact .inl h
    · exact .inr ⟨h.1, not_settles_gone hn hw h.2.1 h.2.2⟩
    · exact .inr ⟨h, fun hc => not_settles_half hn hpr har hw hd hfile hreg hc.1⟩

end Converges

/-- From a pending or accepted row with its file in place, where the command
succeeds whenever it is run, an uninterrupted run settles the row; a run after
a crash between two steps does so exactly when the file had not been moved. -/
theorem rerun_converges_iff (env : Env) (cfg : CoreConfig) (cmd : OperatorCommand) (sha : String)
    (reason : Option String) (actor n : String) (row : FileRecord) (p : Path) (b : Bytes)
    (w : World) (k : Nat) (hpa : Unnested cfg.pendingPath cfg.acceptedPath)
    (hpr : Unnested cfg.pendingPath cfg.rejectedPath)
    (har : Unnested cfg.acceptedPath cfg.rejectedPath) (hn : normalizeSha sha = some n)
    (hw : Standing cfg w n row p b)
    (hruns : ∀ t, Later w t → ((cmd.flow env cfg sha reason actor).run (handle env) t).1 = .ok ())
    (hk : k < ((cmd.flow env cfg sha reason actor).trace (handle env) w).length)
    (hmid : ¬ MidMove p ((cmd.flow env cfg sha reason actor).executed (handle env) k w)) :
    Settled cfg cmd.target n b ((cmd.flow env cfg sha reason actor).run (handle env) w).2 ∧
    (Converges env cfg cmd sha reason actor n b w k ↔
      NotTaken p ((cmd.flow env cfg sha reason actor).executed (handle env) k w)) := by
  refine ⟨run_settles hn hw (hruns w (.refl w)), ?_⟩
  rcases before_or_diverges hpa hpr har hn hw hk hmid with h | ⟨htaken, hnot⟩
  · refine ⟨fun _ => h.place, fun _ => ?_⟩
    have hok := hruns _ h.later
    exact ⟨hok, run_settles hn (hw.still h.still) hok⟩
  · exact ⟨fun hc => absurd hc hnot, fun hc => absurd hc htaken⟩

/-! ## An ingested photo -/

theorem standingWorld_standing :
    Standing sampleConfig standingWorld shaA standingRow ["lib", "pending", "2024", "01", "IMG.JPG"]
      [97] where
  pairs := by decide +kernel
  known := by decide +kernel
  path := rfl
  root := .inl ⟨rfl, by decide +kernel⟩
  file := by decide +kernel

/-- Where the clock stands still, a run does not depend on the time. -/
theorem run_later {ε α : Type} {env : Env} (hc : ∀ i j, env.clock i = env.clock j) :
    ∀ (pr : Prog Ops ε α) (w : World) (m : Nat),
      (pr.run (handle env) { w with ticks := m }).1 = (pr.run (handle env) w).1
  | .ret _, _, _ => rfl
  | .err _, _, _ => rfl
  | .op o k, w, m => by
    have hstep : (handle env o { w with ticks := m }).1 = (handle env o w).1 ∧
        Later (handle env o w).2 (handle env o { w with ticks := m }).2 := by
      cases o with
      | now | journalAppend => exact ⟨by simp only [handle, hc m w.ticks], m + 1, by
          simp only [handle, hc m w.ticks]⟩
      | getAcceptContext => exact ⟨by simp only [handle, hc m w.ticks], m + 1, rfl⟩
      | replace src dst =>
        simp only [handle]
        cases moveFile w.fs src dst <;> exact ⟨rfl, m, rfl⟩
      | copy2 src dst =>
        simp only [handle]
        cases copyFile w.fs src dst <;> exact ⟨rfl, m, rfl⟩
      | tx t =>
        simp only [handle, hc m w.ticks]
        cases t.apply w.reg (env.clock w.ticks).iso <;> exact ⟨rfl, m + 1, rfl⟩
      | _ => exact ⟨rfl, m, rfl⟩
    obtain ⟨hres, m', hlater⟩ := hstep
    rw [run_op, run_op, hres, hlater]
    exact run_later hc _ _ m'

theorem sample_unnested : Unnested sampleConfig.pendingPath sampleConfig.acceptedPath ∧
    Unnested sampleConfig.pendingPath sampleConfig.rejectedPath ∧
    Unnested sampleConfig.acceptedPath sampleConfig.rejectedPath := by
  refine ⟨?_, ?_, ?_⟩ <;> constructor <;> decide +kernel

/-- Interrupted before the move, the reject converges. -/
theorem rerun_converges_sample :
    Settled sampleConfig .rejected shaA [97] ((OperatorCommand.reject.flow sampleEnv sampleConfig
      shaA none "cli").run (handle sampleEnv) standingWorld).2 ∧
    (Converges sampleEnv sampleConfig .reject shaA none "cli" shaA [97] standingWorld 7 ↔
      NotTaken ["lib", "pending", "2024", "01", "IMG.JPG"]
        ((OperatorCommand.reject.flow sampleEnv sampleConfig shaA none "cli").executed
          (handle sampleEnv) 7 standingWorld)) := by
  obtain ⟨hok, hk, hcopy⟩ :
      ((OperatorCommand.reject.flow sampleEnv sampleConfig shaA none "cli").run (handle sampleEnv)
        standingWorld).1 = .ok () ∧
      7 < ((OperatorCommand.reject.flow sampleEnv sampleConfig shaA none "cli").trace
        (handle sampleEnv) standingWorld).length ∧
      ¬ ∃ e ∈ (OperatorCommand.reject.flow sampleEnv sampleConfig shaA none "cli").executed
        (handle sampleEnv) 7 standingWorld, e.op.copies = true := by
    decide +kernel
  refine rerun_converges_iff sampleEnv sampleConfig .reject shaA none "cli" shaA standingRow _ [97]
    standingWorld 7 sample_unnested.1 sample_unnested.2.1 sample_unnested.2.2 (by decide +kernel)
    standingWorld_standing ?_ hk fun hmid => hcopy hmid.1
  rintro t ⟨m, rfl⟩
  rw [run_later fun _ _ => rfl]
  exact hok

/-- Interrupted behind the move, the second reject succeeds and leaves the row
without its path. -/
theorem reject_rerun_diverges :
    Standing sampleConfig standingWorld shaA standingRow
      ["lib", "pending", "2024", "01", "IMG.JPG"] [97] ∧
    8 < ((OperatorCommand.reject.flow sampleEnv sampleConfig shaA none "cli").trace
      (handle sampleEnv) standingWorld).length ∧
    ¬ Converges sampleEnv sampleConfig .reject shaA none "cli" shaA [97] standingWorld 8 := by
  obtain ⟨hk, hrow⟩ :
      8 < ((OperatorCommand.reject.flow sampleEnv sampleConfig shaA none "cli").trace
        (handle sampleEnv) standingWorld).length ∧
      ((OperatorCommand.reject.flow sampleEnv sampleConfig shaA none "cli").run (handle sampleEnv)
        ((OperatorCommand.reject.flow sampleEnv sampleConfig shaA none "cli").crash
          (handle sampleEnv) 8 standingWorld)).2.reg.files.get shaA =
        some { standingRow with status := .rejected, currentPath := none } := by
    decide +kernel
  refine ⟨standingWorld_standing, hk, ?_⟩
  rintro ⟨-, hset⟩
  exact not_settled_of_null hrow rfl hset

end Nightfall
