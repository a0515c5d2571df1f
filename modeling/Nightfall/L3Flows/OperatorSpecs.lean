import Nightfall.L3Flows.IngestSpecs

/-!
# What each operator flow ends in

Weakest-precondition lemmas for the moves and transactions of `reject.py`, from
any state: the branch taken, the file moved, the row written.
-/
namespace Nightfall
open Nightfall.Core Storage Prog

variable {env : Env} {cfg : CoreConfig} {w : World} {sha : String}

/-- `p` lies strictly below `root`. -/
def Under (root p : Path) : Prop := ∃ rel, rel ≠ [] ∧ p = root ++ rel

theorem Under.within {root p : Path} (h : Under root p) : root <+: p := by
  obtain ⟨rel, -, rfl⟩ := h
  exact List.prefix_append _ _

theorem Beside.under {root rel d : Path} (hrel : rel ≠ []) (h : Beside (root ++ rel) d) :
    Under root d := by
  obtain ⟨n, rfl⟩ := h
  refine ⟨rel.dropLast ++ [n], by simp, ?_⟩
  rw [List.dropLast_append_of_ne_nil hrel, List.append_assoc]

/-- The file at `src` now stands at `dst` and nothing else changed. -/
def Moved (src dst : Path) (b : Bytes) (w w' : World) : Prop :=
  w.fs.get src = some b ∧ w'.fs = (w.fs.drop src).put dst b

theorem Moved.get_dst {src dst : Path} {b : Bytes} {w w' : World} (h : Moved src dst b w w') :
    w'.fs.get dst = some b := by
  rw [h.2]; exact Table.get_put_self _ _ _

/-- A free destination is different from every file there is, so the others
stay. -/
theorem Moved.get_of_ne {src dst p : Path} {b : Bytes} {w w' : World} (h : Moved src dst b w w')
    (hd : p ≠ dst) (hs : p ≠ src) : w'.fs.get p = w.fs.get p := by
  rw [h.2, Table.get_put, if_neg hd, Table.get_drop, if_neg hs]

/-! ## The unknown branch of ingest, in rename mode -/

/-- Either it fails with every file and row as before, or the staged file has
moved to a free path below the pending root and the row says so. -/
theorem wp_ingestUnknown {eng : Engine} {ps : IngestParams} {c : StagedCandidate} {opId : String}
    {Q : Except Err IngestOutcome → World → Prop} (hmode : ps.stagingOnSamePool = true)
    (ht : namesFile ps.storageTemplate = true) (hs : IsSha sha)
    (hok : ∀ d b row w', w.fs.get d = none → Under ps.pendingRoot d →
      Moved c.stagingPath d b w w' → row.status = .pending → row.currentPath = some d →
      w'.reg.files = w.reg.files.put sha row →
      Q (.ok (outcome c .pending (some sha) (some d) false)) w')
    (herr : ∀ e w', Still w w' → Q (.error e) w') :
    (ingestUnknown env eng ps c opId sha).Wp (handle env) w Q := by
  unfold ingestUnknown
  rw [hmode]
  refine wp_bind.mpr (wp_renderRelativePath ht hs (fun rel w₁ h₁ hrel => ?_) fun e w₁ h₁ =>
    herr e w₁ h₁)
  refine wp_bind.mpr (wp_choose (by simp [hrel]) (fun d hfree hd => ?_) fun e => herr e w₁ h₁)
  refine wp_bind.mpr (wp_commit_rename (fun b r w₂ hb hfs₂ hreg₂ => ?_) fun e => herr e w₁ h₁)
  refine wp_bind.mpr (wp_journalAppend fun w₃ h₃ => ?_)
  have hmoved : Moved c.stagingPath d b w w₃ := by
    rw [h₁.fs] at hb hfs₂
    exact ⟨hb, by rw [h₃.fs, hfs₂]⟩
  refine wp_bind.mpr ((wp_statSize hmoved.get_dst).mpr ?_)
  refine wp_bind.mpr (wp_transact (fun r now w₄ hr hfs₄ hreg₄ => ?_) (fun e now w₄ he _ _ => ?_))
  · refine wp_bind.mpr (wp_journalAppend fun w₅ h₅ => wp_ret.mpr ?_)
    obtain ⟨row, hst, hpath, hf⟩ := Registry.files_finalizeUnknownIngest hr
    refine hok d b row w₅ (by rw [← h₁.fs]; exact hfree) (hd.under hrel) ⟨hmoved.1, ?_⟩ hst
      hpath ?_
    · rw [h₅.fs, hfs₄, hmoved.2]
    · rw [h₅.reg, hreg₄, hf, h₃.reg, hreg₂, h₁.reg]
  · obtain ⟨r, hr⟩ := Registry.finalizeUnknownIngest_ok w₃.reg sha b.length c.originalFilename d
      c.accountName c.onedriveId c.relativePath c.modifiedTime pipelineActor now
    rw [Tx.apply, hr] at he
    cases he

/-! ## Moves into the rejected root -/

/-- No source file: nothing happens. Otherwise the file moves to a free path
below the rejected root, or the flow fails before the move. -/
theorem wp_movePhysicalToRejected {source : Option Path} {name : Option String} {mt : String}
    {Q : Except Err (Option Path) → World → Prop} (hs : IsSha sha)
    (hnone : source.bind w.fs.get = none → Q (.ok none) w)
    (hmove : ∀ s d b w', source = some s → w.fs.get d = none → Under cfg.rejectedPath d →
      Moved s d b w w' → w'.reg = w.reg → Q (.ok (some d)) w')
    (herr : ∀ e w', Still w w' → Q (.error e) w') :
    (movePhysicalToRejected env cfg source sha name mt).Wp (handle env) w Q := by
  unfold movePhysicalToRejected
  cases source with
  | none => exact wp_ret.mpr (hnone rfl)
  | some s =>
    refine wp_bind.mpr (wp_pathExists.mpr ?_)
    simp only [thenWp_ok]
    cases hb : w.fs.get s with
    | none => exact wp_ret.mpr (hnone hb)
    | some b =>
      refine wp_bind.mpr (wp_renderRelativePath cfg.storage_named hs (fun rel w₁ h₁ hrel => ?_)
        herr)
      refine wp_bind.mpr (wp_choose (by simp [hrel]) (fun d hfree hd => ?_)
        fun e => herr e w₁ h₁)
      refine wp_bind.mpr (wp_replaceFile (b := b) (by rw [h₁.fs, hb]) fun w₂ hfs₂ hreg₂ =>
        wp_ret.mpr ?_)
      refine hmove s d b w₂ rfl (by rw [← h₁.fs]; exact hfree) (hd.under hrel) ⟨hb, ?_⟩
        (hreg₂.trans h₁.reg)
      rw [hfs₂, h₁.fs]

/-- The four ends of `_move_to_rejected_folder` for a row that exists. -/
theorem wp_moveToRejectedFolder {row : FileRecord} {Q : Except Err (List Path) → World → Prop}
    (hs : IsSha sha) (hrow : w.reg.files.get sha = some row)
    (hnull : row.currentPath = none → Q (.ok []) w)
    (hgone : ∀ p w' now, row.currentPath = some p → w.fs.get p = none → w'.fs = w.fs →
      w'.reg = w.reg.clearCurrentPath sha now → Q (.ok []) w')
    (hmove : ∀ p d b w' now, row.currentPath = some p →
      (withinRoot p cfg.pendingPath || withinRoot p cfg.acceptedPath) = true →
      w.fs.get d = none → Under cfg.rejectedPath d → Moved p d b w w' →
      w'.reg = w.reg.updateCurrentPath sha d now → Q (.ok [p]) w')
    (herr : ∀ e w', Still w w' → Q (.error e) w') :
    (moveToRejectedFolder env cfg sha).Wp (handle env) w Q := by
  unfold moveToRejectedFolder
  refine wp_bind.mpr (wp_getFile.mpr ?_)
  simp only [thenWp_ok, hrow]
  cases hp : row.currentPath with
  | none => exact wp_ret.mpr (hnull hp)
  | some p =>
    refine wp_bind.mpr (wp_pathExists.mpr ?_)
    simp only [thenWp_ok]
    cases hb : w.fs.get p with
    | none =>
      refine wp_bind.mpr (wp_transact (fun r now w₁ hr hfs hreg => wp_ret.mpr ?_)
        (fun _ _ _ h => nomatch h))
      cases hr
      exact hgone p w₁ now hp hb hfs hreg
    | some b =>
      simp only [Option.isSome_some, if_true]
      split
      · exact wp_err.mpr (herr _ w (.refl w))
      · next hin =>
        have hin' : (withinRoot p cfg.pendingPath || withinRoot p cfg.acceptedPath) = true := by
          revert hin
          cases withinRoot p cfg.pendingPath <;> simp
        refine wp_bind.mpr (wp_quiet (calls_rejectModifiedTime ⟨rfl, rfl⟩ ⟨rfl, rfl⟩)
          fun r w₁ h₁ => ?_)
        cases r with
        | error e => exact herr e w₁ h₁
        | ok mt =>
          refine wp_bind.mpr (wp_movePhysicalToRejected hs (fun hnone => ?_)
            (fun s d b' w₂ hsrc hfree hd hm hreg₂ => ?_) fun e w₂ h₂ => herr e w₂ (h₁.trans h₂))
          · simp [h₁.fs, hb] at hnone
          · cases hsrc
            refine wp_bind.mpr (wp_transact (fun r now w₃ hr hfs₃ hreg₃ => wp_ret.mpr ?_)
              (fun _ _ _ h => nomatch h))
            cases hr
            refine hmove p d b' w₃ now hp hin'
              (by rw [← h₁.fs]; exact hfree) hd ?_ ?_
            · exact ⟨by rw [← h₁.fs]; exact hm.1, by rw [hfs₃, hm.2, h₁.fs]⟩
            · rw [hreg₃, hreg₂, h₁.reg]

/-! ## Accept and purge -/

theorem normalizeSha_isSha {n : String} (h : normalizeSha sha = some n) : IsSha n := by
  unfold normalizeSha at h
  simp only at h
  split at h
  · next hc =>
    cases h
    exact ⟨by simpa using hc.1, by simpa using hc.2⟩
  · cases h

theorem wp_withNormalizedSha {α : Type} {f : String → Flow α} {Q : Except Err α → World → Prop}
    (herr : ∀ e, Q (.error e) w)
    (hok : ∀ n, normalizeSha sha = some n → (f n).Wp (handle env) w Q) :
    (withNormalizedSha sha f).Wp (handle env) w Q := by
  unfold withNormalizedSha
  split
  · exact wp_err.mpr (herr _)
  · next n hn => exact hok n hn

theorem wp_areOnSameFilesystem {a b : Path} {Q : Except Err Bool → World → Prop} :
    (areOnSameFilesystem a b).Wp (handle env) w Q ↔
      Q (.ok (env.device a.dropLast == env.device b)) w := by
  simp [areOnSameFilesystem, handle]

theorem wp_getAcceptContext {Q : Except Err (Option Registry.AcceptContext) → World → Prop}
    (hQ : ∀ ctx w', Still w w' → Q (.ok ctx) w') :
    (getAcceptContext sha).Wp (handle env) w Q := by
  simp only [getAcceptContext, wp_op, wp_ret]
  exact hQ _ _ ⟨rfl, rfl⟩

/-- An accept up to its commit: whatever fails before leaves files and tables
alone. -/
theorem wp_acceptSha256_commit {reason : Option String} {actor : String}
    {Q : Except Err AcceptResult → World → Prop}
    (hcommit : ∀ n row (ctx : Registry.AcceptContext) p d w₁, normalizeSha sha = some n →
      w.reg.files.get n = some row →
      row.status = .pending → row.currentPath = some p → withinRoot p cfg.pendingPath = true →
      w.fs.get d = none → Under cfg.acceptedPath d → Still w w₁ →
      (commitPendingToAccepted p d (env.device p.dropLast == env.device d.dropLast)
          (some cfg.acceptedPath) >>= fun _ =>
        transact (.finalizeAcceptFromPending n d ctx.account ctx.sourcePath actor
          (textOr reason "operator_accept")) >>= fun _ =>
        (pure ⟨n, d⟩ : Flow AcceptResult)).Wp (handle env) w₁ Q)
    (herr : ∀ e w', Still w w' → Q (.error e) w') :
    (acceptSha256 env cfg sha reason actor).Wp (handle env) w Q := by
  unfold acceptSha256
  refine wp_withNormalizedSha (fun e => herr e w (.refl w)) fun n hn => ?_
  refine wp_bind.mpr (wp_getAcceptContext fun ctx w₁ h₁ => ?_)
  cases ctx with
  | none => exact wp_err.mpr (herr _ w₁ h₁)
  | some ctx =>
    refine wp_bind.mpr (wp_getFile.mpr ?_)
    simp only [thenWp_ok, h₁.reg]
    cases hrow : w.reg.files.get n with
    | none => exact wp_err.mpr (herr _ w₁ h₁)
    | some row =>
      simp only
      split
      · exact wp_err.mpr (herr _ w₁ h₁)
      · next hst =>
        cases hp : row.currentPath with
        | none => exact wp_err.mpr (herr _ w₁ h₁)
        | some p =>
          simp only [acceptFrom]
          split
          · next hin =>
            refine wp_bind.mpr (wp_renderRelativePath cfg.accepted_named (normalizeSha_isSha hn)
              (fun rel w₂ h₂ hrel => ?_) fun e w₂ h₂ => herr e w₂ (h₁.trans h₂))
            have hw := h₁.trans h₂
            refine wp_bind.mpr (wp_choose (by simp [hrel]) (fun d hfree hd => ?_)
              fun e => herr e w₂ hw)
            refine wp_bind.mpr (wp_areOnSameFilesystem.mpr ?_)
            exact hcommit n row ctx p d w₂ hn hrow (not_not.mp hst) hp hin
              (by rw [← hw.fs]; exact hfree) (hd.under hrel) hw
          · exact wp_err.mpr (herr _ w₁ h₁)

/-- The transaction that ends an accept, on a row that is still pending. -/
theorem wp_finalizeAccept {n account src actor reason : String} {row : FileRecord} {d : Path}
    {Q : Except Err AcceptResult → World → Prop} (hrow : w.reg.files.get n = some row)
    (hst : row.status = .pending)
    (hQ : ∀ row' w', row'.status = .accepted → row'.currentPath = some d → w'.fs = w.fs →
      w'.reg.files = w.reg.files.put n row' → Q (.ok ⟨n, d⟩) w') :
    (transact (.finalizeAcceptFromPending n d account src actor reason) >>= fun _ =>
      (pure ⟨n, d⟩ : Flow AcceptResult)).Wp (handle env) w Q := by
  refine wp_bind.mpr (wp_transact (fun r now w' hr hfs hreg => wp_ret.mpr ?_)
    (fun e now w' he _ _ => ?_))
  · obtain ⟨old, -, -, hf⟩ := Registry.files_finalizeAcceptFromPending hr
    exact hQ _ w' rfl rfl hfs (by rw [hreg, hf])
  · obtain ⟨r, hr⟩ := Registry.finalizeAcceptFromPending_ok d account src actor reason now hrow hst
    rw [Tx.apply, hr] at he
    cases he

/-- On one filesystem an accept is one move and one transaction; whatever fails
fails before the move. -/
theorem wp_acceptSha256 {reason : Option String} {actor : String}
    {Q : Except Err AcceptResult → World → Prop}
    (hdev : ∀ n row p q, w.reg.files.get n = some row → row.status = .pending →
      row.currentPath = some p → Under cfg.acceptedPath q →
      env.device p.dropLast = env.device q.dropLast)
    (hok : ∀ n row row' p d b w', normalizeSha sha = some n → w.reg.files.get n = some row →
      row.status = .pending → row.currentPath = some p → withinRoot p cfg.pendingPath = true →
      w.fs.get d = none → Under cfg.acceptedPath d → Moved p d b w w' →
      row'.status = .accepted → row'.currentPath = some d →
      w'.reg.files = w.reg.files.put n row' → Q (.ok ⟨n, d⟩) w')
    (herr : ∀ e w', Still w w' → Q (.error e) w') :
    (acceptSha256 env cfg sha reason actor).Wp (handle env) w Q := by
  refine wp_acceptSha256_commit (fun n row ctx p d w₁ hn hrow hst hp hin hfree hd hw => ?_) herr
  simp only [hdev n row p d hrow hst hp hd, beq_self_eq_true, commitPendingToAccepted]
  refine wp_bind.mpr (wp_commit_rename (fun b r w₂ hb hfs₂ hreg₂ => ?_) fun e => herr e w₁ hw)
  refine wp_finalizeAccept (by rw [hreg₂, hw.reg, hrow]) hst fun row' w₃ hst' hpath' hfs₃ hf => ?_
  rw [hw.fs] at hb hfs₂
  refine hok n row row' p d b w₃ hn hrow hst hp hin hfree hd ⟨hb, hfs₃.trans hfs₂⟩ hst' hpath' ?_
  rw [hf, hreg₂, hw.reg]

/-- What a purge asks of the row: it is rejected, and its path, if it has one, is
below the rejected root. -/
def PurgeReady (cfg : CoreConfig) (w : World) (sha : String) : Prop :=
  ∃ n row, normalizeSha sha = some n ∧ w.reg.files.get n = some row ∧ row.status = .rejected ∧
    ∀ p, row.currentPath = some p → withinRoot p cfg.rejectedPath = true

/-- A purge removes the file of the row, if it is there, and tombstones the row;
it fails, before it does anything, exactly on the other rows. -/
theorem wp_purgeSha256_iff {reason : Option String} {actor : String}
    {Q : Except Err PurgeResult → World → Prop}
    (hok : ∀ n row row' r w', normalizeSha sha = some n → w.reg.files.get n = some row →
      row.status = .rejected → (w'.fs = w.fs ∧ row.currentPath.bind w.fs.get = none ∨
        ∃ p, row.currentPath = some p ∧ withinRoot p cfg.rejectedPath = true ∧
          w'.fs = w.fs.drop p) →
      row'.status = .purged → row'.currentPath = none →
      w'.reg.files = w.reg.files.put n row' → Q (.ok r) w')
    (herr : ∀ e, ¬ PurgeReady cfg w sha → Q (.error e) w) :
    (purgeSha256 cfg sha reason actor).Wp (handle env) w Q := by
  unfold purgeSha256 withNormalizedSha
  cases hn : normalizeSha sha with
  | none => exact wp_err.mpr (herr _ fun ⟨n, _, hn', _⟩ => by rw [hn] at hn'; cases hn')
  | some n =>
    refine wp_bind.mpr (wp_getFile.mpr ?_)
    simp only [thenWp_ok]
    -- the row a ready purge would have found is the one of `n`
    have hready : PurgeReady cfg w sha → ∃ row, w.reg.files.get n = some row ∧
        row.status = .rejected ∧
        ∀ p, row.currentPath = some p → withinRoot p cfg.rejectedPath = true := by
      rintro ⟨n', row, hn', hrow⟩
      rw [hn] at hn'
      cases hn'
      exact ⟨row, hrow⟩
    cases hrow : w.reg.files.get n with
    | none =>
      refine wp_err.mpr (herr _ fun h => ?_)
      obtain ⟨row, hrow', -⟩ := hready h
      rw [hrow] at hrow'
      cases hrow'
    | some row =>
      simp only
      split
      · next hst =>
        refine wp_err.mpr (herr _ fun h => ?_)
        obtain ⟨row', hrow', hst', -⟩ := hready h
        rw [hrow] at hrow'
        cases hrow'
        exact hst hst'
      · next hst =>
        have hrej : row.status = .rejected := not_not.mp hst
        -- the transaction behind the unlink, whatever it removed
        have hfin : ∀ (purged : Option Path) (w₁ : World), w₁.reg = w.reg →
            (w₁.fs = w.fs ∧ row.currentPath.bind w.fs.get = none ∨
              ∃ p, row.currentPath = some p ∧ withinRoot p cfg.rejectedPath = true ∧
                w₁.fs = w.fs.drop p) →
            (transactOrReject (.finalizePurgeFromRejected n (textOr reason "cli_purge") actor) >>=
              fun _ => (pure ⟨n, purged⟩ : Flow PurgeResult)).Wp (handle env) w₁ Q := by
          intro purged w₁ hreg₁ hfs₁
          refine wp_bind.mpr (wp_transactOrReject (fun r now w₂ hr hfs₂ hreg₂ => wp_ret.mpr ?_)
            (fun e e' now w₂ he _ _ => ?_))
          · obtain ⟨row', hst', hpath', hf⟩ : ∃ row', row'.status = .purged ∧
                row'.currentPath = none ∧ r.files = w₁.reg.files.put n row' := by
              obtain ⟨old, -, -, hf⟩ := Registry.files_finalizePurgeFromRejected hr
              exact ⟨_, rfl, rfl, hf⟩
            refine hok n row row' _ w₂ hn hrow hrej ?_ hst' hpath' (by rw [hreg₂, hf, hreg₁])
            rw [hfs₂]
            exact hfs₁
          · simp [Tx.apply, Registry.finalizePurgeFromRejected, hreg₁, hrow, hrej] at he
        refine wp_bind.mpr ?_
        simp only [purgeFile]
        split
        · next hnull => exact wp_ret.mpr (hfin none w rfl (.inl ⟨rfl, by simp [hnull]⟩))
        · next p hp =>
          split
          · next hin =>
            refine wp_bind.mpr (wp_pathExists.mpr ?_)
            simp only [thenWp_ok]
            split
            · exact wp_bind.mpr (wp_unlink fun w₁ hfs hreg =>
                wp_ret.mpr (hfin _ w₁ hreg (.inr ⟨p, hp, hin, hfs⟩)))
            · next hgone =>
              exact wp_ret.mpr (hfin none w rfl (.inl ⟨rfl, by simpa [hp] using hgone⟩))
          · next hout =>
            refine wp_err.mpr (herr _ fun h => ?_)
            obtain ⟨row', hrow', -, hin⟩ := hready h
            rw [hrow] at hrow'
            cases hrow'
            exact hout (hin p hp)

/-- The same, for callers that do not ask when it fails. -/
theorem wp_purgeSha256 {reason : Option String} {actor : String}
    {Q : Except Err PurgeResult → World → Prop}
    (hok : ∀ n row row' r w', normalizeSha sha = some n → w.reg.files.get n = some row →
      row.status = .rejected → (w'.fs = w.fs ∨ ∃ p, row.currentPath = some p ∧
        withinRoot p cfg.rejectedPath = true ∧ w'.fs = w.fs.drop p) →
      row'.status = .purged → row'.currentPath = none →
      w'.reg.files = w.reg.files.put n row' → Q (.ok r) w')
    (herr : ∀ e w', Still w w' → Q (.error e) w') :
    (purgeSha256 cfg sha reason actor).Wp (handle env) w Q :=
  wp_purgeSha256_iff (fun n row row' r w' hn hrow hst hfs => hok n row row' r w' hn hrow hst
    (hfs.imp_left And.left)) fun e _ => herr e w (.refl w)

/-! ## The reject flow without pairs -/

theorem wp_getLivePhotoPairForMember {Q : Except Err (Option LivePhotoPairRecord) → World → Prop}
    (hpairs : w.reg.livePhotoPairs = []) (hQ : Q (.ok none) w) :
    (getLivePhotoPairForMember sha).Wp (handle env) w Q := by
  simp only [getLivePhotoPairForMember, wp_op, wp_ret, handle, Registry.getLivePhotoPairForMember,
    hpairs]
  exact hQ

/-- An unknown hash: the incoming file, if there is one, moves to the rejected
root and the new row points at it. -/
theorem wp_rejectUnknown {reason actor : String} {name : Option String} {size : Nat}
    {incoming : Option Path} {Q : Except Err RejectResult → World → Prop} (hs : IsSha sha)
    (hnone : ∀ row w', incoming.bind w.fs.get = none → row.status = .rejected →
      row.currentPath = none → w'.fs = w.fs → w'.reg.files = w.reg.files.put sha row →
      w'.reg.livePhotoPairs = w.reg.livePhotoPairs →
      Q (.ok ⟨sha, .rejectedUnknown, []⟩) w')
    (hmove : ∀ s d b row w', incoming = some s → w.fs.get d = none → Under cfg.rejectedPath d →
      Moved s d b w w' → row.status = .rejected → row.currentPath = some d →
      w'.reg.files = w.reg.files.put sha row → w'.reg.livePhotoPairs = w.reg.livePhotoPairs →
      Q (.ok ⟨sha, .rejectedUnknown, []⟩) w')
    (herr : ∀ e w', Still w w' → Q (.error e) w') :
    (rejectUnknown env cfg sha reason actor name size incoming).Wp (handle env) w Q := by
  -- the two transactions behind the move, whatever it answered
  have hwrite : ∀ (retained : Option Path) (w₁ : World), w₁.reg = w.reg →
      (∀ row w', row.status = .rejected → row.currentPath = retained → w'.fs = w₁.fs →
        w'.reg.files = w.reg.files.put sha row → w'.reg.livePhotoPairs = w.reg.livePhotoPairs →
        Q (.ok ⟨sha, .rejectedUnknown, []⟩) w') →
      (transact (.createOrUpdateFile sha size .rejected name retained) >>= fun _ =>
        transact (.appendAuditEvent (some sha) (.status .rejected) reason actor) >>= fun _ =>
          (pure ⟨sha, .rejectedUnknown, []⟩ : Flow RejectResult)).Wp (handle env) w₁ Q := by
    intro retained w₁ hreg₁ hQ
    refine wp_bind.mpr (wp_transact (fun r now w₂ hr hfs₂ hreg₂ => ?_) (fun _ _ _ h => nomatch h))
    refine wp_bind.mpr (wp_transact (fun r' now' w₃ hr' hfs₃ hreg₃ => wp_ret.mpr ?_)
      (fun _ _ _ h => nomatch h))
    obtain ⟨row, hst, hpath, hf⟩ := Registry.files_upsertFile w₁.reg sha size .rejected name
      retained now
    cases hr; cases hr'
    refine hQ row w₃ hst hpath (hfs₃.trans hfs₂) ?_ ?_
    · rw [hreg₃, Registry.files_appendAuditEvent, hreg₂, ← hreg₁]; exact hf
    · rw [hreg₃, hreg₂, ← hreg₁]; rfl
  unfold rejectUnknown
  refine wp_bind.mpr (wp_utcNow.mpr ?_)
  simp only [thenWp_ok]
  refine wp_bind.mpr (wp_movePhysicalToRejected hs (fun hno => ?_)
    (fun s d b w₂ hsrc hfree hd hm hreg₂ => ?_) fun e w₂ h₂ => herr e w₂ ⟨h₂.fs, h₂.reg⟩)
  · exact hwrite none _ rfl fun row w' hst hpath hfs hf hp => hnone row w' hno hst hpath hfs hf hp
  · exact hwrite (some d) w₂ hreg₂ fun row w' hst hpath hfs hf hp =>
      hmove s d b row w' hsrc hfree hd ⟨hm.1, hfs.trans hm.2⟩ hst hpath hf hp

/-- Without pairs `_apply_reject` has these ends. -/
theorem wp_applyReject {reason actor : String} {name : Option String} {size : Nat}
    {incoming : Option Path} {Q : Except Err RejectResult → World → Prop} (hs : IsSha sha)
    (hpairs : w.reg.livePhotoPairs = [])
    (hunknown : w.reg.files.get sha = none →
      (rejectUnknown env cfg sha reason actor name size incoming).Wp (handle env) w Q)
    (hnoop : ∀ row w', w.reg.files.get sha = some row → row.status = .rejected → w'.fs = w.fs →
      w'.reg.files = w.reg.files → w'.reg.livePhotoPairs = w.reg.livePhotoPairs →
      Q (.ok ⟨sha, .rejectNoopAlreadyRejected, []⟩) w')
    (hstay : ∀ row row' w', w.reg.files.get sha = some row → row.status ≠ .rejected →
      row.currentPath.bind w.fs.get = none → row'.status = .rejected → row'.currentPath = none →
      w'.fs = w.fs → w'.reg.files.get sha = some row' →
      (∀ k, k ≠ sha → w'.reg.files.get k = w.reg.files.get k) →
      w'.reg.livePhotoPairs = w.reg.livePhotoPairs →
      Q (.ok ⟨sha, .rejectedExisting, []⟩) w')
    (hmove : ∀ row row' p d b w', w.reg.files.get sha = some row → row.status ≠ .rejected →
      row.currentPath = some p →
      (withinRoot p cfg.pendingPath || withinRoot p cfg.acceptedPath) = true →
      w.fs.get d = none → Under cfg.rejectedPath d → Moved p d b w w' →
      row'.status = .rejected → row'.currentPath = some d → w'.reg.files.get sha = some row' →
      (∀ k, k ≠ sha → w'.reg.files.get k = w.reg.files.get k) →
      w'.reg.livePhotoPairs = w.reg.livePhotoPairs →
      Q (.ok ⟨sha, .rejectedExisting, [p]⟩) w')
    (herr : ∀ e w', Still w w' → Q (.error e) w') :
    (applyReject env cfg sha reason actor name size incoming).Wp (handle env) w Q := by
  unfold applyReject
  refine wp_bind.mpr (wp_getFile.mpr ?_)
  simp only [thenWp_ok]
  cases hrow : w.reg.files.get sha with
  | none => exact hunknown hrow
  | some row =>
    refine wp_bind.mpr (wp_getLivePhotoPairForMember hpairs ?_)
    simp only [thenWp_ok, rejectKnown]
    split
    · next hst =>
      refine wp_bind.mpr (wp_transact (fun r now w₁ hr hfs hreg => wp_ret.mpr ?_)
        (fun _ _ _ h => nomatch h))
      cases hr
      exact hnoop row w₁ hrow hst hfs (by rw [hreg]; rfl) (by rw [hreg]; rfl)
    · next hst =>
      -- the status transaction behind the move
      have htrans : ∀ (removed : List Path) (w₁ : World) (row₁ : FileRecord),
          w₁.reg.files.get sha = some row₁ → (∀ row' w', row'.status = .rejected →
            row'.currentPath = row₁.currentPath → w'.fs = w₁.fs →
            w'.reg.files = w₁.reg.files.put sha row' →
            w'.reg.livePhotoPairs = w₁.reg.livePhotoPairs →
            Q (.ok ⟨sha, .rejectedExisting, removed.eraseDups⟩) w') →
          (transactOrReject (.transitionStatus sha .rejected reason actor) >>= fun _ =>
            (pure ⟨sha, .rejectedExisting, removed.eraseDups⟩ : Flow RejectResult)).Wp
              (handle env) w₁ Q := by
        intro removed w₁ row₁ hrow₁ hQ
        refine wp_bind.mpr (wp_transactOrReject (fun r now w₂ hr hfs hreg => wp_ret.mpr ?_)
          (fun e e' now w₂ he _ _ => ?_))
        · simp only [Tx.apply, Registry.transitionStatus, hrow₁] at hr
          cases hr
          refine hQ { row₁ with status := .rejected, updatedAt := now } w₂ rfl rfl hfs ?_ ?_
          · rw [hreg]; rfl
          · rw [hreg]; rfl
        · simp [Tx.apply, Registry.transitionStatus, hrow₁] at he
      refine wp_bind.mpr (wp_moveToRejectedFolder hs hrow (fun hnull => ?_)
        (fun p w₁ now hp hgone hfs₁ hreg₁ => ?_)
        (fun p d b w₁ now hp hin hfree hd hm hreg₁ => ?_) herr)
      · refine htrans [] w row hrow fun row' w' hst' hpath' hfs hf hpr => ?_
        refine hstay row row' w' hrow hst (by simp [hnull]) hst' (by rw [hpath', hnull]) hfs
          (by rw [hf]; exact Table.get_put_self _ _ _) (fun k hk => ?_) hpr
        rw [hf, Table.get_put, if_neg hk]
      · have hrow₁ : w₁.reg.files.get sha =
            some { row with currentPath := none, updatedAt := now } := by
          rw [hreg₁, Registry.files_clearCurrentPath, Table.get_modify, if_pos rfl, hrow]; rfl
        refine htrans [] w₁ _ hrow₁ fun row' w' hst' hpath' hfs hf hpr => ?_
        refine hstay row row' w' hrow hst (by simp [hp, hgone]) hst' hpath' (hfs.trans hfs₁)
          (by rw [hf]; exact Table.get_put_self _ _ _) (fun k hk => ?_) ?_
        · rw [hf, Table.get_put, if_neg hk, hreg₁, Registry.files_clearCurrentPath,
            Table.get_modify, if_neg hk]
        · rw [hpr, hreg₁]; rfl
      · have hrow₁ : w₁.reg.files.get sha =
            some { row with currentPath := some d, updatedAt := now } := by
          rw [hreg₁, Registry.files_updateCurrentPath, Table.get_modify, if_pos rfl, hrow]; rfl
        refine htrans [p] w₁ _ hrow₁ fun row' w' hst' hpath' hfs hf hpr => ?_
        refine hmove row row' p d b w' hrow hst hp hin hfree hd ⟨hm.1, hfs.trans hm.2⟩ hst' hpath'
          (by rw [hf]; exact Table.get_put_self _ _ _) (fun k hk => ?_) ?_
        · rw [hf, Table.get_put, if_neg hk, hreg₁, Registry.files_updateCurrentPath,
            Table.get_modify, if_neg hk]
        · rw [hpr, hreg₁]; rfl

end Nightfall
