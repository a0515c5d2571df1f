import Nightfall.L3Flows.Specs

/-!
# What each branch of `_process_one` ends in

One lemma per branch, from the state it starts in: the file that is gone or
moved, the row that is written, and the outcome.
-/
namespace Nightfall
open Nightfall.Core Storage Prog

variable {env : Env} {eng : Engine} {ps : IngestParams} {c : StagedCandidate} {w : World}
  {opId sha : String}

/-- The staged file is gone and no other file changed. -/
def Unstaged (c : StagedCandidate) (w w' : World) : Prop := w'.fs = w.fs.drop c.stagingPath

/-! ## Discards -/

theorem wp_discardPrefiltered {st : Status} {Q : Except Err IngestOutcome → World → Prop}
    (hQ : ∀ w', Unstaged c w w' → w'.reg.files = w.reg.files →
      Q (.ok (outcome c (.discard st) (some sha) none true)) w') :
    (discardPrefiltered c st sha).Wp (handle env) w Q := by
  unfold discardPrefiltered
  refine wp_bind.mpr (wp_unlink fun w₁ hfs₁ hreg₁ => ?_)
  refine wp_bind.mpr (wp_transact (fun r now w₂ hr hfs₂ hreg₂ => ?_) (fun _ _ _ h => nomatch h))
  cases hr
  refine wp_ret.mpr (hQ w₂ (hfs₂.trans hfs₁) ?_)
  rw [hreg₂, Registry.files_appendAuditEvent, hreg₁]

/-- The block rule forces the row to `rejected` without a path; the origin row
then refers to the row just written. -/
theorem wp_rejectBlocked {n : Nat} {rule : RuleType × String}
    {Q : Except Err IngestOutcome → World → Prop}
    (hQ : ∀ w' row, Unstaged c w w' → row.status = .rejected → row.currentPath = none →
      w'.reg.files = w.reg.files.put sha row →
      Q (.ok (outcome c (.discard .rejected) (some sha) none false)) w') :
    (rejectBlocked eng c opId n sha rule).Wp (handle env) w Q := by
  unfold rejectBlocked
  refine wp_bind.mpr (wp_unlink fun w₁ hfs₁ hreg₁ => ?_)
  refine wp_bind.mpr (wp_transact (fun r now w₂ hr hfs₂ hreg₂ => ?_) (fun _ _ _ h => nomatch h))
  obtain ⟨row, hst, hpath, hf⟩ := Registry.files_upsertFile w₁.reg sha n .rejected
    (some c.originalFilename) none now
  have hfiles₂ : w₂.reg.files = w.reg.files.put sha row := by
    cases hr; rw [hreg₂, ← hreg₁]; exact hf
  refine wp_bind.mpr (wp_transact (fun r now w₃ hr hfs₃ hreg₃ => ?_) (fun _ _ _ h => nomatch h))
  have hfiles₃ : w₃.reg.files = w.reg.files.put sha row := by
    cases hr; rw [hreg₃, Registry.files_upsertMetadataIndex, hfiles₂]
  refine wp_bind.mpr (wp_transact (fun r now w₄ hr hfs₄ hreg₄ => ?_) (fun e now w₄ he _ _ => ?_))
  · have hfiles₄ : w₄.reg.files = w.reg.files.put sha row := by
      rw [hreg₄, Registry.files_upsertFileOrigin hr, hfiles₃]
    refine wp_bind.mpr (wp_transact (fun r now w₅ hr hfs₅ hreg₅ => ?_)
      (fun _ _ _ h => nomatch h))
    refine wp_bind.mpr (wp_journalAppend fun w₆ h₆ => ?_)
    refine wp_ret.mpr (hQ w₆ row ?_ hst hpath ?_)
    · rw [Unstaged, h₆.fs, hfs₅, hfs₄, hfs₃, hfs₂, hfs₁]
    · cases hr
      rw [h₆.reg, hreg₅, Registry.files_appendAuditEvent, hfiles₄]
  · simp [Tx.apply, Registry.upsertFileOrigin, hfiles₃] at he

theorem wp_discardKnown {record : FileRecord} {b : Bytes}
    {Q : Except Err IngestOutcome → World → Prop} (hb : w.fs.get c.stagingPath = some b)
    (hrow : w.reg.files.get sha = some record)
    (hQ : ∀ w', Unstaged c w w' → w'.reg.files = w.reg.files →
      Q (.ok (outcome c (.discard record.status) (some sha) none false)) w') :
    (discardKnown eng c opId sha record).Wp (handle env) w Q := by
  unfold discardKnown
  refine wp_bind.mpr ((wp_statSize hb).mpr ?_)
  refine wp_bind.mpr (wp_unlink fun w₁ hfs₁ hreg₁ => ?_)
  refine wp_bind.mpr (wp_transact (fun r now w₂ hr hfs₂ hreg₂ => ?_) (fun e now w₂ he _ _ => ?_))
  · refine wp_bind.mpr (wp_journalAppend fun w₃ h₃ => ?_)
    refine wp_ret.mpr (hQ w₃ ?_ ?_)
    · rw [Unstaged, h₃.fs, hfs₂, hfs₁]
    · rw [h₃.reg, hreg₂, Registry.files_finalizeKnownIngest hr, hreg₁]
  · rw [← hreg₁] at hrow
    obtain ⟨r, hr⟩ := Registry.finalizeKnownIngest_ok record.status c.accountName c.onedriveId
      c.relativePath c.modifiedTime b.length pipelineActor now hrow
    rw [Tx.apply, hr] at he
    cases he

/-! ## The decision -/

theorem wp_matchBlockRule {filename : String}
    {Q : Except Err (Option (RuleType × String)) → World → Prop} :
    (matchBlockRule env filename).Wp (handle env) w Q ↔
      Q (.ok (w.reg.enabledBlockRules.find? (ruleMatches env filename))) w := by
  simp [matchBlockRule, enabledBlockRules, handle]

theorem wp_prefilterStatus {Q : Except Err (Option (Status × String)) → World → Prop} :
    (prefilterStatus c).Wp (handle env) w Q ↔
      Q (.ok (w.reg.prefilterStatus c.accountName c.onedriveId c.sizeBytes c.modifiedTime)) w := by
  simp [prefilterStatus, handle]

/-- The rule that blocks a candidate in a state. -/
def blockedBy (env : Env) (c : StagedCandidate) (w : World) : Option (RuleType × String) :=
  w.reg.enabledBlockRules.find? (ruleMatches env c.originalFilename)

/-- The prefilter's answer for a candidate in a state. -/
def prefiltered (c : StagedCandidate) (w : World) : Option (Status × String) :=
  w.reg.prefilterStatus c.accountName c.onedriveId c.sizeBytes c.modifiedTime

/-- From the hash on, one obligation for each branch. -/
theorem wp_decideByHash {n : Nat} {b : Bytes} {Q : Except Err IngestOutcome → World → Prop}
    (hb : w.fs.get c.stagingPath = some b)
    (hblock : ∀ w' rule, Still w w' → blockedBy env c w = some rule →
      (rejectBlocked eng c opId n (env.sha256 b) rule).Wp (handle env) w' Q)
    (hnew : ∀ w', Still w w' → blockedBy env c w = none →
      w.reg.files.get (env.sha256 b) = none →
      (ingestUnknown env eng ps c opId (env.sha256 b)).Wp (handle env) w' Q)
    (hknown : ∀ w' record, Still w w' → blockedBy env c w = none →
      w.reg.files.get (env.sha256 b) = some record →
      (discardKnown eng c opId (env.sha256 b) record).Wp (handle env) w' Q) :
    (decideByHash env eng ps c opId n).Wp (handle env) w Q := by
  unfold decideByHash
  refine wp_bind.mpr ((wp_sha256File hb).mpr ?_)
  refine wp_bind.mpr (wp_journalAppend fun w' hw => ?_)
  refine wp_bind.mpr (wp_matchBlockRule.mpr ?_)
  simp only [thenWp_ok]
  rw [show w'.reg.enabledBlockRules.find? (ruleMatches env c.originalFilename) =
    blockedBy env c w by rw [hw.reg]; rfl]
  cases hrule : blockedBy env c w with
  | some rule => exact hblock w' rule hw hrule
  | none =>
    refine wp_bind.mpr (wp_getFile.mpr ?_)
    simp only [thenWp_ok, hw.reg]
    cases hrow : w.reg.files.get (env.sha256 b) with
    | none => exact hnew w' hw hrule hrow
    | some record => exact hknown w' record hw hrule hrow

theorem wp_decideStaged {n : Nat} {Q : Except Err IngestOutcome → World → Prop}
    (hhit : ∀ st sha, prefiltered c w = some (st, sha) →
      (discardPrefiltered c st sha).Wp (handle env) w Q)
    (hmiss : prefiltered c w = none → (decideByHash env eng ps c opId n).Wp (handle env) w Q) :
    (decideStaged env eng ps c opId n).Wp (handle env) w Q := by
  unfold decideStaged
  refine wp_bind.mpr (wp_prefilterStatus.mpr ?_)
  simp only [thenWp_ok]
  cases hpre : prefiltered c w with
  | none => rw [prefiltered] at hpre; rw [hpre]; exact hmiss hpre
  | some hit =>
    obtain ⟨st, sha⟩ := hit
    rw [prefiltered] at hpre; rw [hpre]
    exact hhit st sha hpre

/-- The size checks let the staged bytes through to the prefilter. -/
def Admitted (ps : IngestParams) (c : StagedCandidate) (n : Nat) : Prop :=
  sizeMismatch ps c n = false ∧ (n = 0 → ps.zeroBytePolicy = .allow)

instance (ps : IngestParams) (c : StagedCandidate) (n : Nat) : Decidable (Admitted ps c n) := by
  unfold Admitted; infer_instance

/-- An admitted size takes none of the branches for empty files. -/
theorem Admitted.not_zero {n : Nat} (h : Admitted ps c n) (policy : ZeroBytePolicy)
    (hp : policy ≠ .allow) : ¬ (n = 0 ∧ ps.zeroBytePolicy = policy) := by
  rintro ⟨hzero, hpolicy⟩
  exact hp (hpolicy.symm.trans (h.2 hzero))

/-- What is reported of staged bytes the size checks do not let through. -/
def refusal (ps : IngestParams) (c : StagedCandidate) (n : Nat) : IngestAction :=
  if sizeMismatch ps c n then .sizeMismatch
  else if ps.zeroBytePolicy = .reject then .rejectZeroByte
  else .quarantineZeroByte

theorem refusal_ne_discard (n : Nat) (s : Status) : refusal ps c n ≠ .discard s := by
  unfold refusal
  split
  · simp
  · split <;> simp

/-- The quarantine never picks the file's own path. -/
theorem quarantine_ne {path dir : Path} {category mark : String} :
    Path.withName (dir ++ [category, path.name])
      (markedName (Path.name (dir ++ [category, path.name])) mark) ≠ path := by
  intro h
  have hname := congrArg Path.name h
  simp only [Path.withName, Path.name, List.getLast?_append, List.getLast?_singleton,
    List.getLast?_cons_cons, Option.some_or, Option.getD_some] at hname
  exact markedName_ne _ _ hname

/-- The quarantine either deletes the file or moves it below the directory. -/
theorem wp_handleQuarantineOrDelete {path : Path} {b : Bytes} {dir : Option Path}
    {category : String} {Q : Except Err Unit → World → Prop} (hb : w.fs.get path = some b)
    (hdelete : ∀ w', w'.fs = w.fs.drop path → w'.reg = w.reg → Q (.ok ()) w')
    (hmove : ∀ d target w', dir = some d → d <+: target → target ≠ path →
      w'.fs = (w.fs.drop path).put target b → w'.reg = w.reg → Q (.ok ()) w') :
    (handleQuarantineOrDelete path dir category).Wp (handle env) w Q := by
  unfold handleQuarantineOrDelete
  cases dir with
  | none => exact wp_unlink hdelete
  | some d =>
    refine wp_bind.mpr (wp_pathExists.mpr ?_)
    simp only [thenWp_ok]
    split
    · refine wp_bind.mpr (wp_utcNow.mpr ?_)
      refine wp_replaceFile (b := b) (by simpa using hb) fun w' hfs hreg => ?_
      refine hmove d _ w' rfl ?_ quarantine_ne hfs hreg
      exact (beside_withName _ _).within (by simp)
    · next hfree =>
      have hne : d ++ [category, path.name] ≠ path := by
        intro h
        rw [h, hb] at hfree
        exact hfree rfl
      exact wp_replaceFile hb fun w' hfs hreg =>
        hmove d _ w' rfl (List.prefix_append _ _) hne hfs hreg

/-- The whole call: the staged file is missing, an early check removes it or
moves it to quarantine, or the decision starts with the same files and tables. -/
theorem wp_processOne {Q : Except Err IngestOutcome → World → Prop}
    (hmissing : ∀ w', w.fs.get c.stagingPath = none → Still w w' →
      Q (.ok (outcome c .missingStaged none none false)) w')
    (hearly : ∀ b a w', w.fs.get c.stagingPath = some b → ¬ Admitted ps c b.length →
      a = refusal ps c b.length → w'.reg = w.reg → (Unstaged c w w' ∨ ∃ d target,
        ps.quarantineDir = some d ∧ d <+: target ∧ target ≠ c.stagingPath ∧
        w'.fs = (w.fs.drop c.stagingPath).put target b) →
      Q (.ok (outcome c a none none false)) w')
    (hdecide : ∀ b opId w', w.fs.get c.stagingPath = some b → Admitted ps c b.length →
      Still w w' → (decideStaged env eng ps c opId b.length).Wp (handle env) w' Q) :
    (processOne env eng ps c).Wp (handle env) w Q := by
  have hquar : ∀ (b : Bytes) (a : IngestAction) (category : String) (w' : World),
      w.fs.get c.stagingPath = some b → ¬ Admitted ps c b.length → a = refusal ps c b.length →
      Still w w' → (handleQuarantineOrDelete c.stagingPath ps.quarantineDir category >>= fun _ =>
        pure (outcome c a none none false)).Wp (handle env) w' Q := by
    intro b a category w' hb hadm ha hw
    refine wp_bind.mpr (wp_handleQuarantineOrDelete (b := b) (by rw [hw.fs, hb]) ?_ ?_)
    · intro w'' hfs hreg
      refine wp_ret.mpr (hearly b a w'' hb hadm ha (hreg.trans hw.reg) (.inl ?_))
      rw [Unstaged, hfs, hw.fs]
    · intro d target w'' hd ht hne hfs hreg
      refine wp_ret.mpr (hearly b a w'' hb hadm ha (hreg.trans hw.reg)
        (.inr ⟨d, target, hd, ht, hne, ?_⟩))
      rw [hfs, hw.fs]
  unfold processOne
  refine wp_bind.mpr (wp_op.mpr (wp_ret.mpr ?_))
  simp only [thenWp_ok]
  refine wp_bind.mpr (wp_journalAppend fun w₁ h₁ => ?_)
  have hw : Still w w₁ := ⟨h₁.fs, h₁.reg⟩
  refine wp_bind.mpr (wp_pathExists.mpr ?_)
  simp only [thenWp_ok, hw.fs]
  cases hb : w.fs.get c.stagingPath with
  | none => exact wp_bind.mpr (wp_journalAppend fun w₂ h₂ =>
      wp_ret.mpr (hmissing w₂ hb (hw.trans h₂)))
  | some b =>
    simp only [Option.isSome_some, if_true]
    refine wp_bind.mpr ((wp_statSize (by rw [hw.fs, hb])).mpr ?_)
    simp only [thenWp_ok]
    split
    · next hmis =>
      have hadm : ¬ Admitted ps c b.length := fun h => by rw [h.1] at hmis; cases hmis
      exact wp_bind.mpr (wp_journalAppend fun w₂ h₂ =>
        hquar b _ _ w₂ hb hadm (by simp [refusal, hmis]) (hw.trans h₂))
    · next hmis =>
      split
      · next hz =>
        have hadm : ¬ Admitted ps c b.length := fun h => by rw [h.2 hz.1] at hz; cases hz.2
        refine wp_bind.mpr (wp_unlink fun w₂ hfs hreg => wp_ret.mpr ?_)
        have href : refusal ps c b.length = .rejectZeroByte := by
          rw [refusal, if_neg hmis, if_pos hz.2]
        refine hearly b _ w₂ hb hadm href.symm (hreg.trans hw.reg) (.inl ?_)
        rw [Unstaged, hfs, hw.fs]
      · next hz =>
        split
        · next hq =>
          have hadm : ¬ Admitted ps c b.length := fun h => by rw [h.2 hq.1] at hq; cases hq.2
          have href : refusal ps c b.length = .quarantineZeroByte := by
            rw [refusal, if_neg hmis, if_neg (by simp [hq.2])]
          exact hquar b _ _ w₁ hb hadm href.symm hw
        · next hq =>
          refine hdecide b _ w₁ hb ⟨by simpa using hmis, fun h0 => ?_⟩ hw
          cases hp : ps.zeroBytePolicy with
          | allow => rfl
          | quarantine => exact absurd ⟨h0, hp⟩ hq
          | reject => exact absurd ⟨h0, hp⟩ hz

/-! ## The schedule -/

theorem mem_scheduled {sizeAware : Bool} {cs : List StagedCandidate} {c : Nat × StagedCandidate}
    (h : c ∈ scheduled sizeAware cs) : c.2 ∈ cs := by
  have hzip : c ∈ (List.range cs.length).zip cs := by
    unfold scheduled at h
    split at h
    · exact (List.mem_insertionSort _).mp h
    · exact h
  exact (List.of_mem_zip hzip).2

end Nightfall
