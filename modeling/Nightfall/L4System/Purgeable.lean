import Nightfall.L4System.Acceptance
import Nightfall.L4System.Encoding
import Nightfall.L4System.Queues

/-!
# Rejected content can be purged

`purge_sha256` removes the file of a rejected row, and refuses a row whose path
is not below the rejected root. The command line moves a file there before it
rejects the row; the web service writes the status alone, and a block rule that
matches content already filed drops the path and leaves the file. Where the row
cannot be written because of a lone surrogate, the file has moved already.

* `wp_processOne_filed`, `wp_acceptSha256_filed`, `wp_triageExecute_filed`: what
  each of them needs so that rows and files stay in step.
* `purgeable_of_filed`: in such a state every rejected row can be purged.
* `rejected_purgeable`: in every run that meets those needs.
* `triage_reject_unpurgeable`: one web reject of a pending photo.
-/
namespace Nightfall
open Nightfall.Core Storage Prog

variable {env : Env} {cfg : CoreConfig} {w w' : World} {sha : String}

/-! ## Commits -/

/-- No file of the queues has the name of a temporary copy. -/
def NoPartials (cfg : CoreConfig) (w : World) : Prop :=
  ∀ p, InQueue cfg p → w.fs.get (p.addExt ".tmp") = none

/-- A rename, or a copy whose temporary name is free. -/
theorem wp_commit_relocated {source destination : Path} {same : Bool} {root : Option Path}
    {b : Bytes} {Q : Except Err CommitResult → World → Prop} (hb : w.fs.get source = some b)
    (hfree : w.fs.get destination = none)
    (htmp : same = true ∨ w.fs.get (destination.addExt ".tmp") = none)
    (hok : ∀ r w', Relocated source destination b w w' → w'.reg = w.reg → Q (.ok r) w')
    (herr : ∀ e, Q (.error e) w) :
    (commitStagingToAccepted source destination same root).Wp (handle env) w Q := by
  cases same with
  | true =>
    refine wp_commit_rename (fun b' r w' hb' hfs hreg => hok r w' ?_ hreg) herr
    obtain rfl : b' = b := Option.some.inj (hb'.symm.trans hb)
    exact Moved.relocated ⟨hb, hfs⟩
  | false =>
    have htmp : w.fs.get (destination.addExt ".tmp") = none := htmp.resolve_left (by simp)
    have hne : destination ≠ source := by
      rintro rfl
      rw [hb] at hfree
      cases hfree
    have hcopy : (commitCopy source destination).Wp (handle env) w Q := by
      refine wp_commitCopy hb (fun heq => absurd hb (by simp [heq, htmp])) fun r w' hfs hreg =>
        hok r w' ⟨hb, fun q => ?_⟩ hreg
      simp only [hfs, Table.get_drop, Table.get_put]
      by_cases hqd : q = destination
      · simp [hqd, hne]
      · by_cases hqt : q = destination.addExt ".tmp"
        · subst hqt
          simp [hqd, htmp]
        · simp [hqd, hqt]
    unfold commitStagingToAccepted
    refine wp_bind.mpr (wp_pathExists.mpr ?_)
    simp only [thenWp_ok, hb, Option.isSome_some, if_true]
    refine wp_bind.mpr ?_
    cases root with
    | none => exact wp_ret.mpr hcopy
    | some root =>
      simp only [ensureWithin, ensureWithinRoot]
      split
      · exact wp_ret.mpr hcopy
      · exact wp_err.mpr (herr _)

/-! ## Accept -/

/-- An accept renames, or it copies past no temporary name. -/
def AcceptSafe (env : Env) (cfg : CoreConfig) (w : World) : Prop :=
  NoPartials cfg w ∨ ∀ k p d, pathOf w k = some p → Under cfg.acceptedPath d →
    env.device p.dropLast = env.device d.dropLast

theorem wp_acceptSha256_filed {reason : Option String} {actor : String}
    (hsafe : AcceptSafe env cfg w) (h : Filed env cfg w) :
    (acceptSha256 env cfg sha reason actor).Wp (handle env) w fun _ w' => Filed env cfg w' := by
  refine wp_acceptSha256_commit ?_ fun _ w' hw => h.still hw
  intro n row ctx p d w₁ _ hrow hst hp _ hfree hd hw
  have hown : pathOf w n = some p := (pathOf_of_row hrow).trans hp
  obtain ⟨-, b, hb, hsha⟩ := h.placed n p hown
  have htmp : (env.device p.dropLast == env.device d.dropLast) = true ∨
      w₁.fs.get (d.addExt ".tmp") = none := by
    rcases hsafe with hno | hdev
    · exact .inr (by rw [hw.fs]; exact hno d (.inr (.inl hd)))
    · exact .inl (by simp [hdev n p d hown hd])
  unfold commitPendingToAccepted
  refine wp_bind.mpr (wp_commit_relocated (by rw [hw.fs]; exact hb) (by rw [hw.fs]; exact hfree)
    htmp (fun r w₂ hm hreg => ?_) fun e => h.still hw)
  refine wp_finalizeAccept (by rw [hreg, hw.reg, hrow]) hst ?_
  intro row' w₃ hst' hpath' hfs₃ hfiles
  have hm' : Relocated p d b w w₃ := ⟨hb, fun q => by rw [hfs₃, hm.2, hw.fs]⟩
  rw [hreg, hw.reg] at hfiles
  exact h.relocate hm' hfree (.inr (.inl hd)) hsha (h.hashed n row hrow) (.inl hown)
    (by rw [hfiles]; exact Table.get_put_self _ _ _)
    (fun j hj => by rw [hfiles, Table.get_put, if_neg hj]) hpath' (by simp [hst'])

/-! ## Ingest -/

/-- The unknown branch in either mode: the staged file goes to a free path of the
pending root and the row says so, or nothing happens. -/
theorem wp_ingestUnknown_relocated {eng : Engine} {ps : IngestParams} {c : StagedCandidate}
    {opId : String} {b : Bytes} {Q : Except Err IngestOutcome → World → Prop}
    (ht : namesFile ps.storageTemplate = true) (hs : IsSha sha)
    (hb : w.fs.get c.stagingPath = some b)
    (htmp : ps.stagingOnSamePool = true ∨
      ∀ d, Under ps.pendingRoot d → w.fs.get (d.addExt ".tmp") = none)
    (hok : ∀ r d row w', w.fs.get d = none → Under ps.pendingRoot d →
      Relocated c.stagingPath d b w w' → row.status = .pending → row.currentPath = some d →
      w'.reg.files = w.reg.files.put sha row → Q (.ok r) w')
    (herr : ∀ e w', Still w w' → Q (.error e) w') :
    (ingestUnknown env eng ps c opId sha).Wp (handle env) w Q := by
  unfold ingestUnknown
  refine wp_bind.mpr (wp_renderRelativePath ht hs (fun rel w₁ h₁ hrel => ?_) fun e w₁ h₁ =>
    herr e w₁ h₁)
  refine wp_bind.mpr (wp_choose (by simp [hrel]) (fun d hfree hd => ?_) fun e => herr e w₁ h₁)
  have hunder : Under ps.pendingRoot d := hd.under hrel
  refine wp_bind.mpr (wp_commit_relocated (by rw [h₁.fs]; exact hb) hfree
    (htmp.imp_right fun hno => by rw [h₁.fs]; exact hno d hunder)
    (fun r w₂ hm hreg₂ => ?_) fun e => herr e w₁ h₁)
  refine wp_bind.mpr (wp_journalAppend fun w₃ h₃ => ?_)
  have hm₃ : Relocated c.stagingPath d b w w₃ := ⟨hb, fun q => by rw [h₃.fs, hm.2, h₁.fs]⟩
  refine wp_bind.mpr ((wp_statSize (by rw [hm₃.2, if_pos rfl])).mpr ?_)
  refine wp_bind.mpr (wp_transact (fun r now w₄ hr hfs₄ hreg₄ => ?_) (fun e now w₄ he _ _ => ?_))
  · refine wp_bind.mpr (wp_journalAppend fun w₅ h₅ => wp_ret.mpr ?_)
    obtain ⟨row, hst, hpath, hf⟩ := Registry.files_finalizeUnknownIngest hr
    refine hok _ d row w₅ (by rw [← h₁.fs]; exact hfree) hunder
      ⟨hb, fun q => by rw [h₅.fs, hfs₄, hm₃.2]⟩ hst hpath ?_
    rw [h₅.reg, hreg₄, hf, h₃.reg, hreg₂, h₁.reg]
  · obtain ⟨r, hr⟩ := Registry.finalizeUnknownIngest_ok w₃.reg sha b.length c.originalFilename d
      c.accountName c.onedriveId c.relativePath c.modifiedTime pipelineActor now
    rw [Tx.apply, hr] at he
    cases he

/-- What a candidate needs: no block rule matches content that has a file, and a
copy passes no temporary name. -/
structure CandidateSafe (env : Env) (cfg : CoreConfig) (ps : IngestParams) (w : World)
    (c : StagedCandidate) : Prop where
  blocked : ∀ b rule, w.fs.get c.stagingPath = some b → Admitted ps c b.length →
    prefiltered c w = none → blockedBy env c w = some rule → pathOf w (env.sha256 b) = none
  copied : ps.stagingOnSamePool = true ∨ NoPartials cfg w

/-- The parameters of a candidate over the layout, in either mode. -/
structure CandidatePlaced (cfg : CoreConfig) (staging : Path) (ps : IngestParams) : Prop where
  root : ps.pendingRoot = cfg.pendingPath
  template : namesFile ps.storageTemplate = true
  staging : Apart cfg staging
  quarantine : ∀ q, ps.quarantineDir = some q → Apart cfg q

section Ingest
variable {eng : Engine} {ps : IngestParams} {c : StagedCandidate} {staging : Path}

theorem wp_decideByHash_filed {opId : String} {b : Bytes} (hsha : ∀ b, IsSha (env.sha256 b))
    (hps : CandidatePlaced cfg staging ps) (hc : staging <+: c.stagingPath)
    (h : Filed env cfg w) (hb : w.fs.get c.stagingPath = some b)
    (hblocked : ∀ rule, blockedBy env c w = some rule → pathOf w (env.sha256 b) = none)
    (hcopied : ps.stagingOnSamePool = true ∨ NoPartials cfg w) :
    (decideByHash env eng ps c opId b.length).Wp (handle env) w fun _ w' => Filed env cfg w' := by
  have hout : ¬ InQueue cfg c.stagingPath := hps.staging.not_inQueue hc
  refine wp_decideByHash hb ?_ ?_ ?_
  · intro w₁ rule h₁ hrule
    have hl := h.still h₁
    have hnull : pathOf w₁ (env.sha256 b) = none := by
      rw [pathOf, h₁.reg]
      exact hblocked rule hrule
    refine wp_rejectBlocked fun w₂ row hfs _ hpath hfiles => ?_
    refine hl.put (hsha b) hfiles (by simp [hpath]) (by simp [hnull]) (fun q hq _ _ => ?_)
      (by simp [hpath])
    have hne : q ≠ c.stagingPath := by rintro rfl; exact hout hq
    rw [hfs, Table.get_drop, if_neg hne]
  · intro w₁ h₁ _ hnone
    have hl := h.still h₁
    have hnull : pathOf w₁ (env.sha256 b) = none := by simp [pathOf, h₁.reg, hnone]
    refine wp_ingestUnknown_relocated hps.template (hsha b) (by rw [h₁.fs]; exact hb) ?_ ?_
      fun e w₂ h₂ => hl.still h₂
    · refine hcopied.imp_right fun hno d hd => ?_
      rw [h₁.fs]
      exact hno d (.inl (hps.root ▸ hd))
    · intro _ d row w₂ hfree hd hm hst hpath hfiles
      exact hl.relocate hm hfree (.inl (hps.root ▸ hd)) rfl (hsha b) (.inr ⟨hnull, hout⟩)
        (by rw [hfiles]; exact Table.get_put_self _ _ _)
        (fun j hj => by rw [hfiles, Table.get_put, if_neg hj]) hpath (by simp [hst])
  · intro w₁ record h₁ _ hrec
    refine wp_discardKnown (b := b) (by rw [h₁.fs, hb]) (by rw [h₁.reg, hrec]) fun w₂ hfs hf => ?_
    exact (h.still h₁).drop hout hfs hf

theorem wp_processOne_filed (hsha : ∀ b, IsSha (env.sha256 b))
    (hps : CandidatePlaced cfg staging ps) (hc : staging <+: c.stagingPath)
    (hsafe : CandidateSafe env cfg ps w c) (h : Filed env cfg w) :
    (processOne env eng ps c).Wp (handle env) w fun _ w' => Filed env cfg w' := by
  have hout : ¬ InQueue cfg c.stagingPath := hps.staging.not_inQueue hc
  refine wp_processOne (fun w' _ hw => h.still hw) ?_ ?_
  · intro b a w' hb _ _ hreg hfs
    rcases hfs with hfs | ⟨q, target, hq, ht, -, hfs⟩
    · exact h.drop hout hfs (by rw [hreg])
    · refine h.frame (by rw [hreg]) fun p hp => ?_
      have hm : Moved c.stagingPath target b w w' := ⟨hb, hfs⟩
      refine hm.get_of_ne ?_ ?_
      · rintro rfl
        exact (hps.quarantine q hq).not_inQueue ht hp
      · rintro rfl
        exact hout hp
  · intro b opId w₁ hb hadm h₁
    have hl := h.still h₁
    have hb₁ : w₁.fs.get c.stagingPath = some b := by rw [h₁.fs, hb]
    have hpre : prefiltered c w₁ = prefiltered c w := by rw [prefiltered, prefiltered, h₁.reg]
    have hrules : blockedBy env c w₁ = blockedBy env c w := by rw [blockedBy, blockedBy, h₁.reg]
    refine wp_decideStaged (fun st sha _ => ?_) fun hmiss => ?_
    · exact wp_discardPrefiltered fun w₂ hfs hf => hl.drop hout hfs hf
    · refine wp_decideByHash_filed hsha hps hc hl hb₁ (fun rule hrule => ?_)
        (hsafe.copied.imp_right fun hno p hp => by rw [h₁.fs]; exact hno p hp)
      rw [hrules] at hrule
      rw [hpre] at hmiss
      rw [pathOf, h₁.reg]
      exact hsafe.blocked b rule hb hadm hmiss hrule

/-- `P` holds of each candidate in the state in which it is processed. -/
def EachCandidate (env : Env) (eng : Engine) (ps : IngestParams)
    (P : World → StagedCandidate → Prop) : List (Nat × StagedCandidate) → World → Prop
  | [], _ => True
  | (_, c) :: cs, w => P w c ∧ ∀ out w', (processOne env eng ps c).run (handle env) w =
      (.ok out, w') → EachCandidate env eng ps P cs w'

theorem wp_processAll_filed (hsha : ∀ b, IsSha (env.sha256 b))
    (hps : CandidatePlaced cfg staging ps) : ∀ (cs : List (Nat × StagedCandidate)) (w : World),
      (∀ c ∈ cs, staging <+: c.2.stagingPath) →
      EachCandidate env eng ps (CandidateSafe env cfg ps) cs w → Filed env cfg w →
      (processAll env eng ps cs).Wp (handle env) w fun _ w' => Filed env cfg w'
  | [], _, _, _, h => wp_ret.mpr h
  | (index, c) :: cs, w, hcs, ⟨hsafe, hrest⟩, h => by
    unfold processAll
    have hone : (processOne env eng ps c).Wp (handle env) w fun _ w' => Filed env cfg w' :=
      wp_processOne_filed hsha hps (hcs (index, c) List.mem_cons_self) hsafe h
    refine wp_bind.mpr (wp_iff.mpr ?_)
    rw [wp_iff] at hone
    cases hrun : (processOne env eng ps c).run (handle env) w with
    | mk r w₁ =>
      rw [hrun] at hone
      cases r with
      | error e => exact hone
      | ok out =>
        refine wp_bind.mpr (wp_mono ?_ (wp_processAll_filed hsha hps cs w₁
          (fun c' hc' => hcs c' (List.mem_cons_of_mem _ hc')) (hrest out w₁ hrun) hone))
        rintro (e | outs) w₂ h₂
        · exact h₂
        · exact wp_ret.mpr h₂

/-- What a batch needs: the configured pending root, staging and quarantine
outside the queues, and each candidate safe when its turn comes. -/
structure BatchSafe (env : Env) (cfg : CoreConfig) (staging : Path) (eng : Engine)
    (bp : BatchParams) (cs : List StagedCandidate) (w : World) : Prop where
  root : bp.pendingRoot = cfg.pendingPath
  quarantine : ∀ q, bp.quarantineDir = some q → Apart cfg q
  candidates : ∀ c ∈ cs, staging <+: c.stagingPath
  safe : ∀ policy, ZeroBytePolicy.parse bp.zeroBytePolicy = some policy →
    EachCandidate env eng (bp.ingest policy) (CandidateSafe env cfg (bp.ingest policy))
      (scheduled bp.sizeAwareScheduling cs) { w with draws := w.draws + 1 }

theorem wp_runBatch_filed {bp : BatchParams} {policy : ZeroBytePolicy} {cs : List StagedCandidate}
    (hsha : ∀ b, IsSha (env.sha256 b)) (hstaging : Apart cfg staging)
    (ht : namesFile bp.storageTemplate = true)
    (hpolicy : ZeroBytePolicy.parse bp.zeroBytePolicy = some policy)
    (hbp : BatchSafe env cfg staging eng bp cs w) (h : Filed env cfg w) :
    (runBatch env eng bp policy cs).Wp (handle env) w fun _ w' => Filed env cfg w' := by
  unfold runBatch
  refine wp_bind.mpr (wp_op.mpr (wp_ret.mpr ?_))
  simp only [thenWp_ok, handle]
  have hl : Filed env cfg { w with draws := w.draws + 1 } := h.still ⟨rfl, rfl⟩
  refine wp_bind.mpr (wp_idle (calls_enforceHeuristics _) fun r => ?_)
  cases r with
  | error e => exact hl
  | ok u =>
    have hps : CandidatePlaced cfg staging (bp.ingest policy) :=
      ⟨hbp.root, ht, hstaging, hbp.quarantine⟩
    refine wp_bind.mpr (wp_mono ?_ (wp_processAll_filed hsha hps _ _
      (fun c hc => hbp.candidates c.2 (mem_scheduled hc)) (hbp.safe policy hpolicy) hl))
    rintro (e | outs) w₂ h₂
    · exact h₂
    · refine wp_bind.mpr ((keepsRows_recordOutcomes _ _ _ _).wp (R := SameRows)
        (fun _ => ⟨rfl, rfl⟩) (fun _ _ _ => SameRows.trans) (fun _ _ => sameRows_handle) ?_)
      rintro (e | u) w₃ h₃
      · exact h₂.frame h₃.files fun _ _ => by rw [h₃.fs]
      · exact wp_ret.mpr (h₂.frame h₃.files fun _ _ => by rw [h₃.fs])

theorem wp_processBatch_filed {bp : BatchParams} {cs : List StagedCandidate}
    (hsha : ∀ b, IsSha (env.sha256 b)) (hstaging : Apart cfg staging)
    (hbp : BatchSafe env cfg staging eng bp cs w) (h : Filed env cfg w) :
    (processBatch env eng bp cs).Wp (handle env) w fun _ w' => Filed env cfg w' := by
  unfold processBatch
  refine wp_bind.mpr (wp_idle calls_validateBatchContract fun r => ?_)
  cases r with
  | error e => exact h
  | ok u =>
    simp only [thenWp_ok]
    split
    · exact wp_err.mpr h
    · next policy hpolicy =>
      split
      · exact wp_err.mpr h
      · split
        · exact wp_err.mpr h
        · next hlint =>
          exact wp_runBatch_filed hsha hstaging (namesFile_of_lint (not_not.mp hlint)) hpolicy
            hbp h

end Ingest

/-! ## Web triage -/

theorem wp_triageApply {a : TriageAction} {item key actor now : String} {reason : Option String}
    {Q : Except Err (Except TxError Unit) → World → Prop}
    (hok : ∀ r w', w.reg.triageApply a item key reason actor now = .ok r → w'.fs = w.fs →
      w'.reg = r → Q (.ok (.ok ())) w')
    (herr : ∀ e w', Still w w' → Q (.ok (.error e)) w') :
    (triageApply a item key reason actor now).Wp (handle env) w Q := by
  cases hr : w.reg.triageApply a item key reason actor now with
  | ok r =>
    simp only [triageApply, wp_op, handle, Tx.apply, hr, wp_ret]
    exact hok r _ hr rfl rfl
  | error e =>
    simp only [triageApply, wp_op, handle, Tx.apply, hr, wp_ret]
    exact herr e _ ⟨rfl, rfl⟩

/-- A stored key answers again; a new one writes the status and no path, so a
reject needs the file to be where the command line would have moved it. -/
theorem wp_triageExecute_filed {a : TriageAction} {item key actor : String}
    {reason : Option String} (h : Filed env cfg w)
    (hshelf : w.reg.uiActionIdempotency.get key = none → a = .reject → Shelved cfg w item) :
    (triageExecute a item key reason actor).Wp (handle env) w fun _ w' => Filed env cfg w' := by
  unfold triageExecute
  refine wp_bind.mpr ?_
  simp only [replayed, wp_op, handle, wp_ret, thenWp_ok]
  cases hkey : w.reg.uiActionIdempotency.get key with
  | some row =>
    simp only
    split
    · exact wp_err.mpr h
    · exact wp_ret.mpr h
  | none =>
    have hevent : ∀ {u u' : World} {p : TriagePhase} {now : String}, Filed env cfg u →
        u'.fs = u.fs → u'.reg = u.reg.triageEvent a p item reason actor now →
        Filed env cfg u' := fun hu hfs hreg =>
      hu.frame (by rw [hreg]; rfl) fun _ _ => by rw [hfs]
    refine wp_bind.mpr (wp_utcNow.mpr ?_)
    refine wp_bind.mpr (wp_transact (fun r now w₁ hr hfs₁ hreg₁ => ?_) (fun _ _ _ h => by cases h))
    cases hr
    have h₁ : Filed env cfg w₁ := hevent h hfs₁ hreg₁
    refine wp_bind.mpr (wp_triageApply (fun r w₂ hr hfs₂ hreg₂ => wp_ret.mpr ?_) fun e w₂ hw => ?_)
    · obtain ⟨old, hold, hf⟩ := Registry.files_triageApply hr
      have hfiles : w₂.reg.files = w₁.reg.files.put item
          { old with status := a.state, updatedAt := (env.clock w.ticks).iso } := by
        rw [hreg₂, hf]
      refine h₁.restatus hold hfiles rfl hfs₂ fun hst => ?_
      have ha : a = .reject := by cases a <;> first | rfl | cases hst
      exact shelved_of_files (by rw [hreg₁]; rfl) (hshelf hkey ha)
    · simp only [thenWp_ok, compensate]
      refine wp_bind.mpr (wp_transact (fun r now w₃ hr hfs₃ hreg₃ => ?_)
        (fun _ _ _ h => by cases h))
      cases hr
      have h₃ : Filed env cfg w₃ := hevent (h₁.still hw) hfs₃ hreg₃
      simp only [thenWp_ok]
      split
      · exact wp_err.mpr h₃
      · exact wp_err.mpr h₃

/-! ## Every run -/

/-- `purge_sha256` succeeds, for a reason and an actor that can be bound, and leaves no
file of that content in a queue. -/
def Purges (env : Env) (cfg : CoreConfig) (lone : Char → Bool) (w : World) (sha : String) : Prop :=
  ∀ reason actor, (∀ text ∈ actor :: reason.toList, NoSurrogates lone text) → ∃ r w',
    ((purgeSha256 cfg sha reason actor).refuse (bindError lone)).run (handle env) w = (.ok r, w') ∧
      ∀ p b, InQueue cfg p → w'.fs.get p = some b → env.sha256 b ≠ sha

/-- It does so at once, or after a `reject_sha256`. -/
def Purgeable (env : Env) (cfg : CoreConfig) (lone : Char → Bool) (w : World) (sha : String) :
    Prop :=
  Purges env cfg lone w sha ∨
    ∀ reason actor, (∀ text ∈ actor :: reason.toList, NoSurrogates lone text) →
      Purges env cfg lone (((rejectSha256 env cfg sha reason actor).refuse (bindError lone)).run
        (handle env) w).2 sha

theorem encodes_purgeSha256 {lone : Char → Bool} (hlone : SparesAscii lone) (hsha : IsSha sha)
    {reason : Option String} {actor : String}
    (htexts : ∀ text ∈ actor :: reason.toList, NoSurrogates lone text) :
    Encodes env lone (purgeSha256 cfg sha reason actor) w := by
  have hbound : NoSurrogates lone sha := hsha.noSurrogates hlone
  have hreason : NoSurrogates lone (textOr reason "cli_purge") := by
    cases reason with
    | none => exact noSurrogates_of_ascii hlone (by decide)
    | some reason =>
      simp only [textOr]
      split
      · exact noSurrogates_of_ascii hlone (by decide)
      · exact htexts reason (by simp)
  have hcalls : (purgeSha256 cfg sha reason actor).Calls fun o => bindError lone o = none := by
    unfold purgeSha256 withNormalizedSha
    rw [normalizeSha_of_isSha hsha]
    refine Calls.bind (calls_getFile (bindError_eq_none.mpr (by simpa [Op.texts] using hbound)))
      fun row => ?_
    cases row with
    | none => exact .err
    | some record =>
      refine .ite .err (Calls.bind ?_ fun _ => Calls.bind (calls_transactOrReject ?_) fun _ => .ret)
      · unfold purgeFile
        cases record.currentPath with
        | none => exact .ret
        | some current =>
          refine .ite (Calls.bind (calls_pathExists (bindError_of_texts rfl)) fun found => ?_) .err
          cases found
          · exact .ret
          · exact Calls.bind (calls_unlink (bindError_of_texts rfl)) fun _ => .ret
      · refine bindError_eq_none.mpr fun text htext => ?_
        simp only [Op.texts, Tx.texts, List.mem_cons, List.not_mem_nil, or_false] at htext
        rcases htext with rfl | rfl | rfl
        · exact hbound
        · exact hreason
        · exact htexts _ List.mem_cons_self
  exact hcalls.ops w

theorem purgeable_of_filed {lone : Char → Bool} (hlone : SparesAscii lone)
    (hroot : cfg.rejectedPath ≠ []) (h : Filed env cfg w)
    (hst : w.reg.statusOf sha = some .rejected) : Purgeable env cfg lone w sha := by
  obtain ⟨row, hrow, hrej⟩ := Option.map_eq_some_iff.mp hst
  have hsha : IsSha sha := h.hashed sha row hrow
  have hn : normalizeSha sha = some sha := normalizeSha_of_isSha hsha
  have hready : PurgeReady cfg w sha := by
    refine ⟨sha, row, hn, hrow, hrej, fun p hp => withinRoot_of_prefix hroot ?_⟩
    exact h.shelved sha hst row p hrow hp
  refine .inl fun reason actor htexts => ?_
  have hok : (purgeSha256 cfg sha reason actor).Wp (handle env) w fun r _ => ∃ a, r = .ok a :=
    wp_purgeSha256_iff (fun _ _ _ r _ _ _ _ _ _ _ _ => ⟨r, rfl⟩) fun _ hno => absurd hready hno
  obtain ⟨r, hr⟩ := wp_iff.mp hok
  have hgone := (wp_iff.mp (wp_purgeSha256_filed sha reason actor h)).2
  rw [hr] at hgone
  refine ⟨r, _, ?_, fun p b hq hb => hgone sha p b hn hq hb⟩
  rw [(run_refuse (encodes_purgeSha256 hlone hsha htexts)).1]
  exact run_of_result hr

/-- The state behind a call whose statements may raise. -/
def Call.refusedAfter (env : Env) (cfg : CoreConfig) (lone : Char → Bool) (w : World) :
    Call → World
  | .action (.command c) => (((c.flow env cfg).refuse (bindError lone)).run (handle env) w).2
  | .action (.outside fs rules) => (Action.outside fs rules).after env cfg w
  | .triage a item key reason actor =>
    (((triageExecute a item key reason actor).refuse (bindError lone)).run (handle env) w).2
  | .pruneAuthFailures keep =>
    (((pruneAuthFailureAuditBacklog keep).refuse (bindError lone)).run (handle env) w).2

def refusedAfterCalls (env : Env) (cfg : CoreConfig) (lone : Char → Bool) :
    List Call → World → World
  | [], w => w
  | c :: cs, w => refusedAfterCalls env cfg lone cs (c.refusedAfter env cfg lone w)

/-- What each call of a run needs of the state it starts in. -/
def CallSafe (env : Env) (cfg : CoreConfig) (staging : Path) (w : World) : Call → Prop
  | .action (.command (.processBatch eng bp cs)) => BatchSafe env cfg staging eng bp cs w
  | .action (.command (.acceptSha256 _ _ _)) => AcceptSafe env cfg w
  | .action (.command _) => True
  | .action (.outside fs _) => ∀ p, InQueue cfg p → fs.get p = w.fs.get p
  | .triage a item key _ _ =>
    w.reg.uiActionIdempotency.get key = none → a = .reject → Shelved cfg w item
  | .pruneAuthFailures _ => True

/-- No statement of the call binds a lone surrogate. -/
def CallEncodes (env : Env) (cfg : CoreConfig) (lone : Char → Bool) (w : World) : Call → Prop
  | .action (.command c) => Encodes env lone (c.flow env cfg) w
  | .action (.outside _ _) => True
  | .triage a item key reason actor => Encodes env lone (triageExecute a item key reason actor) w
  | .pruneAuthFailures keep => Encodes env lone (pruneAuthFailureAuditBacklog keep) w

theorem refusedAfter_eq {lone : Char → Bool} {c : Call} (h : CallEncodes env cfg lone w c) :
    c.refusedAfter env cfg lone w = c.after env cfg w := by
  cases c with
  | action a =>
    cases a with
    | command c => exact congrArg Prod.snd (run_refuse h).1
    | outside fs rules => rfl
  | triage a item key reason actor => exact congrArg Prod.snd (run_refuse h).1
  | pruneAuthFailures keep => exact congrArg Prod.snd (run_refuse h).1

def SafeCalls (env : Env) (cfg : CoreConfig) (lone : Char → Bool) (staging : Path) :
    List Call → World → Prop
  | [], _ => True
  | c :: cs, w => CallSafe env cfg staging w c ∧ CallEncodes env cfg lone w c ∧
      SafeCalls env cfg lone staging cs (c.refusedAfter env cfg lone w)

/-- A flow that ends in `Filed` still does with its result dropped. -/
theorem filed_of_flow {α : Type} {p : Flow α}
    (h : p.Wp (handle env) w fun _ w' => Filed env cfg w') :
    (do let _ ← p : Flow Unit).Wp (handle env) w fun _ w' => Filed env cfg w' := by
  refine wp_bind.mpr (wp_mono ?_ h)
  rintro (e | r) w' h'
  · exact h'
  · exact wp_ret.mpr h'

section Run
variable {staging : Path} (hsha : ∀ b, IsSha (env.sha256 b)) (hstaging : Apart cfg staging)
  (htrash : Apart cfg cfg.trashPath)
include hsha hstaging htrash

theorem wp_command_filed {c : Command} (hc : CallSafe env cfg staging w (.action (.command c)))
    (h : Filed env cfg w) (hids : PairIdsDistinct w.reg) :
    (c.flow env cfg).Wp (handle env) w fun _ w' => Filed env cfg w' := by
  cases c with
  | processBatch eng bp cs => exact filed_of_flow (wp_processBatch_filed hsha hstaging hc h)
  | acceptSha256 sha reason actor => exact filed_of_flow (wp_acceptSha256_filed hc h)
  | rejectSha256 sha reason actor => exact filed_of_flow (wp_rejectSha256_filed h hids)
  | processTrash => exact filed_of_flow (wp_processTrash_filed hsha htrash h hids)
  | purgeSha256 sha reason actor =>
    exact filed_of_flow (wp_mono (fun _ _ h' => h'.1)
      (wp_purgeSha256_filed sha reason actor h))

theorem filed_call {c : Call} (hc : CallSafe env cfg staging w c) (h : Filed env cfg w)
    (hids : PairIdsDistinct w.reg) :
    Filed env cfg (c.after env cfg w) ∧ PairIdsDistinct (c.after env cfg w).reg := by
  cases c with
  | action a =>
    cases a with
    | command c =>
      exact ⟨wp_iff.mp (wp_command_filed hsha hstaging htrash hc h hids),
        wp_iff.mp (ids_run (c.flow env cfg) hids)⟩
    | outside fs rules => exact ⟨h.frame rfl hc, hids⟩
  | triage a item key reason actor =>
    exact ⟨wp_iff.mp (wp_triageExecute_filed h hc), wp_iff.mp (ids_run _ hids)⟩
  | pruneAuthFailures keep =>
    have hkeep : (pruneAuthFailureAuditBacklog keep).Wp (handle env) w
        fun _ w' => Filed env cfg w' := by
      refine wp_transact (fun r now w' hr hfs hreg => ?_)
        fun _ _ _ _ hfs hreg => h.still ⟨hfs, hreg⟩
      refine h.frame ?_ fun _ _ => by rw [hfs]
      rw [hreg]
      exact Registry.files_pruneAuthFailureAuditBacklog hr
    exact ⟨wp_iff.mp hkeep, wp_iff.mp (ids_run _ hids)⟩

/-- By induction on the run: each call keeps rows and files in step. -/
theorem filed_calls {lone : Char → Bool} : ∀ (cs : List Call) (w : World),
    SafeCalls env cfg lone staging cs w → Filed env cfg w → PairIdsDistinct w.reg →
    Filed env cfg (refusedAfterCalls env cfg lone cs w)
  | [], _, _, h, _ => h
  | c :: cs, w, ⟨hc, hencodes, hrest⟩, h, hids => by
    obtain ⟨h₁, hids₁⟩ := filed_call hsha hstaging htrash hc h hids
    rw [← refusedAfter_eq hencodes] at h₁ hids₁
    exact filed_calls cs _ hrest h₁ hids₁

end Run

/-- After every run of batches, operator commands and web triage calls in which
each call found what it needs and binds no lone surrogate, every rejected row can be
purged. -/
theorem rejected_purgeable (env : Env) (cfg : CoreConfig) (lone : Char → Bool) (staging : Path)
    (hlone : SparesAscii lone) (hsha : ∀ b, IsSha (env.sha256 b)) (hstaging : Apart cfg staging)
    (htrash : Apart cfg cfg.trashPath) (cs : List Call) (w : World)
    (hrun : SafeCalls env cfg lone staging cs w) (h : Filed env cfg w)
    (hids : PairIdsDistinct w.reg) :
    ∀ sha, (refusedAfterCalls env cfg lone cs w).reg.statusOf sha = some .rejected →
      Purgeable env cfg lone (refusedAfterCalls env cfg lone cs w) sha := by
  intro sha hst
  exact purgeable_of_filed hlone htrash.rejected.ne_nil
    (filed_calls hsha hstaging htrash cs w hrun h hids) hst

/-! ## Two ways to reject one photo -/

/-- A photo arrives in staging. -/
def arrival : Call := .action (.outside (Table.put ∅ ["staging", "x"] [97]) [])

/-- It is ingested. -/
def ingestion : Call :=
  .action (.command (.processBatch ⟨none⟩ sampleBatch [sampleCandidate "id1" ["staging", "x"]]))

/-- Accepted in the browser, rejected on the command line, rejected in the
browser. -/
def rejectedTwice : List Call :=
  [arrival, ingestion, .triage .accept shaA "k1" none "web",
    .action (.command (.rejectSha256 shaA none "cli")), .triage .reject shaA "k2" none "web"]

theorem emptyWorld_filed : Filed sampleEnv sampleConfig (sampleWorld [] Registry.empty) :=
  ⟨nofun, nofun, nofun, nofun⟩

theorem ingestion_safe : BatchSafe sampleEnv sampleConfig ["staging"] ⟨none⟩ sampleBatch
    [sampleCandidate "id1" ["staging", "x"]]
    (afterCalls sampleEnv sampleConfig [arrival] (sampleWorld [] Registry.empty)) where
  root := rfl
  quarantine := nofun
  candidates c hc := by
    rw [List.mem_singleton] at hc
    subst hc
    exact ⟨["x"], rfl⟩
  safe policy _ := by
    refine ⟨⟨fun b rule _ _ _ hrule => ?_, .inl rfl⟩, fun _ _ _ => trivial⟩
    cases hrule

/-- Where the run stands before its `n`-th call. -/
def beforeCall (n : Nat) : World :=
  refusedAfterCalls sampleEnv sampleConfig sampleLone (rejectedTwice.take n)
    (sampleWorld [] Registry.empty)

/-- No call binds a lone surrogate; the first reject has moved the file, the second
finds it rejected. -/
theorem rejectedTwice_runs :
    CallEncodes sampleEnv sampleConfig sampleLone (beforeCall 1) ingestion ∧
    CallEncodes sampleEnv sampleConfig sampleLone (beforeCall 2)
      (.triage .accept shaA "k1" none "web") ∧
    CallEncodes sampleEnv sampleConfig sampleLone (beforeCall 3)
      (.action (.command (.rejectSha256 shaA none "cli"))) ∧
    CallEncodes sampleEnv sampleConfig sampleLone (beforeCall 4)
      (.triage .reject shaA "k2" none "web") ∧
    pathOf (beforeCall 4) shaA = some ["lib", "rejected", "2024", "01", "IMG.JPG"] ∧
    (beforeCall 5).reg.statusOf shaA = some .rejected := by
  unfold ingestion CallEncodes Encodes
  decide +kernel

theorem rejectedTwice_safe : SafeCalls sampleEnv sampleConfig sampleLone ["staging"] rejectedTwice
    (sampleWorld [] Registry.empty) := by
  obtain ⟨hingest, haccept, hreject, hagain, hpath, -⟩ := rejectedTwice_runs
  refine ⟨fun p hp => ?_, trivial, ingestion_safe, hingest, (fun _ ha => nomatch ha), haccept,
    trivial, hreject, fun _ _ => ?_, hagain, trivial⟩
  · have hne : p ≠ ["staging", "x"] := by
      rintro rfl
      exact sample_apart.1.not_inQueue ⟨["x"], rfl⟩ hp
    rw [Table.get_put, if_neg hne]
    rfl
  · refine shelved_iff.mpr fun p hp => ?_
    obtain rfl := Option.some.inj (hpath.symm.trans hp)
    exact ⟨["2024", "01", "IMG.JPG"], rfl⟩

theorem rejectedTwice_purgeable :
    Purgeable sampleEnv sampleConfig sampleLone (refusedAfterCalls sampleEnv sampleConfig sampleLone
      rejectedTwice (sampleWorld [] Registry.empty)) shaA :=
  rejected_purgeable sampleEnv sampleConfig sampleLone ["staging"] sampleLone_ascii sampleEnv_isSha
    sample_apart.1 sample_apart.2 rejectedTwice (sampleWorld [] Registry.empty) rejectedTwice_safe
    emptyWorld_filed List.nodup_nil shaA rejectedTwice_runs.2.2.2.2.2

/-- Rejected in the browser alone: the file stays in the pending root. -/
def rejectedOnline : List Call := [arrival, ingestion, .triage .reject shaA "k1" none "web"]

def onlineWorld : World :=
  refusedAfterCalls sampleEnv sampleConfig sampleLone rejectedOnline (sampleWorld [] Registry.empty)

/-- A purge refuses the path, and a reject before it does nothing. -/
theorem triage_reject_unpurgeable :
    onlineWorld.reg.statusOf shaA = some .rejected ∧
      ¬ Purgeable sampleEnv sampleConfig sampleLone onlineWorld shaA := by
  obtain ⟨hstatus, hpurge, htwice⟩ :
      onlineWorld.reg.statusOf shaA = some .rejected ∧
      (((purgeSha256 sampleConfig shaA none "cli").refuse (bindError sampleLone)).run
        (handle sampleEnv) onlineWorld).1.toBool = false ∧
      (((purgeSha256 sampleConfig shaA none "cli").refuse (bindError sampleLone)).run
        (handle sampleEnv) (((rejectSha256 sampleEnv sampleConfig shaA none "cli").refuse
          (bindError sampleLone)).run (handle sampleEnv) onlineWorld).2).1.toBool = false := by
    decide +kernel
  have htexts : ∀ text ∈ "cli" :: (none : Option String).toList, NoSurrogates sampleLone text := by
    intro text htext
    obtain rfl := List.mem_singleton.mp htext
    exact noSurrogates_of_ascii sampleLone_ascii (by decide)
  refine ⟨hstatus, ?_⟩
  rintro (h | h)
  · obtain ⟨r, w', hrun, -⟩ := h none "cli" htexts
    rw [hrun] at hpurge
    cases hpurge
  · obtain ⟨r, w', hrun, -⟩ := h none "cli" htexts none "cli" htexts
    rw [hrun] at htwice
    cases htwice

/-! ## A name that is no UTF-8 -/

/-- In the trash lies a file whose name SQLite does not take. -/
def trashedWorld : World := sampleWorld [(["lib", "trash", "\ue0ff.jpg"], [97])] Registry.empty

/-- The file has moved when its row is refused: no row ever leads to it. -/
example :
    (((processTrash sampleEnv sampleConfig).refuse (bindError sampleLone)).run (handle sampleEnv)
      trashedWorld).1.toOption.isNone = true ∧
    ((((processTrash sampleEnv sampleConfig).refuse (bindError sampleLone)).run (handle sampleEnv)
      trashedWorld).2.fs.keys.map fun p => p.take 2) = [["lib", "rejected"]] ∧
    (((processTrash sampleEnv sampleConfig).refuse (bindError sampleLone)).run (handle sampleEnv)
      trashedWorld).2.reg.files.keys = [] := by decide +kernel

end Nightfall
