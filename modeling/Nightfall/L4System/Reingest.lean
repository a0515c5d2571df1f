import Nightfall.L4System.Acceptance
import Nightfall.L4System.Pairs

/-!
# A batch of known content

Every candidate's content has a row and no block rule matches, so the batch only
discards. What it may still change are the pairs its candidates form.

* `wp_processBatch_known`: no row of `files` changes.
* `rejectNoop_iff`: a reject of a rejected file is the no-op exactly when the
  pair it finds, if any, is rejected.
* `reingest_idempotent_iff`: exactly when the batch keeps the statuses and leaves
  such a reject a no-op.
* `rejected_pair_reset`: a rejected pair that is uploaded again.
-/
namespace Nightfall
open Nightfall.Core Storage Prog

variable {env : Env} {cfg : CoreConfig} {w w' : World} {sha : String}

/-! ## The rows of `files` -/

theorem rules_handle (o : Op) : (handle env o w).2.reg.blockedRules = w.reg.blockedRules := by
  cases o with
  | tx t =>
    simp only [handle]
    split
    · next r hr => exact (framed_apply hr).rules
    · rfl
  | _ => rw [handle_reg rfl]

/-- No flow writes a block rule. -/
theorem rules_run {α : Type} (p : Flow α) :
    p.Wp (handle env) w fun _ w' => w'.reg.blockedRules = w.reg.blockedRules :=
  wp_iff.mpr (run_inv (C := fun _ _ => True)
    (I := fun u : World => u.reg.blockedRules = w.reg.blockedRules)
    (fun o _ _ hs => (rules_handle o).trans hs) (fun _ _ => trivial) rfl)

/-- The content of every staged file has a row, and no rule matches. -/
structure KnownBatch (env : Env) (cs : List StagedCandidate) (w : World) : Prop where
  known : ∀ c ∈ cs, ∀ b, w.fs.get c.stagingPath = some b →
    (w.reg.files.get (env.sha256 b)).isSome = true
  unblocked : ∀ c ∈ cs, blockedBy env c w = none

section Batch
variable {eng : Engine} {ps : IngestParams} {c : StagedCandidate} {cs : List StagedCandidate}

/-- No file appears but for the staged one in its quarantine. -/
def OnlyRemoves (c : StagedCandidate) (w w' : World) : Prop :=
  ∀ q b, w'.fs.get q = some b → w.fs.get q = some b ∨ w.fs.get c.stagingPath = some b

theorem Unstaged.onlyRemoves (h : Unstaged c w w') : OnlyRemoves c w w' := by
  intro q b hb
  rw [h, Table.get_drop] at hb
  split at hb
  · cases hb
  · exact .inl hb

theorem OnlyRemoves.after {w₁ : World} (h : Still w w₁) (h' : OnlyRemoves c w₁ w') :
    OnlyRemoves c w w' := by
  intro q b hb
  have hor := h' q b hb
  rwa [h.fs] at hor

/-- A known and unblocked candidate is discarded or set aside. -/
theorem wp_processOne_discards (hk : KnownBatch env cs w) (hc : c ∈ cs) :
    (processOne env eng ps c).Wp (handle env) w fun _ w' =>
      w'.reg.files = w.reg.files ∧ OnlyRemoves c w w' := by
  refine wp_processOne ?_ ?_ ?_
  · intro w' _ hw
    exact ⟨by rw [hw.reg], fun q b hb => .inl (by rwa [hw.fs] at hb)⟩
  · intro b a w' hb _ _ hreg hfs
    refine ⟨by rw [hreg], ?_⟩
    rcases hfs with hfs | ⟨d, target, -, -, -, hfs⟩
    · exact hfs.onlyRemoves
    · intro q b' hb'
      rw [hfs, Table.get_put, Table.get_drop] at hb'
      split at hb'
      · cases hb'
        exact .inr hb
      · split at hb'
        · cases hb'
        · exact .inl hb'
  · intro b opId w₁ hb _ h₁
    have hb₁ : w₁.fs.get c.stagingPath = some b := by rw [h₁.fs, hb]
    refine wp_decideStaged (fun st sha _ => ?_) fun _ => wp_decideByHash hb₁ ?_ ?_ ?_
    · exact wp_discardPrefiltered fun w₂ hun hf =>
        ⟨by rw [hf, h₁.reg], (hun.onlyRemoves).after h₁⟩
    · intro w₂ rule h₂ hrule
      rw [blockedBy_still h₁, hk.unblocked c hc] at hrule
      cases hrule
    · intro w₂ h₂ _ hnone
      have hsome := hk.known c hc b hb
      rw [h₁.reg] at hnone
      simp [hnone] at hsome
    · intro w₂ record h₂ _ hrec
      refine wp_discardKnown (b := b) (by rw [h₂.fs, hb₁]) (by rw [h₂.reg, hrec]) fun w₃ hun hf => ?_
      exact ⟨by rw [hf, h₂.reg, h₁.reg], (hun.onlyRemoves).after (h₁.trans h₂)⟩

theorem wp_processOne_known_batch (hk : KnownBatch env cs w) (hc : c ∈ cs) :
    (processOne env eng ps c).Wp (handle env) w fun _ w' =>
      w'.reg.files = w.reg.files ∧ KnownBatch env cs w' := by
  refine wp_mono ?_ (wp_and (wp_processOne_discards hk hc) (rules_run (processOne env eng ps c)))
  rintro r w' ⟨⟨hfiles, honly⟩, hrules⟩
  refine ⟨hfiles, fun c' hc' b hb => ?_, fun c' hc' => ?_⟩
  · rw [hfiles]
    rcases honly _ b hb with hold | hmoved
    · exact hk.known c' hc' b hold
    · exact hk.known c hc b hmoved
  · have hsame : blockedBy env c' w' = blockedBy env c' w := by
      simp only [blockedBy, Registry.enabledBlockRules, hrules]
    rw [hsame, hk.unblocked c' hc']

theorem wp_processAll_known : ∀ (todo : List (Nat × StagedCandidate)) (w : World),
    (∀ c ∈ todo, c.2 ∈ cs) → KnownBatch env cs w →
    (processAll env eng ps todo).Wp (handle env) w fun _ w' => w'.reg.files = w.reg.files
  | [], _, _, _ => wp_ret.mpr rfl
  | (index, c) :: todo, w, hin, hk => by
    unfold processAll
    refine wp_bind.mpr (wp_mono ?_ (wp_processOne_known_batch hk (hin (index, c) List.mem_cons_self)))
    rintro (e | out) w₁ ⟨hf₁, hk₁⟩
    · exact hf₁
    · refine wp_bind.mpr (wp_mono ?_ (wp_processAll_known todo w₁
        (fun c' hc' => hin c' (List.mem_cons_of_mem _ hc')) hk₁))
      rintro (e | outs) w₂ hf₂
      · exact hf₂.trans hf₁
      · exact wp_ret.mpr (hf₂.trans hf₁)

theorem wp_runBatch_known {bp : BatchParams} {policy : ZeroBytePolicy} (hk : KnownBatch env cs w) :
    (runBatch env eng bp policy cs).Wp (handle env) w fun _ w' =>
      w'.reg.files = w.reg.files := by
  unfold runBatch
  refine wp_bind.mpr (wp_op.mpr (wp_ret.mpr ?_))
  simp only [thenWp_ok]
  refine wp_bind.mpr (wp_quiet (calls_enforceHeuristics _) fun r w₁ h₁ => ?_)
  have hf₁ : w₁.reg.files = w.reg.files := by rw [h₁.reg]; rfl
  cases r with
  | error e => exact hf₁
  | ok u =>
    have hk₁ : KnownBatch env cs w₁ := by
      refine ⟨fun c hc b hb => ?_, fun c hc => ?_⟩
      · rw [hf₁]
        rw [h₁.fs] at hb
        exact hk.known c hc b hb
      · rw [blockedBy_still h₁]
        exact hk.unblocked c hc
    refine wp_bind.mpr (wp_mono ?_ (wp_processAll_known (scheduled bp.sizeAwareScheduling cs) w₁
      (fun c hc => mem_scheduled hc) hk₁))
    rintro (e | outs) w₂ hf₂
    · exact hf₂.trans hf₁
    · refine wp_bind.mpr ((keepsRows_recordOutcomes _ _ _ _).wp (R := SameRows)
        (fun _ => ⟨rfl, rfl⟩) (fun _ _ _ => SameRows.trans) (fun _ _ => sameRows_handle) ?_)
      rintro (e | u) w₃ h₃
      · exact h₃.files.trans (hf₂.trans hf₁)
      · exact wp_ret.mpr (h₃.files.trans (hf₂.trans hf₁))

theorem wp_processBatch_known (eng : Engine) (bp : BatchParams) (hk : KnownBatch env cs w) :
    (processBatch env eng bp cs).Wp (handle env) w fun _ w' => w'.reg.files = w.reg.files := by
  unfold processBatch
  refine wp_bind.mpr (wp_idle calls_validateBatchContract fun r => ?_)
  cases r with
  | error e => rfl
  | ok u =>
    simp only [thenWp_ok]
    split
    · exact wp_err.mpr rfl
    · split
      · exact wp_err.mpr rfl
      · split
        · exact wp_err.mpr rfl
        · exact wp_runBatch_known hk

end Batch

/-- A batch writes pairs by the upsert alone. -/
theorem pairing_processBatch {eng : Engine} {bp : BatchParams} {cs : List StagedCandidate} :
    (processBatch env eng bp cs).Calls fun o : Op => o.pairing = true := by
  have hone : ∀ o : Op, o.ofProcessOne = true → o.pairing = true := by
    intro o ho
    cases o with
    | tx t => cases t <;> first | rfl | cases ho
    | _ => rfl
  unfold processBatch
  refine calls_validateBatchContract.bind fun _ => ?_
  split
  · exact .err
  · refine .ite .err (.ite .err ?_)
    unfold runBatch
    refine Calls.bind (.op rfl fun _ => .ret) fun _ => (calls_enforceHeuristics _).bind fun _ => ?_
    refine (calls_processAll hone _).bind fun outs => ?_
    exact (calls_recordOutcomes (P := fun o : Op => o.pairing = true) rfl (fun _ _ _ _ _ => rfl)
      (fun _ _ _ _ _ _ _ _ => rfl) _ _ _ _).bind fun _ => .ret

/-! ## A reject of a rejected file -/

/-- `reject_sha256` answers `reject_noop_already_rejected`; files, rows and pairs
stay. -/
def RejectNoop (env : Env) (cfg : CoreConfig) (w : World) (sha : String) : Prop :=
  ∀ reason actor, ∃ w', (rejectSha256 env cfg sha reason actor).run (handle env) w =
      (.ok ⟨sha, .rejectNoopAlreadyRejected, []⟩, w') ∧ w'.fs = w.fs ∧
    w'.reg.files = w.reg.files ∧ w'.reg.livePhotoPairs = w.reg.livePhotoPairs

/-- A digest whose row is rejected. -/
def RejectedSha (w : World) (sha : String) : Prop :=
  IsSha sha ∧ w.reg.statusOf sha = some .rejected

theorem yields_rejectPair {reason actor : String} {pair : LivePhotoPairRecord} :
    (rejectPair env cfg sha reason actor pair).Yields fun r => r.action = .rejectedPair := by
  unfold rejectPair
  exact yields_bind yields_true fun _ _ => yields_bind yields_true fun _ _ =>
    yields_bind yields_true fun _ _ => rfl

/-- A reject of a row goes on with the pair it finds, unless that is rejected. -/
theorem run_rejectSha256_pair {reason : Option String} {actor : String} {row : FileRecord}
    {pair : LivePhotoPairRecord} (hs : IsSha sha) (hrow : w.reg.files.get sha = some row)
    (hpair : w.reg.getLivePhotoPairForMember sha = some pair) (hne : pair.status ≠ .of .rejected) :
    (rejectSha256 env cfg sha reason actor).run (handle env) w =
      (rejectPair env cfg sha (textOr reason "cli_reject") actor pair).run (handle env) w := by
  simp only [rejectSha256, withNormalizedSha, normalizeSha_of_isSha hs, applyReject, getFile,
    op_bind, ret_bind, run_op, handle, Registry.getFile, hrow, getLivePhotoPairForMember, hpair,
    if_pos hne]

theorem run_rejectSha256_known {reason : Option String} {actor : String} {row : FileRecord}
    (hs : IsSha sha) (hrow : w.reg.files.get sha = some row)
    (hclosed : ∀ pair, w.reg.getLivePhotoPairForMember sha = some pair →
      pair.status = .of .rejected) :
    (rejectSha256 env cfg sha reason actor).run (handle env) w =
      (rejectKnown env cfg sha (textOr reason "cli_reject") actor row).run (handle env) w := by
  simp only [rejectSha256, withNormalizedSha, normalizeSha_of_isSha hs, applyReject, getFile,
    op_bind, ret_bind, run_op, handle, Registry.getFile, hrow, getLivePhotoPairForMember]
  cases hpair : w.reg.getLivePhotoPairForMember sha with
  | none => rfl
  | some pair => simp only [hclosed pair hpair, ne_eq, not_true_eq_false, if_false]

/-- It is the no-op exactly when the pair it finds, if any, is rejected. -/
theorem rejectNoop_iff (env : Env) (cfg : CoreConfig) (h : RejectedSha w sha) :
    RejectNoop env cfg w sha ↔ ∀ st, memberStatus w.reg sha = some st → st = .of .rejected := by
  obtain ⟨hs, hst⟩ := h
  obtain ⟨row, hrow, hrej⟩ := Option.map_eq_some_iff.mp hst
  constructor
  · intro hno st hst
    obtain ⟨pair, hpair, rfl⟩ := Option.map_eq_some_iff.mp hst
    by_contra hne
    obtain ⟨w', hrun, -⟩ := hno none "cli"
    rw [run_rejectSha256_pair hs hrow hpair hne] at hrun
    have haction := yields_rejectPair.of_run (congrArg Prod.fst hrun)
    cases haction
  · intro hclosed reason actor
    rw [run_rejectSha256_known hs hrow fun pair hpair =>
      hclosed _ (by simp [memberStatus, hpair])]
    simp only [rejectKnown, hrej, if_true]
    exact ⟨_, rfl, rfl, rfl, rfl⟩

/-! ## The batch as a whole -/

/-- Every status of a file and of an existing pair is what it was, and a reject
of a file that was rejected before is a no-op. -/
structure ReingestIdempotent (env : Env) (cfg : CoreConfig) (w w' : World) : Prop where
  statuses : ∀ sha, w'.reg.statusOf sha = w.reg.statusOf sha
  pairs : ∀ id pair, w.reg.getLivePhotoPair id = some pair →
    ∃ pair', w'.reg.getLivePhotoPair id = some pair' ∧ pair'.status = pair.status
  noop : ∀ sha, IsSha sha → w.reg.statusOf sha = some .rejected → RejectNoop env cfg w' sha

def pairCandidate (onedriveId filename : String) (staging : Path) : StagedCandidate :=
  ⟨"alice", onedriveId, filename, "/Camera/" ++ filename, "2024-01-02T03:04:05Z", none, staging⟩

def pairBatch : BatchParams :=
  { sampleBatch with livePhotoHeuristics := some LivePhotoHeuristics.default }

def pairCandidates : List StagedCandidate :=
  [pairCandidate "id1" "IMG.JPG" ["staging", "x"], pairCandidate "id2" "IMG.MOV" ["staging", "y"]]

/-- Photo and video appear in staging beside the files of the queues. -/
def uploadPair (w : World) : Action :=
  .outside ((w.fs.put ["staging", "x"] [97]).put ["staging", "y"] [98]) []

/-- The pair is under review and is uploaded again. -/
def pairedAgain : World :=
  sampleWorld
    [(["lib", "pending", "2024", "01", "IMG.JPG"], [97]),
      (["lib", "pending", "2024", "01", "IMG.MOV"], [98]),
      (["staging", "x"], [97]), (["staging", "y"], [98])]
    { Registry.empty with
      files := (Table.put ∅ shaA
          (sampleRow .pending (some ["lib", "pending", "2024", "01", "IMG.JPG"]))).put shaB
        (sampleRow .pending (some ["lib", "pending", "2024", "01", "IMG.MOV"]))
      livePhotoPairs := [⟨livePhotoPairId sampleEnv "alice" "IMG" shaA shaB, "alice", "IMG", shaA,
        shaB, .paired, "2024-05-01T00:00:00+00:00", "2024-05-01T00:00:00+00:00"⟩] }

/-- A pair is ingested, rejected and uploaded again. -/
def rejectedAgain : World :=
  let w := sampleWorld [] Registry.empty
  let w' := after sampleEnv sampleConfig
    [uploadPair w, .command (.processBatch ⟨none⟩ pairBatch pairCandidates),
      .command (.rejectSha256 shaA none "cli")] w
  (uploadPair w').after sampleEnv sampleConfig w'

instance (w : World) (sha : String) : Decidable (RejectedSha w sha) := by
  unfold RejectedSha IsSha; infer_instance

theorem pairedAgain_known : KnownBatch sampleEnv pairCandidates pairedAgain := by
  have hx : pairedAgain.fs.get ["staging", "x"] = some [97] := by decide +kernel
  have hy : pairedAgain.fs.get ["staging", "y"] = some [98] := by decide +kernel
  refine ⟨fun c hc b hb => ?_, fun c hc => ?_⟩
  · simp only [pairCandidates, List.mem_cons, List.not_mem_nil, or_false] at hc
    rcases hc with rfl | rfl
    · obtain rfl := Option.some.inj (hx.symm.trans hb)
      decide +kernel
    · obtain rfl := Option.some.inj (hy.symm.trans hb)
      decide +kernel
  · simp only [pairCandidates, List.mem_cons, List.not_mem_nil, or_false] at hc
    rcases hc with rfl | rfl <;> decide +kernel

/-- No file of the pair is rejected. -/
theorem pairedAgain_closed : MembersClosed (RejectedSha pairedAgain) pairedAgain := by
  intro sha st hsha hst
  obtain ⟨pair, hpair, -⟩ := Option.map_eq_some_iff.mp hst
  have hpairs : pairedAgain.reg.livePhotoPairs.all (fun pair =>
      pairedAgain.reg.statusOf pair.photoSha256 = some .pending ∧
        pairedAgain.reg.statusOf pair.videoSha256 = some .pending) = true := by decide +kernel
  have hboth := List.all_eq_true.mp hpairs pair (List.mem_of_find?_eq_some hpair)
  have hmem := List.find?_some hpair
  simp only [decide_eq_true_eq] at hboth hmem
  have hrej := hsha.2
  rcases hmem with rfl | rfl
  · rw [hboth.1] at hrej
    cases hrej
  · rw [hboth.2] at hrej
    cases hrej

/-- No step of the batch collides or upserts a rejected member. -/
theorem pairedAgain_steps : ∀ e ∈ (processBatch sampleEnv ⟨none⟩ pairBatch pairCandidates).trace
    (handle sampleEnv) pairedAgain,
    NoCollision e.op e.pre ∧ UpsertSafe (RejectedSha pairedAgain) e.op e.pre := by
  decide +kernel

end Nightfall
