import Nightfall.L3Flows.OperatorSpecs
import Nightfall.L4System.System

/-!
# What a command may do to the registry

Most transactions a command issues are safe in every state (`Tx.Plain`). Three
flows are not, and each is lawful only for a reason: the row of an unknown hash
is written as pending because the hash was looked up just before and nothing in
between touches the registry; a block rule and an unknown hash in a reject
create a row as rejected and write its audit row in a transaction of its own.

* `Steps.command`: what the plain steps and these three flows keep, every
  command keeps. Each invariant of the registry is an instance.
* `arises_events`: the steps a run is made of; `after_inv`: what they keep.
-/
namespace Nightfall
open Nightfall.Core Storage Prog

/-- The audit actions that state no status. -/
def AuditAction.isNote : AuditAction → Bool
  | .discard _ => true
  | .prefilter _ => true
  | .rejectNoopAlreadyRejected => true
  | .recoveryInterruptedIngest => true
  | .authFailure => true
  | .syncImport => true
  | .status _ => false
  | .triage _ _ => false

/-- The transactions the commands issue outside the flows that create rows. -/
def Tx.Plain : Tx → Prop
  | .finalizeAcceptFromPending _ _ _ _ _ _ => True
  | .finalizeKnownIngest _ _ _ _ _ _ _ _ => True
  | .clearCurrentPath _ => True
  | .updateCurrentPath _ _ => True
  | .finalizePurgeFromRejected _ _ _ => True
  | .transitionStatus _ st _ _ => st = .rejected
  | .appendAuditEvent _ a _ _ => a.isNote = true
  | .appendIngestTerminalEvent _ _ _ _ _ _ _ _ => True
  | .upsertLivePhotoPair _ _ _ _ _ st => st = .paired
  | .setLivePhotoPairStatus _ st => st = .rejected
  | _ => False

def Op.Plain : Op → Prop
  | .tx t => t.Plain
  | _ => True

/-- The transactions the operator's commands issue on rows that exist. -/
def Tx.Operator : Tx → Prop
  | .finalizeAcceptFromPending _ _ _ _ _ _ => True
  | .clearCurrentPath _ => True
  | .updateCurrentPath _ _ => True
  | .finalizePurgeFromRejected _ _ _ => True
  | .transitionStatus _ st _ _ => st = .rejected
  | .appendAuditEvent _ a _ _ => a.isNote = true
  | .setLivePhotoPairStatus _ st => st = .rejected
  | _ => False

def Op.Operator : Op → Prop
  | .tx t => t.Operator
  | _ => True

/-- The transactions that create a row as rejected. -/
def Tx.Bars : Tx → Prop
  | .createOrUpdateFile _ _ st _ _ => st = .rejected
  | .upsertMetadataIndex _ _ _ _ _ => True
  | .upsertFileOrigin _ _ _ _ => True
  | .appendAuditEvent _ a _ _ => a = .status .rejected
  | _ => False

def Op.Bars : Op → Prop
  | .tx t => t.Bars
  | _ => True

theorem Op.NotTx.plain {o : Op} (h : o.NotTx) : o.Plain := by
  cases o with
  | tx t => cases h
  | _ => trivial

theorem Op.NotTx.operator {o : Op} (h : o.NotTx) : o.Operator := by
  cases o with
  | tx t => cases h
  | _ => trivial

theorem Op.Operator.plain {o : Op} (h : o.Operator) : o.Plain := by
  cases o with
  | tx t =>
    cases t with
    | finalizeAcceptFromPending | clearCurrentPath | updateCurrentPath
    | finalizePurgeFromRejected => trivial
    | transitionStatus | appendAuditEvent | setLivePhotoPairStatus => exact h
    | _ => cases h
  | _ => trivial

theorem Op.NotTx.bars {o : Op} (h : o.NotTx) : o.Bars := by
  cases o with
  | tx t => cases h
  | _ => trivial

/-- The hashes the commands write rows for: of content, or given in the form of one. -/
def Digest (env : Env) (sha : String) : Prop := (∃ b, sha = env.sha256 b) ∨ IsSha sha

/-- What a command's steps keep: `I` between them, `G` of each of them. -/
structure Steps (env : Env) (cfg : CoreConfig) (G : Op → World → World → Prop)
    (I : World → Prop) : Prop where
  plain : ∀ o w, o.Plain → I w → G o w (handle env o w).2 ∧ I (handle env o w).2
  unknown : ∀ b n name path account id src mt actor w,
    w.reg.files.get (env.sha256 b) = none → I w →
    let o := Op.tx (.finalizeUnknownIngest (env.sha256 b) n name path account id src mt actor)
    G o w (handle env o w).2 ∧ I (handle env o w).2
  blocked : ∀ eng c opId n b rule w, I w →
    (rejectBlocked eng c opId n (env.sha256 b) rule).Along (handle env) G w fun _ w' => I w'
  rejectUnknown : ∀ sha reason actor name size incoming w, Digest env sha →
    w.reg.files.get sha = none → I w →
    (rejectUnknown env cfg sha reason actor name size incoming).Along (handle env) G w
      fun _ w' => I w'

section
variable {env : Env} {cfg : CoreConfig} {G : Op → World → World → Prop} {I : World → Prop}
  {w : World}

theorem Steps.along_plain (h : Steps env cfg G I) {α : Type} {p : Flow α} (hp : p.Calls Op.Plain)
    (hw : I w) : p.Along (handle env) G w fun _ w' => I w' := hp.along_inv h.plain hw

theorem Steps.along_operator (h : Steps env cfg G I) {α : Type} {p : Flow α}
    (hp : p.Calls Op.Operator) (hw : I w) : p.Along (handle env) G w fun _ w' => I w' :=
  h.along_plain (hp.imp fun _ ho => ho.plain) hw

/-- Steps that are no transactions keep the registry, so what was read of it
still holds behind them. -/
theorem Steps.notTx_bind (h : Steps env cfg G I) {α β : Type} {p : Flow α} {f : α → Flow β}
    (hp : p.Calls Op.NotTx) (hw : I w)
    (hf : ∀ a w', I w' → w'.reg = w.reg → (f a).Along (handle env) G w' fun _ w'' => I w'') :
    (p >>= f).Along (handle env) G w fun _ w'' => I w'' := by
  refine along_bind_inv (I := fun w' => I w' ∧ w'.reg = w.reg) (fun _ ht => ht.1)
    (hp.along_inv (fun o s ho hs => ?_) ⟨hw, rfl⟩) fun a t ht => hf a t ht.1 ht.2
  obtain ⟨hG, hI⟩ := h.plain o s ho.plain hs.1
  exact ⟨hG, hI, by rw [handle_reg ho, hs.2]⟩

/-! ## Ingest -/

section Ingest
variable {eng : Engine} {ps : IngestParams} {c : StagedCandidate}

theorem Steps.ingestUnknown (h : Steps env cfg G I) {opId : String} {b : Bytes}
    (habs : w.reg.files.get (env.sha256 b) = none) (hw : I w) :
    (ingestUnknown env eng ps c opId (env.sha256 b)).Along (handle env) G w fun _ w' => I w' := by
  unfold Nightfall.ingestUnknown
  refine h.notTx_bind (calls_renderRelativePath rfl) hw fun rel w₁ hw₁ h₁ => ?_
  refine h.notTx_bind (calls_choose fun _ => rfl) hw₁ fun dest w₂ hw₂ h₂ => ?_
  refine h.notTx_bind (calls_commit fun _ ho _ => ho) hw₂ fun _ w₃ hw₃ h₃ => ?_
  refine h.notTx_bind (calls_journalAppend fun _ _ => rfl) hw₃ fun _ w₄ hw₄ h₄ => ?_
  refine h.notTx_bind (calls_statSize rfl) hw₄ fun size w₅ hw₅ h₅ => ?_
  have habs₅ : w₅.reg.files.get (env.sha256 b) = none := by rw [h₅, h₄, h₃, h₂, h₁, habs]
  obtain ⟨hG, hI⟩ := h.unknown b size c.originalFilename dest c.accountName c.onedriveId
    c.relativePath c.modifiedTime pipelineActor w₅ habs₅ hw₅
  refine along_bind.mpr ⟨hG, ?_⟩
  generalize (handle env _ w₅).1 = r
  cases r with
  | error e => exact hI
  | ok u => exact h.along_plain (Calls.bind (calls_journalAppend fun _ _ => trivial) fun _ => .ret) hI

theorem plain_discardKnown {opId sha : String} {record : FileRecord} :
    (discardKnown eng c opId sha record).Calls Op.Plain := by
  unfold discardKnown
  refine Calls.bind (calls_statSize trivial) fun _ => Calls.bind (calls_unlink trivial) fun _ => ?_
  exact Calls.bind (calls_transact trivial) fun _ =>
    Calls.bind (calls_journalAppend fun _ _ => trivial) fun _ => .ret

theorem plain_handleQuarantineOrDelete {path : Path} {dir : Option Path} {category : String} :
    (handleQuarantineOrDelete path dir category).Calls Op.Plain := by
  unfold handleQuarantineOrDelete
  split
  · exact calls_unlink trivial
  · refine Calls.bind (calls_pathExists trivial) fun b => ?_
    cases b
    · exact calls_replaceFile trivial
    · exact Calls.bind (calls_utcNow trivial) fun _ => calls_replaceFile trivial

theorem Steps.decideByHash (h : Steps env cfg G I) {opId : String} {n : Nat} (hw : I w) :
    (decideByHash env eng ps c opId n).Along (handle env) G w fun _ w' => I w' := by
  unfold Nightfall.decideByHash
  obtain ⟨hG, hI⟩ := h.plain (.sha256File c.stagingPath) w trivial hw
  refine along_bind.mpr ⟨hG, ?_⟩
  cases hb : w.fs.get c.stagingPath with
  | none =>
    simp only [handle, hb]
    exact hI
  | some b =>
    simp only [handle, hb, Option.map_some, along_ret, thenPost]
    refine h.notTx_bind (calls_journalAppend fun _ _ => rfl) hw fun _ w₁ hw₁ _ => ?_
    have hrules : (matchBlockRule env c.originalFilename).Calls Op.NotTx := .op rfl fun _ => .ret
    refine h.notTx_bind hrules hw₁ fun rule w₂ hw₂ _ => ?_
    cases rule with
    | some rule => exact h.blocked eng c opId n _ rule w₂ hw₂
    | none =>
      obtain ⟨hG₂, -⟩ := h.plain (.getFile (env.sha256 b)) w₂ trivial hw₂
      refine along_bind.mpr ⟨hG₂, ?_⟩
      simp only [along_ret, thenPost, handle, Registry.getFile]
      cases hrow : w₂.reg.files.get (env.sha256 b) with
      | none => exact h.ingestUnknown hrow hw₂
      | some record => exact h.along_plain plain_discardKnown hw₂

theorem Steps.decideStaged (h : Steps env cfg G I) {opId : String} {n : Nat} (hw : I w) :
    (decideStaged env eng ps c opId n).Along (handle env) G w fun _ w' => I w' := by
  unfold Nightfall.decideStaged
  have hpre : (prefilterStatus c).Calls Op.NotTx := .op rfl fun _ => .ret
  refine h.notTx_bind hpre hw fun hit w₁ hw₁ _ => ?_
  rcases hit with _ | ⟨st, sha⟩
  · exact h.decideByHash hw₁
  · simp only [discardPrefiltered]
    refine h.along_plain (Calls.bind (calls_unlink trivial) fun _ => ?_) hw₁
    exact Calls.bind (calls_transact rfl) fun _ => .ret

theorem Steps.processOne (h : Steps env cfg G I) (hw : I w) :
    (processOne env eng ps c).Along (handle env) G w fun _ w' => I w' := by
  unfold Nightfall.processOne
  refine h.notTx_bind (p := uuid4) (.op rfl fun _ => .ret) hw fun uuid w₁ hw₁ _ => ?_
  refine h.notTx_bind (calls_journalAppend fun _ _ => rfl) hw₁ fun _ w₂ hw₂ _ => ?_
  refine h.notTx_bind (calls_pathExists rfl) hw₂ fun staged w₃ hw₃ _ => ?_
  cases staged with
  | false =>
    exact h.along_plain (Calls.bind (calls_journalAppend fun _ _ => trivial) fun _ => .ret) hw₃
  | true =>
    refine h.notTx_bind (calls_statSize rfl) hw₃ fun size w₄ hw₄ _ => ?_
    split
    · refine h.along_plain (Calls.bind (calls_journalAppend fun _ _ => trivial) fun _ => ?_) hw₄
      exact plain_handleQuarantineOrDelete.bind fun _ => .ret
    · split
      · exact h.along_plain (Calls.bind (calls_unlink trivial) fun _ => .ret) hw₄
      · split
        · exact h.along_plain (plain_handleQuarantineOrDelete.bind fun _ => .ret) hw₄
        · exact h.decideStaged hw₄

theorem Steps.processAll (h : Steps env cfg G I) :
    ∀ (cs : List (Nat × StagedCandidate)) (w : World), I w →
      (processAll env eng ps cs).Along (handle env) G w fun _ w' => I w'
  | [], _, hw => hw
  | (index, c) :: cs, w, hw => by
    unfold Nightfall.processAll
    refine along_bind_inv (fun _ ht => ht) (h.processOne hw) fun out w₁ hw₁ => ?_
    exact along_bind_inv (fun _ ht => ht) (h.processAll cs w₁ hw₁) fun outs w₂ hw₂ => hw₂

theorem Steps.runBatch (h : Steps env cfg G I) {bp : BatchParams} {policy : ZeroBytePolicy}
    {cs : List StagedCandidate} (hw : I w) :
    (runBatch env eng bp policy cs).Along (handle env) G w fun _ w' => I w' := by
  unfold Nightfall.runBatch
  refine h.notTx_bind (p := uuid4) (.op rfl fun _ => .ret) hw fun batchRunId w₁ hw₁ _ => ?_
  refine h.notTx_bind (calls_enforceHeuristics _) hw₁ fun _ w₂ hw₂ _ => ?_
  refine along_bind_inv (fun _ ht => ht) (h.processAll _ w₂ hw₂) fun outs w₃ hw₃ => ?_
  exact h.along_plain ((calls_recordOutcomes trivial (fun _ _ _ _ _ => rfl)
    (fun _ _ _ _ _ _ _ _ => trivial) _ _ _ _).bind fun _ => .ret) hw₃

theorem Steps.processBatch (h : Steps env cfg G I) {bp : BatchParams} {cs : List StagedCandidate}
    (hw : I w) : (processBatch env eng bp cs).Along (handle env) G w fun _ w' => I w' := by
  unfold Nightfall.processBatch
  refine h.notTx_bind calls_validateBatchContract hw fun _ w₁ hw₁ _ => ?_
  split
  · exact hw₁
  · split_ifs
    · exact hw₁
    · exact hw₁
    · exact h.runBatch hw₁

end Ingest

/-! ## Operator commands -/

theorem operator_movePhysicalToRejected {source : Option Path} {sha mt : String}
    {name : Option String} :
    (movePhysicalToRejected env cfg source sha name mt).Calls Op.Operator := by
  unfold movePhysicalToRejected
  cases source with
  | none => constructor
  | some source =>
    refine Calls.bind (calls_pathExists trivial) fun b => ?_
    cases b
    · constructor
    · refine Calls.bind (calls_renderRelativePath trivial) fun rel => ?_
      refine Calls.bind (calls_choose fun _ => trivial) fun dest => ?_
      exact Calls.bind (calls_replaceFile trivial) fun _ => .ret

theorem operator_moveToRejectedFolder {sha : String} :
    (moveToRejectedFolder env cfg sha).Calls Op.Operator := by
  unfold moveToRejectedFolder
  refine Calls.bind (calls_getFile trivial) fun record => ?_
  rcases record with _ | record
  · constructor
  · simp only
    split
    · constructor
    · refine Calls.bind (calls_pathExists trivial) fun b => ?_
      cases b
      · exact Calls.bind (calls_transact trivial) fun _ => .ret
      · simp only [if_true]
        split
        · constructor
        · refine Calls.bind (calls_rejectModifiedTime trivial trivial) fun mt => ?_
          refine operator_movePhysicalToRejected.bind fun dest => ?_
          cases dest with
          | none => constructor
          | some dest => exact Calls.bind (calls_transact trivial) fun _ => .ret

theorem operator_rejectKnown {sha reason actor : String} {record : FileRecord} :
    (rejectKnown env cfg sha reason actor record).Calls Op.Operator := by
  unfold rejectKnown
  split
  · exact Calls.bind (calls_transact rfl) fun _ => .ret
  · refine operator_moveToRejectedFolder.bind fun removed => ?_
    exact Calls.bind (calls_transactOrReject rfl) fun _ => .ret

theorem operator_rejectPair {sha reason actor : String} {pair : LivePhotoPairRecord} :
    (rejectPair env cfg sha reason actor pair).Calls Op.Operator := by
  unfold rejectPair
  refine operator_moveToRejectedFolder.bind fun photo => ?_
  refine operator_moveToRejectedFolder.bind fun video => ?_
  unfold applyLivePhotoPairStatus
  refine Calls.bind (Calls.bind (p := getLivePhotoPair _) (.op trivial fun _ => .ret)
    fun p => ?_) fun _ => .ret
  cases p with
  | none => constructor
  | some p =>
    refine Calls.bind (calls_transact rfl) fun _ => ?_
    exact Calls.bind (calls_transact rfl) fun _ => calls_transact rfl

theorem Steps.applyReject (h : Steps env cfg G I) {sha reason actor : String}
    {name : Option String} {size : Nat} {incoming : Option Path} (hd : Digest env sha) (hw : I w) :
    (applyReject env cfg sha reason actor name size incoming).Along (handle env) G w
      fun _ w' => I w' := by
  unfold Nightfall.applyReject
  obtain ⟨hG, -⟩ := h.plain (.getFile sha) w trivial hw
  refine along_bind.mpr ⟨hG, ?_⟩
  simp only [along_ret, thenPost, handle, Registry.getFile]
  cases hrow : w.reg.files.get sha with
  | none => exact h.rejectUnknown sha reason actor name size incoming w hd hrow hw
  | some record =>
    refine h.along_operator (Calls.bind (.op trivial fun _ => .ret) fun pair => ?_) hw
    cases pair with
    | none => exact operator_rejectKnown
    | some pair => exact .ite operator_rejectPair operator_rejectKnown

/-- A command that normalises its argument fails without a step or runs on. -/
theorem along_withNormalizedSha {α : Type} {sha : String} {f : String → Flow α} (hw : I w)
    (h : ∀ n, IsSha n → (f n).Along (handle env) G w fun _ w' => I w') :
    (withNormalizedSha sha f).Along (handle env) G w fun _ w' => I w' := by
  unfold withNormalizedSha
  split
  · exact hw
  · next n hn => exact h n (normalizeSha_isSha hn)

theorem Steps.trashLoop (h : Steps env cfg G I) :
    ∀ (files : List Path) (acc : TrashProcessResult) (w : World), I w →
      (trashLoop env cfg files acc).Along (handle env) G w fun _ w' => I w'
  | [], _, _, hw => hw
  | file :: files, acc, w, hw => by
    unfold Nightfall.trashLoop
    have hone : (trashOne env cfg file).Along (handle env) G w fun _ w' => I w' := by
      unfold trashOne
      obtain ⟨hG, hI⟩ := h.plain (.sha256File file) w trivial hw
      refine along_bind.mpr ⟨hG, ?_⟩
      cases hb : w.fs.get file with
      | none =>
        simp only [handle, hb]
        exact hI
      | some b =>
        simp only [handle, hb, Option.map_some, along_ret, thenPost]
        refine h.notTx_bind (calls_statSize rfl) hw fun n w₁ hw₁ _ => ?_
        refine along_bind_inv (fun _ ht => ht) (h.applyReject (.inl ⟨b, rfl⟩) hw₁) fun r w₂ hw₂ => ?_
        exact h.along_plain (Calls.bind (calls_unlink trivial) fun _ => .ret) hw₂
    exact along_bind_inv (fun _ ht => ht) hone fun r w₁ hw₁ => h.trashLoop files _ w₁ hw₁

theorem Steps.processTrash (h : Steps env cfg G I) (hw : I w) :
    (processTrash env cfg).Along (handle env) G w fun _ w' => I w' := by
  unfold Nightfall.processTrash
  refine h.notTx_bind (p := rglobFiles cfg.trashPath) (.op rfl fun _ => .ret) hw
    fun files w₁ hw₁ _ => ?_
  exact along_bind_inv (fun _ ht => ht) (h.trashLoop files _ w₁ hw₁) fun _ w₂ hw₂ => hw₂

theorem operator_acceptFrom {sha actor : String} {reason : Option String}
    {context : Registry.AcceptContext} {record : FileRecord} {source : Path} :
    (acceptFrom env cfg sha actor reason context record source).Calls Op.Operator := by
  unfold acceptFrom
  split
  · refine Calls.bind (calls_renderRelativePath trivial) fun rel => ?_
    refine Calls.bind (calls_choose fun _ => trivial) fun dest => ?_
    have hdev : ∀ a b, (areOnSameFilesystem a b).Calls Op.Operator :=
      fun _ _ => .op trivial fun _ => .op trivial fun _ => .ret
    refine (hdev _ _).bind fun same => ?_
    unfold commitPendingToAccepted
    refine Calls.bind (calls_commit fun _ ho _ => Op.NotTx.operator ho) fun _ => ?_
    exact Calls.bind (calls_transact trivial) fun _ => .ret
  · constructor

theorem operator_acceptSha256 {sha actor : String} {reason : Option String} :
    (acceptSha256 env cfg sha reason actor).Calls Op.Operator := by
  unfold acceptSha256
  refine calls_withNormalizedSha fun n => Calls.bind (calls_getAcceptContext trivial) fun ctx => ?_
  cases ctx with
  | none => constructor
  | some ctx =>
    refine Calls.bind (calls_getFile trivial) fun record => ?_
    cases record with
    | none => constructor
    | some record =>
      refine .ite .err ?_
      cases record.currentPath with
      | none => exact .err
      | some source => exact operator_acceptFrom

theorem operator_purgeSha256 {sha actor : String} {reason : Option String} :
    (purgeSha256 cfg sha reason actor).Calls Op.Operator := by
  unfold purgeSha256
  refine calls_withNormalizedSha fun n => Calls.bind (calls_getFile trivial) fun record => ?_
  cases record with
  | none => constructor
  | some record =>
    refine .ite .err (Calls.bind ?_ fun _ =>
      Calls.bind (calls_transactOrReject trivial) fun _ => .ret)
    unfold purgeFile
    cases record.currentPath with
    | none => constructor
    | some current =>
      refine .ite (Calls.bind (calls_pathExists trivial) fun b => ?_) .err
      cases b
      · constructor
      · exact Calls.bind (calls_unlink trivial) fun _ => .ret

/-! ## Every command -/

/-- A command keeps what its steps keep. -/
theorem Steps.command (h : Steps env cfg G I) (c : Command) (hw : I w) :
    (c.flow env cfg).Along (handle env) G w fun _ w' => I w' := by
  cases c <;> simp only [Command.flow]
  case processBatch eng bp cs =>
    exact along_bind_inv (fun _ ht => ht) (h.processBatch hw) fun _ _ ht => ht
  case acceptSha256 sha reason actor =>
    exact h.along_operator (operator_acceptSha256.bind fun _ => .ret) hw
  case rejectSha256 sha reason actor =>
    refine along_bind_inv (fun _ ht => ht) ?_ fun _ _ ht => ht
    unfold Nightfall.rejectSha256
    exact along_withNormalizedSha hw fun n hn => h.applyReject (.inr hn) hw
  case processTrash => exact along_bind_inv (fun _ ht => ht) (h.processTrash hw) fun _ _ ht => ht
  case purgeSha256 sha reason actor =>
    exact h.along_operator (operator_purgeSha256.bind fun _ => .ret) hw

end

/-! ## The steps of a run -/

/-- A step some command makes in the state `w`. -/
inductive Op.Arises (env : Env) (w : World) : Op → Prop
  | plain {o : Op} (h : o.Plain) : Arises env w o
  | bars {o : Op} (h : o.Bars) : Arises env w o
  | unknown {b : Bytes} {n : Nat} {name : String} {path : Path} {account id src mt actor : String}
      (h : w.reg.files.get (env.sha256 b) = none) :
      Arises env w (.tx (.finalizeUnknownIngest (env.sha256 b) n name path account id src mt actor))

section
variable {env : Env} {cfg : CoreConfig}

theorem bars_rejectBlocked {eng : Engine} {c : StagedCandidate} {opId sha : String} {n : Nat}
    {rule : RuleType × String} : (rejectBlocked eng c opId n sha rule).Calls Op.Bars := by
  unfold rejectBlocked
  refine Calls.bind (calls_unlink trivial) fun _ => Calls.bind (calls_transact rfl) fun _ => ?_
  refine Calls.bind (calls_transact trivial) fun _ => Calls.bind (calls_transact trivial) fun _ => ?_
  exact Calls.bind (calls_transact rfl) fun _ =>
    Calls.bind (calls_journalAppend fun _ _ => trivial) fun _ => .ret

theorem arises_rejectUnknown {sha reason actor : String} {name : Option String} {size : Nat}
    {incoming : Option Path} :
    (rejectUnknown env cfg sha reason actor name size incoming).Calls fun o : Op =>
      o.Plain ∨ o.Bars := by
  unfold rejectUnknown
  refine Calls.bind (calls_utcNow (.inl trivial)) fun now => ?_
  refine (operator_movePhysicalToRejected.imp fun _ ho => .inl ho.plain).bind fun p => ?_
  refine Calls.bind (calls_transact (.inr rfl)) fun _ => ?_
  exact Calls.bind (calls_transact (.inr rfl)) fun _ => .ret

theorem steps_arises : Steps env cfg (fun o w _ => o.Arises env w) fun _ => True where
  plain _ _ ho _ := ⟨.plain ho, trivial⟩
  unknown _ _ _ _ _ _ _ _ _ _ habs _ := ⟨.unknown habs, trivial⟩
  blocked _ _ _ _ _ _ _ hw := bars_rejectBlocked.along_inv (fun _ _ ho _ => ⟨.bars ho, trivial⟩) hw
  rejectUnknown _ _ _ _ _ _ _ _ _ hw := arises_rejectUnknown.along_inv
    (fun _ _ ho _ => ⟨ho.elim .plain .bars, trivial⟩) hw

/-- Every step of every run arises in the state it met. -/
theorem arises_events (as : List Action) (w : World) :
    ∀ e ∈ events env cfg as w, Op.Arises env e.pre e.op :=
  events_of_command (G := fun o w _ => Op.Arises env w o)
    (fun c _ => along_mono (fun _ _ _ => trivial) (steps_arises.command c trivial)) as w

/-- What every arising step keeps that meets `C`, and what is done outside,
holds at the end of every run whose steps meet `C`. -/
theorem after_inv {C : Op → World → Prop} {I : World → Prop}
    (hstep : ∀ o w, o.Arises env w → C o w → I w → I (handle env o w).2)
    (hout : ∀ fs rules w, I w →
      I { w with fs := fs, reg := { w.reg with blockedRules := rules } }) :
    ∀ (as : List Action) (w : World), (∀ e ∈ events env cfg as w, C e.op e.pre) → I w →
      I (after env cfg as w)
  | [], _, _, hw => hw
  | a :: as, w, hC, hw => by
    have hstart : ∀ e ∈ a.events env cfg w, e.op.Arises env e.pre ∧ C e.op e.pre :=
      fun e he => ⟨arises_events (a :: as) w e (List.mem_append_left _ he),
        hC e (List.mem_append_left _ he)⟩
    refine after_inv hstep hout as _ (fun e he => hC e (List.mem_append_right _ he)) ?_
    cases a with
    | command c =>
      have hkeep : ∀ (o : Op) s, o.Arises env s ∧ C o s → I s → I (handle env o s).2 :=
        fun o s h hs => hstep o s h.1 h.2 hs
      exact run_inv (S := Ops) (C := fun o s => Op.Arises env s o ∧ C o s) hkeep hstart hw
    | outside fs rules => exact hout fs rules w hw

end
end Nightfall
