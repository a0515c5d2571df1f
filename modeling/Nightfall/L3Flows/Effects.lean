import Nightfall.L3Flows.Operator
import Nightfall.L3Flows.ThreadPool

/-!
# What the flows may call

The frame of each kind of step (`handle_reg`, `handle_fs`, `handle_journal`),
and for every flow the steps that occur in it, whatever the answers: a fact
about a single step carries over to a whole flow through `Prog.Calls`.
-/
namespace Nightfall
open Nightfall.Core Storage Prog

/-! ## Frames of the steps -/

def Op.isTx : Op → Bool
  | .tx _ => true
  | _ => false

/-- The step is no transaction. -/
def Op.NotTx (o : Op) : Prop := o.isTx = false

def Op.writesFs : Op → Bool
  | .replace _ _ => true
  | .copy2 _ _ => true
  | .unlink _ => true
  | _ => false

def Op.writesJournal : Op → Bool
  | .journalAppend _ _ => true
  | .journalClear => true
  | _ => false

variable {env : Env} {w : World}

theorem handle_reg {o : Op} (h : o.isTx = false) : (handle env o w).2.reg = w.reg := by
  cases o with
  | tx t => cases h
  | replace src dst => simp only [handle]; split <;> rfl
  | copy2 src dst => simp only [handle]; split <;> rfl
  | _ => rfl

theorem handle_fs {o : Op} (h : o.writesFs = false) : (handle env o w).2.fs = w.fs := by
  cases o with
  | replace src dst => cases h
  | copy2 src dst => cases h
  | unlink p => cases h
  | tx t => simp only [handle]; split <;> rfl
  | _ => rfl

theorem handle_journal {o : Op} (h : o.writesJournal = false) :
    (handle env o w).2.journal = w.journal := by
  cases o with
  | journalAppend m r => cases h
  | journalClear => cases h
  | replace src dst => simp only [handle]; split <;> rfl
  | copy2 src dst => simp only [handle]; split <;> rfl
  | tx t => simp only [handle]; split <;> rfl
  | _ => rfl

/-- Nothing but the registry is compared. -/
def SameReg (w w' : World) : Prop := w'.reg = w.reg

theorem SameReg.trans {w₁ w₂ w₃ : World} (h₁ : SameReg w₁ w₂) (h₂ : SameReg w₂ w₃) :
    SameReg w₁ w₃ := Eq.trans h₂ h₁

/-- The files and the `files` table are the same. -/
structure SameRows (w w' : World) : Prop where
  fs : w'.fs = w.fs
  files : w'.reg.files = w.reg.files

theorem SameRows.trans {w₁ w₂ w₃ : World} (h₁ : SameRows w₁ w₂) (h₂ : SameRows w₂ w₃) :
    SameRows w₁ w₃ := ⟨h₂.fs.trans h₁.fs, h₂.files.trans h₁.files⟩

/-- The step writes no file and no row of `files`. -/
def Op.KeepsRows : Op → Prop
  | .tx t => ∀ r r' now, t.apply r now = .ok r' → r'.files = r.files
  | o => o.writesFs = false

theorem sameRows_handle {o : Op} (h : o.KeepsRows) : SameRows w (handle env o w).2 := by
  cases o with
  | tx t =>
    refine ⟨handle_fs rfl, ?_⟩
    simp only [handle]
    split
    · next r hr => exact h _ _ _ hr
    · rfl
  | replace src dst => cases h
  | copy2 src dst => cases h
  | unlink p => cases h
  | _ => exact ⟨handle_fs rfl, congrArg Registry.files (handle_reg rfl)⟩

/-- The transactions that leave the `files` table alone. -/
def Tx.keepsFiles : Tx → Bool
  | .upsertMetadataIndex _ _ _ _ _ => true
  | .upsertFileOrigin _ _ _ _ => true
  | .finalizeKnownIngest _ _ _ _ _ _ _ _ => true
  | .appendAuditEvent _ _ _ _ => true
  | _ => false

theorem files_of_keepsFiles {t : Tx} {r r' : Registry} {now : String} (h : t.keepsFiles = true)
    (hr : t.apply r now = .ok r') : r'.files = r.files := by
  cases t with
  | upsertMetadataIndex | appendAuditEvent => cases hr; rfl
  | upsertFileOrigin => exact Registry.files_upsertFileOrigin hr
  | finalizeKnownIngest => exact Registry.files_finalizeKnownIngest hr
  | _ => cases h

/-- The same state at some other time. -/
def Later (w t : World) : Prop := ∃ m, t = { w with ticks := m }

theorem Later.refl (w : World) : Later w w := ⟨w.ticks, rfl⟩

theorem Later.trans {w t u : World} : Later w t → Later t u → Later w u := by
  rintro ⟨m, rfl⟩ ⟨m', rfl⟩
  exact ⟨m', rfl⟩

/-- The step changes nothing but the time. -/
def Op.readsOnly : Op → Bool
  | .uuid4 => false
  | o => !o.isTx && !o.writesFs && !o.writesJournal

theorem later_handle {o : Op} (h : o.readsOnly = true) :
    Later w (handle env o w).2 := by
  cases o with
  | now | getAcceptContext => exact ⟨w.ticks + 1, rfl⟩
  | uuid4 | replace | copy2 | unlink | journalAppend | journalClear | tx => cases h
  | _ => exact .refl w

/-! ## Single steps -/

variable {P : Op → Prop}

theorem calls_pathExists {p : Path} (h : P (.pathExists p)) : (pathExists p).Calls P :=
  .op h fun _ => .ret

theorem calls_statSize {p : Path} (h : P (.statSize p)) : (statSize p).Calls P :=
  .op h fun r => by cases r <;> constructor

theorem calls_sha256File {p : Path} (h : P (.sha256File p)) : (sha256File p).Calls P :=
  .op h fun r => by cases r <;> constructor

theorem calls_replaceFile {src dst : Path} (h : P (.replace src dst)) :
    (replaceFile src dst).Calls P :=
  .op h fun r => by cases r <;> constructor

theorem calls_copy2 {src dst : Path} (h : P (.copy2 src dst)) : (copy2 src dst).Calls P :=
  .ite .err <|
  .op h fun r => by cases r <;> constructor

theorem calls_unlink {p : Path} (h : P (.unlink p)) : (unlink p).Calls P := .op h fun _ => .ret

theorem calls_utcNow (h : P .now) : utcNow.Calls P := .op h fun _ => .ret

theorem calls_transact {t : Tx} (h : P (.tx t)) : (transact t).Calls P :=
  .op h fun r => by rcases r with _ | _ <;> constructor

theorem calls_transactOrReject {t : Tx} (h : P (.tx t)) : (transactOrReject t).Calls P :=
  .op h fun r => by rcases r with (_ | _ | _) | _ <;> constructor

theorem calls_getFile {sha : String} (h : P (.getFile sha)) : (getFile sha).Calls P :=
  .op h fun _ => .ret

theorem calls_getAcceptContext {sha : String} (h : P (.getAcceptContext sha)) :
    (getAcceptContext sha).Calls P := .op h fun _ => .ret

theorem calls_rejectModifiedTime {sha : String} (h : P (.getAcceptContext sha)) (hnow : P .now) :
    (rejectModifiedTime sha).Calls P := by
  refine Calls.bind (calls_getAcceptContext h) fun ctx => ?_
  cases ctx with
  | none => exact Calls.bind (calls_utcNow hnow) fun _ => .ret
  | some ctx => exact .ret

theorem calls_journalAppend {eng : Engine} {opId : String} {phase : JournalPhase}
    {c : StagedCandidate} {d : Option Path} {sha : Option String}
    (h : ∀ m r, P (.journalAppend m r)) : (journalAppend eng opId phase c d sha).Calls P := by
  unfold journalAppend
  split
  · constructor
  · exact .op (h _ _) fun _ => .ret

/-! ## Storage -/

theorem calls_parseTimestamp {v : String} (h : P .now) : (parseTimestamp env v).Calls P := by
  unfold parseTimestamp
  split
  · constructor
  · exact Calls.bind (calls_utcNow h) fun _ => .ret

theorem calls_renderRelativePath {template sha original mt : String} (h : P .now) :
    (renderRelativePath env template sha original mt).Calls P := by
  unfold renderRelativePath
  refine Calls.bind (calls_parseTimestamp h) fun ts => ?_
  split <;> constructor

theorem calls_tryCollisions {base : Path} (h : ∀ p, P (.pathExists p)) :
    ∀ index n, (tryCollisions base index n).Calls P
  | _, 0 => .ret
  | index, n + 1 => by
    unfold tryCollisions
    refine Calls.bind (calls_pathExists (h _)) fun b => ?_
    cases b
    · constructor
    · exact calls_tryCollisions h (index + 1) n

theorem calls_choose {base : Path} {n : Int} (h : ∀ p, P (.pathExists p)) :
    (chooseCollisionSafeDestinationWithThreshold base n).Calls P := by
  unfold chooseCollisionSafeDestinationWithThreshold
  split
  · constructor
  · refine Calls.bind (calls_pathExists (h _)) fun b => ?_
    cases b
    · constructor
    · refine Calls.bind (calls_tryCollisions h _ _) fun r => ?_
      cases r <;> constructor

theorem calls_ensureWithin {p : Path} {root : Option Path} : (ensureWithin p root).Calls P := by
  cases root with
  | none => exact .ret
  | some root => simp only [ensureWithin, ensureWithinRoot]; split <;> constructor

/-- A commit moves or copies one file and touches no table and no journal. -/
theorem calls_commit {source destination : Path} {same : Bool} {root : Option Path}
    (h : ∀ o : Op, o.isTx = false → o.writesJournal = false → P o) :
    (commitStagingToAccepted source destination same root).Calls P := by
  have hrename : (commitRename source destination).Calls P :=
    Calls.bind (calls_replaceFile (h _ rfl rfl)) fun _ =>
      Calls.bind (calls_statSize (h _ rfl rfl)) fun _ => .ret
  have hcopy : (commitCopy source destination).Calls P := by
    refine Calls.bind (calls_copy2 (h _ rfl rfl)) fun _ => ?_
    refine Calls.bind (calls_statSize (h _ rfl rfl)) fun n => ?_
    refine Calls.bind (calls_statSize (h _ rfl rfl)) fun m => ?_
    split
    · exact Calls.bind (calls_unlink (h _ rfl rfl)) fun _ => .err
    · refine Calls.bind (calls_sha256File (h _ rfl rfl)) fun a => ?_
      refine Calls.bind (calls_sha256File (h _ rfl rfl)) fun b => ?_
      split
      · exact Calls.bind (calls_unlink (h _ rfl rfl)) fun _ => .err
      · refine Calls.bind (calls_replaceFile (h _ rfl rfl)) fun _ => ?_
        exact Calls.bind (calls_unlink (h _ rfl rfl)) fun _ => .ret
  unfold commitStagingToAccepted
  refine Calls.bind (calls_pathExists (h _ rfl rfl)) fun b => ?_
  cases b
  · constructor
  · refine calls_ensureWithin.bind fun _ => ?_
    cases same
    · exact hcopy
    · exact hrename

/-! ## One candidate -/

/-- The registry methods `_process_one` calls. -/
def Tx.ofProcessOne : Tx → Bool
  | .createOrUpdateFile _ _ _ _ _ => true
  | .upsertMetadataIndex _ _ _ _ _ => true
  | .upsertFileOrigin _ _ _ _ => true
  | .finalizeUnknownIngest _ _ _ _ _ _ _ _ _ => true
  | .finalizeKnownIngest _ _ _ _ _ _ _ _ => true
  | .appendAuditEvent _ _ _ _ => true
  | _ => false

/-- The steps `_process_one` takes. -/
def Op.ofProcessOne : Op → Bool
  | .tx t => t.ofProcessOne
  | .journalClear => false
  | _ => true

/-- What a registry method of `_process_one` leaves alone. -/
structure SameRecords (r r' : Registry) : Prop where
  terminal : r'.ingestTerminalAudit = r.ingestTerminalAudit
  pairs : r'.livePhotoPairs = r.livePhotoPairs

theorem SameRecords.upsertFile (r : Registry) (sha : String) (n : Nat) (st : Status)
    (name : Option String) (path : Option Path) (now : String) :
    SameRecords r (r.upsertFile sha n st name path now) := by
  unfold Registry.upsertFile
  cases r.files.get sha <;> exact ⟨rfl, rfl⟩

theorem SameRecords.upsertFileOrigin {r r' : Registry} {sha account id now : String}
    {hint : Option String} (h : r.upsertFileOrigin sha account id hint now = .ok r') :
    SameRecords r r' := by
  unfold Registry.upsertFileOrigin at h
  simp only at h
  split at h
  · cases h; exact ⟨rfl, rfl⟩
  · cases h

theorem sameRecords_ofProcessOne {t : Tx} {r r' : Registry} {now : String}
    (h : t.ofProcessOne = true) (hr : t.apply r now = .ok r') : SameRecords r r' := by
  cases t with
  | createOrUpdateFile => cases hr; exact .upsertFile ..
  | upsertMetadataIndex | appendAuditEvent => cases hr; exact ⟨rfl, rfl⟩
  | upsertFileOrigin => exact .upsertFileOrigin hr
  | finalizeUnknownIngest sha n name path =>
    simp only [Tx.apply, Registry.finalizeUnknownIngest, bind, Except.bind] at hr
    split at hr
    · cases hr
    · next r₁ h₁ =>
      cases hr
      have hfile := SameRecords.upsertFile r sha n .pending (some name) (some path) now
      have horigin := SameRecords.upsertFileOrigin h₁
      exact ⟨horigin.terminal.trans hfile.terminal, horigin.pairs.trans hfile.pairs⟩
  | finalizeKnownIngest =>
    simp only [Tx.apply, Registry.finalizeKnownIngest, bind, Except.bind] at hr
    split at hr
    · cases hr
    · next r₁ h₁ =>
      cases hr
      have horigin := SameRecords.upsertFileOrigin h₁
      exact ⟨horigin.terminal, horigin.pairs⟩
  | _ => cases h

/-- No step of a call adds a terminal row or touches a pair. -/
theorem sameRecords_handle {o : Op} (h : o.ofProcessOne = true) :
    SameRecords w.reg (handle env o w).2.reg := by
  cases o with
  | tx t =>
    simp only [handle]
    split
    · next r hr => exact sameRecords_ofProcessOne h hr
    · exact ⟨rfl, rfl⟩
  | _ => rw [handle_reg rfl]; exact ⟨rfl, rfl⟩

theorem ofProcessOne_of_notTx {o : Op} (ht : o.isTx = false) (hj : o.writesJournal = false) :
    o.ofProcessOne = true := by
  cases o with
  | tx t => cases ht
  | journalClear => cases hj
  | _ => rfl

theorem calls_handleQuarantineOrDelete {path : Path} {dir : Option Path} {category : String}
    (h : ∀ o : Op, o.ofProcessOne = true → P o) :
    (handleQuarantineOrDelete path dir category).Calls P := by
  unfold handleQuarantineOrDelete
  cases dir with
  | none => exact calls_unlink (h _ rfl)
  | some dir =>
    refine Calls.bind (calls_pathExists (h _ rfl)) fun b => ?_
    cases b
    · exact calls_replaceFile (h _ rfl)
    · exact Calls.bind (calls_utcNow (h _ rfl)) fun _ => calls_replaceFile (h _ rfl)

theorem calls_ingestUnknown {eng : Engine} {ps : IngestParams} {c : StagedCandidate}
    {opId sha : String} (h : ∀ o : Op, o.ofProcessOne = true → P o) :
    (ingestUnknown env eng ps c opId sha).Calls P := by
  unfold ingestUnknown
  refine Calls.bind (calls_renderRelativePath (h _ rfl)) fun rel => ?_
  refine Calls.bind (calls_choose fun _ => h _ rfl) fun d => ?_
  refine Calls.bind (calls_commit fun o ht hj => h o (ofProcessOne_of_notTx ht hj)) fun _ => ?_
  refine Calls.bind (calls_journalAppend fun _ _ => h _ rfl) fun _ => ?_
  refine Calls.bind (calls_statSize (h _ rfl)) fun n => ?_
  refine Calls.bind (calls_transact (h _ rfl)) fun _ => ?_
  exact Calls.bind (calls_journalAppend fun _ _ => h _ rfl) fun _ => .ret

theorem calls_decideByHash {eng : Engine} {ps : IngestParams} {c : StagedCandidate}
    {opId : String} {n : Nat} (h : ∀ o : Op, o.ofProcessOne = true → P o) :
    (decideByHash env eng ps c opId n).Calls P := by
  have htx : ∀ t : Tx, t.ofProcessOne = true → (transact t).Calls P := fun t ht =>
    calls_transact (h _ ht)
  have hlast : ∀ (phase : JournalPhase) (sha : Option String) (out : IngestOutcome),
      (journalAppend eng opId phase c none sha >>= fun _ => (pure out : Flow IngestOutcome)).Calls
        P := fun _ _ _ => Calls.bind (calls_journalAppend fun _ _ => h _ rfl) fun _ => .ret
  unfold decideByHash
  refine Calls.bind (calls_sha256File (h _ rfl)) fun sha => ?_
  refine Calls.bind (calls_journalAppend fun _ _ => h _ rfl) fun _ => ?_
  refine Calls.bind (Calls.bind (.op (h _ rfl) fun _ => .ret) fun _ => .ret) fun rule => ?_
  cases rule with
  | some rule =>
    refine Calls.bind (calls_unlink (h _ rfl)) fun _ => (htx _ rfl).bind fun _ => ?_
    refine (htx _ rfl).bind fun _ => (htx _ rfl).bind fun _ => (htx _ rfl).bind fun _ => ?_
    exact hlast _ _ _
  | none =>
    refine Calls.bind (calls_getFile (h _ rfl)) fun row => ?_
    cases row with
    | none => exact calls_ingestUnknown h
    | some record =>
      refine Calls.bind (calls_statSize (h _ rfl)) fun n => ?_
      exact Calls.bind (calls_unlink (h _ rfl)) fun _ => (htx _ rfl).bind fun _ => hlast _ _ _

theorem calls_processOne {eng : Engine} {ps : IngestParams} {c : StagedCandidate}
    (h : ∀ o : Op, o.ofProcessOne = true → P o) : (processOne env eng ps c).Calls P := by
  have hj : ∀ (opId : String) (phase : JournalPhase),
      (journalAppend eng opId phase c none none).Calls P :=
    fun _ _ => calls_journalAppend fun _ _ => h _ rfl
  unfold processOne
  refine Calls.bind (.op (h _ rfl) fun _ => .ret) fun uuid => (hj _ _).bind fun _ => ?_
  refine Calls.bind (calls_pathExists (h _ rfl)) fun found => ?_
  cases found
  · exact (hj _ _).bind fun _ => .ret
  · refine Calls.bind (calls_statSize (h _ rfl)) fun n => .ite ?_ (.ite ?_ (.ite ?_ ?_))
    · exact (hj _ _).bind fun _ => (calls_handleQuarantineOrDelete h).bind fun _ => .ret
    · exact Calls.bind (calls_unlink (h _ rfl)) fun _ => .ret
    · exact (calls_handleQuarantineOrDelete h).bind fun _ => .ret
    · refine Calls.bind (.op (h _ rfl) fun _ => .ret) fun hit => ?_
      rcases hit with _ | ⟨st, sha⟩
      · exact calls_decideByHash h
      · refine Calls.bind (calls_unlink (h _ rfl)) fun _ => ?_
        exact Calls.bind (calls_transact (h _ rfl)) fun _ => .ret

/-! ## The batch -/

theorem calls_validateCandidates : ∀ (cs : List StagedCandidate) (index : Nat),
    (validateCandidates env index cs).Calls P
  | [], _ => .ret
  | c :: cs, index => by
    have hbad : ∀ msg, (malformed index msg).Calls P := fun _ => .err
    have hone : (validateCandidate env index c).Calls P := by
      unfold validateCandidate
      exact .ite (hbad _) (.ite (hbad _) (.ite (hbad _) (.ite (hbad _) (.ite (hbad _)
        (.ite (hbad _) .ret)))))
    exact hone.bind fun _ => calls_validateCandidates cs (index + 1)

theorem calls_validateBatchContract {cs : List StagedCandidate} {version : Int} :
    (validateBatchContract env cs version).Calls P := by
  unfold validateBatchContract
  exact .ite .err (calls_validateCandidates cs 0)

theorem calls_enforceHeuristics (h : Option LivePhotoHeuristics) :
    (enforceHeuristics h).Calls P := by
  cases h with
  | none => constructor
  | some h => simp only [enforceHeuristics, enforceV1Defaults]; split_ifs <;> constructor

theorem calls_queueIngest {h : LivePhotoHeuristics} {queued : List Queued} {c : LivePhotoCandidate}
    (hnow : P .now) : (queueIngest env h queued c).Calls P := by
  unfold queueIngest
  split
  · constructor
  · split
    · constructor
    · simp only
      split
      · exact Calls.bind (calls_utcNow hnow) fun _ => .ret
      · constructor

theorem calls_pairIfEnabled {h : Option LivePhotoHeuristics} {queued : List Queued}
    {shas : Table String String} {c : StagedCandidate} (hnow : P .now)
    (hpair : ∀ id account stem p v, P (.tx (.upsertLivePhotoPair id account stem p v .paired))) :
    (pairIfEnabled env h queued shas c).Calls P := by
  cases h with
  | none => constructor
  | some h =>
    simp only [pairIfEnabled, pairOutcome]
    refine (calls_queueIngest hnow).bind fun result => ?_
    split
    · constructor
    · split
      · exact Calls.bind (calls_transact (hpair _ _ _ _ _)) fun _ => .ret
      · constructor

/-- The loop over the outcomes writes pairs and terminal events only. -/
theorem calls_recordOutcomes {h : Option LivePhotoHeuristics} {batchRunId : String} (hnow : P .now)
    (hpair : ∀ id account stem p v, P (.tx (.upsertLivePhotoPair id account stem p v .paired)))
    (hevent : ∀ b n account id sha action reason actor,
      P (.tx (.appendIngestTerminalEvent b n account id sha action reason actor))) :
    ∀ (outs : List (Nat × StagedCandidate × IngestOutcome)) (done : Nat) (queued : List Queued)
      (shas : Table String String),
      (recordOutcomes env h batchRunId done queued shas outs).Calls P
  | [], _, _, _ => .ret
  | (_, c, out) :: rest, done, queued, shas => by
    unfold recordOutcomes
    refine (calls_pairIfEnabled hnow hpair).bind fun queued' => ?_
    exact Calls.bind (calls_transact (hevent _ _ _ _ _ _ _ _)) fun _ =>
      calls_recordOutcomes hnow hpair hevent rest _ _ _

theorem calls_processAll {eng : Engine} {ps : IngestParams}
    (h : ∀ o : Op, o.ofProcessOne = true → P o) : ∀ cs : List (Nat × StagedCandidate),
      (processAll env eng ps cs).Calls P
  | [] => .ret
  | _ :: cs => (calls_processOne h).bind fun _ => (calls_processAll h cs).bind fun _ => .ret

theorem calls_prepareBatch {bp : BatchParams} {workerCount : Int} {cs : List StagedCandidate}
    (h : P .uuid4) : (prepareBatch env bp workerCount cs).Calls P := by
  unfold prepareBatch
  refine calls_validateBatchContract.bind fun _ => ?_
  cases ZeroBytePolicy.parse bp.zeroBytePolicy with
  | none => exact .err
  | some policy =>
    refine .ite .err (.ite .err (.ite .err ?_))
    exact Calls.bind (.op h fun _ => .ret) fun _ => (calls_enforceHeuristics _).bind fun _ => .ret

/-! ## Operator commands -/

theorem calls_withNormalizedSha {α : Type} {sha : String} {f : String → Flow α}
    (h : ∀ n, (f n).Calls P) : (withNormalizedSha sha f).Calls P := by
  unfold withNormalizedSha
  split
  · constructor
  · exact h _

end Nightfall
