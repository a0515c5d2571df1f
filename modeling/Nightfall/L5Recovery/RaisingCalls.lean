import Nightfall.Core.Refusal
import Nightfall.L3Flows.IngestSpecs
import Nightfall.L3Flows.ThreadPool
import Nightfall.L4System.Commits
import Nightfall.L4System.Encoding

/-!
# Calls of `_process_one` that raise (`domain/ingest.py`)

What could raise in `_process_one` stands before the first change of a file, apart
from the registry: a statement that writes comes behind the staged file, and raises on a
lone surrogate.

* `raisesFirst_processOne`: alone, with all texts encodable, a call that raises
  has not touched a file.
* `refused_processOne`: one that raises has removed its staged file exactly when a write
  to the registry was refused.
* `wp_processOne_consumes`: one that returns has removed the staged file.
-/
namespace Nightfall
open Nightfall.Core Storage Prog

/-- Some step removed the candidate's staged file. -/
def Consumed (h : List (Event Ops World)) (c : StagedCandidate) : Prop :=
  ∃ e ∈ h, e.pre.fs.get c.stagingPath ≠ none ∧ e.post.fs.get c.stagingPath = none

theorem Consumed.mono {h h' : List (Event Ops World)} (hc : Consumed h c)
    (hsub : ∀ e ∈ h, e ∈ h') : Consumed h' c := by
  obtain ⟨e, he, hgone⟩ := hc
  exact ⟨e, hsub e he, hgone⟩

/-- The step takes a file that is there away from the path. -/
def Op.vacates (p : Path) : Op → Prop
  | .unlink q => q = p
  | .replace src dst => src = p ∧ dst ≠ p
  | _ => False

variable {env : Env} {eng : Engine} {ps : IngestParams} {c : StagedCandidate} {w w' : World}
  {α β : Type}

theorem gone_iff_vacates {p : Path} {o : Op} (hp : w.fs.get p ≠ none) :
    (handle env o w).2.fs.get p = none ↔ o.vacates p := by
  cases o with
  | unlink q =>
    by_cases hq : q = p
    · simp [handle, Op.vacates, Table.get_drop, hq]
    · simp [handle, Op.vacates, Table.get_drop, hq, Ne.symm hq, hp]
  | replace src dst =>
    cases hsrc : w.fs.get src with
    | none =>
      have hne : src ≠ p := by
        rintro rfl
        exact hp hsrc
      simp [handle, moveFile, Op.vacates, hsrc, hne, hp]
    | some b =>
      have hfs : (handle env (.replace src dst) w).2.fs = (w.fs.drop src).put dst b := by
        simp [handle, moveFile, hsrc]
      rw [hfs, Table.get_put, Table.get_drop]
      by_cases hdst : p = dst
      · simp [Op.vacates, hdst]
      · by_cases hs : p = src
        · subst hs
          simp [Op.vacates, hdst, Ne.symm hdst]
        · simp [Op.vacates, hdst, hs, Ne.symm hs, hp]
  | copy2 src dst =>
    cases hsrc : w.fs.get src with
    | none => simp [handle, copyFile, Op.vacates, hsrc, hp]
    | some b =>
      by_cases hdst : p = dst
      · simp [handle, copyFile, Op.vacates, hsrc, hdst]
      · simp [handle, copyFile, Op.vacates, hsrc, Table.get_put, hdst, hp]
  | _ =>
    rw [handle_fs rfl]
    simp [Op.vacates, hp]

/-! ## Raising before the first write -/

/-- No step of the run changes a file. -/
def KeepsFs (env : Env) (p : Flow α) (w : World) : Prop :=
  ∀ e ∈ p.trace (handle env) w, e.post.fs = e.pre.fs

/-- If the run raises, no step of it changed a file. -/
def RaisesFirst (env : Env) (p : Flow α) (w : World) : Prop :=
  ∀ e, (p.run (handle env) w).1 = .error e → KeepsFs env p w

theorem keepsFs_of_calls {p : Flow α} (hp : p.Calls fun o : Op => o.writesFs = false) :
    KeepsFs env p w := by
  intro e he
  rw [trace_post e he]
  exact handle_fs (hp.ops w e.op (List.mem_map_of_mem he))

theorem keepsFs_bind {p : Flow α} {f : α → Flow β} (hp : KeepsFs env p w)
    (hf : ∀ a t, p.run (handle env) w = (.ok a, t) → KeepsFs env (f a) t) :
    KeepsFs env (p >>= f) w := by
  intro e he
  rw [trace_bind] at he
  rcases List.mem_append.mp he with he | he
  · exact hp e he
  · cases hrun : p.run (handle env) w with
    | mk r t =>
      rw [hrun] at he
      cases r with
      | error e' => cases he
      | ok a => exact hf a t hrun e he

theorem raisesFirst_of_ok {p : Flow α} (h : p.Wp (handle env) w fun r _ => ∃ a, r = .ok a) :
    RaisesFirst env p w := by
  intro e he
  obtain ⟨a, ha⟩ := wp_iff.mp h
  rw [ha] at he
  cases he

/-- A stretch that writes no file, then the rest. -/
theorem raisesFirst_bind {p : Flow α} {f : α → Flow β}
    (hp : p.Calls fun o : Op => o.writesFs = false)
    (hf : p.Wp (handle env) w (onOk fun a t => RaisesFirst env (f a) t)) :
    RaisesFirst env (p >>= f) w := by
  intro e he
  refine keepsFs_bind (keepsFs_of_calls hp) fun a t hrun => ?_
  have hnext := wp_iff.mp hf
  rw [hrun] at hnext
  rw [run_bind, hrun] at he
  exact hnext e he

/-- A part that raises only before it writes, then a rest that never raises. -/
theorem raisesFirst_then {p : Flow α} {f : α → Flow β} (hp : RaisesFirst env p w)
    (hf : p.Wp (handle env) w (onOk fun a t => (f a).Wp (handle env) t fun r _ => ∃ b, r = .ok b)) :
    RaisesFirst env (p >>= f) w := by
  intro e he
  cases hrun : p.run (handle env) w with
  | mk r t =>
    have hnext := wp_iff.mp hf
    rw [run_bind, hrun] at he
    rw [hrun] at hnext
    cases r with
    | ok a =>
      obtain ⟨b, hb⟩ := wp_iff.mp hnext
      rw [hb] at he
      cases he
    | error e' =>
      refine keepsFs_bind (hp e' (by rw [hrun])) fun a t' hrun' => ?_
      rw [hrun] at hrun'
      cases hrun'

theorem raisesFirst_quiet {p : Flow α} {f : α → Flow β} (hp : p.Calls Op.Quiet)
    (hf : ∀ a t, Still w t → RaisesFirst env (f a) t) : RaisesFirst env (p >>= f) w := by
  refine raisesFirst_bind (hp.imp fun _ ho => ho.2) (wp_quiet hp fun r t ht => ?_)
  cases r with
  | error e => trivial
  | ok a => exact hf a t ht

theorem raisesFirst_commit {source destination : Path} {same : Bool} {root : Option Path}
    {b : Bytes} (hb : w.fs.get source = some b) (hne : destination ≠ source) :
    RaisesFirst env (commitStagingToAccepted source destination same root) w := by
  by_cases hself : same = false ∧ source = destination.addExt ".tmp"
  · -- a copy onto itself is refused: nothing is written before
    obtain ⟨rfl, hself⟩ := hself
    refine raisesFirst_bind (calls_pathExists rfl) (wp_pathExists.mpr ?_)
    simp only [hb, Option.isSome_some, if_true, onOk_ok]
    refine raisesFirst_bind calls_ensureWithin (wp_iff.mpr ?_)
    cases ((ensureWithin destination root).run (handle env) w).1 with
    | error e => trivial
    | ok u =>
      simp only [onOk_ok, Bool.false_eq_true, if_false, commitCopy, copy2, if_pos hself]
      exact fun _ _ => keepsFs_of_calls .err
  by_cases hin : ∀ r, root = some r → withinRoot destination r = true
  · exact raisesFirst_of_ok (wp_commit_within hb hne hin (fun h h' => absurd ⟨h, h'⟩ hself)
      fun r _ _ _ _ => ⟨r, rfl⟩)
  · obtain ⟨r, rfl, hout⟩ : ∃ r, root = some r ∧ withinRoot destination r = false := by
      simpa using hin
    unfold commitStagingToAccepted
    refine raisesFirst_bind (calls_pathExists rfl) (wp_pathExists.mpr ?_)
    simp only [hb, Option.isSome_some, if_true, onOk_ok]
    refine raisesFirst_bind calls_ensureWithin ?_
    simp only [ensureWithin, ensureWithinRoot, hout]
    exact wp_err.mpr trivial

/-- Behind the move nothing of `ingestUnknown` raises. -/
theorem wp_ingestUnknown_rest {opId sha : String} {d : Path} {b : Bytes}
    (hd : w.fs.get d = some b) (hs : w.fs.get c.stagingPath = none) :
    (journalAppend eng opId .storageCommitted c (some d) (some sha) >>= fun _ =>
      statSize d >>= fun n =>
      transact (.finalizeUnknownIngest sha n c.originalFilename d c.accountName c.onedriveId
        c.relativePath c.modifiedTime pipelineActor) >>= fun _ =>
      journalAppend eng opId .registryPersisted c (some d) (some sha) >>= fun _ =>
      (pure (outcome c .pending (some sha) (some d) false) : Flow IngestOutcome)).Wp (handle env) w
      fun r w' => (∃ out, r = .ok out) ∧ w'.fs.get c.stagingPath = none := by
  refine wp_bind.mpr (wp_journalAppend fun w₁ h₁ => ?_)
  refine wp_bind.mpr ((wp_statSize (b := b) (by rw [h₁.fs, hd])).mpr ?_)
  refine wp_bind.mpr (wp_transact (fun r now w₂ _ hfs₂ _ => ?_) (fun e now w₂ he _ _ => ?_))
  · refine wp_bind.mpr (wp_journalAppend fun w₃ h₃ => wp_ret.mpr ⟨⟨_, rfl⟩, ?_⟩)
    rw [h₃.fs, hfs₂, h₁.fs, hs]
  · obtain ⟨r', hr'⟩ := Registry.finalizeUnknownIngest_ok w₁.reg sha b.length c.originalFilename d
      c.accountName c.onedriveId c.relativePath c.modifiedTime pipelineActor now
    rw [Tx.apply, hr'] at he
    cases he

theorem raisesFirst_ingestUnknown {opId sha : String} {b : Bytes}
    (hb : w.fs.get c.stagingPath = some b) :
    RaisesFirst env (ingestUnknown env eng ps c opId sha) w := by
  unfold ingestUnknown
  refine raisesFirst_quiet quiet_render fun rel w₁ h₁ => ?_
  refine raisesFirst_bind (calls_choose fun _ => rfl) (wp_mono ?_ wp_choose_free)
  intro r w₂ hr
  cases r with
  | error e => trivial
  | ok d =>
    obtain ⟨rfl, hfree⟩ := hr
    have hb₁ : w₂.fs.get c.stagingPath = some b := by rw [h₁.fs, hb]
    have hne : d ≠ c.stagingPath := by
      rintro rfl
      rw [hb₁] at hfree
      cases hfree
    refine raisesFirst_then (raisesFirst_commit hb₁ hne) (wp_commit hb₁ hne ?_ fun _ => trivial)
    intro r w₃ hd hs _
    exact wp_mono (fun _ _ h => h.1) (wp_ingestUnknown_rest hd hs)

theorem raisesFirst_decideByHash {opId : String} {n : Nat} {b : Bytes}
    (hb : w.fs.get c.stagingPath = some b) :
    RaisesFirst env (decideByHash env eng ps c opId n) w := by
  unfold decideByHash
  refine raisesFirst_bind (calls_sha256File rfl) ((wp_sha256File hb).mpr ?_)
  refine raisesFirst_quiet (calls_journalAppend fun _ _ => ⟨rfl, rfl⟩) fun _ w₁ h₁ => ?_
  have hb₁ : w₁.fs.get c.stagingPath = some b := by rw [h₁.fs, hb]
  refine raisesFirst_bind (Calls.bind (.op rfl fun _ => .ret) fun _ => .ret)
    (wp_matchBlockRule.mpr ?_)
  simp only [onOk_ok]
  split
  · exact raisesFirst_of_ok (wp_rejectBlocked fun _ _ _ _ _ _ => ⟨_, rfl⟩)
  · refine raisesFirst_bind (calls_getFile rfl) (wp_getFile.mpr ?_)
    simp only [onOk_ok]
    cases hrow : w₁.reg.files.get (env.sha256 b) with
    | none => exact raisesFirst_ingestUnknown hb₁
    | some record =>
      exact raisesFirst_of_ok (wp_discardKnown hb₁ hrow fun _ _ _ => ⟨_, rfl⟩)

/-- Alone, a call that raises has not changed a file: what could raise stands
before the first write of each branch. -/
theorem raisesFirst_processOne (w : World) : RaisesFirst env (processOne env eng ps c) w := by
  have hj : ∀ (opId : String) (phase : JournalPhase),
      (journalAppend eng opId phase c none none).Calls Op.Quiet :=
    fun _ _ => calls_journalAppend fun _ _ => ⟨rfl, rfl⟩
  unfold processOne
  refine raisesFirst_quiet (.op ⟨rfl, rfl⟩ fun _ => .ret) fun uuid w₁ h₁ => ?_
  refine raisesFirst_quiet (hj _ _) fun _ w₂ h₂ => ?_
  refine raisesFirst_bind (calls_pathExists rfl) (wp_pathExists.mpr ?_)
  simp only [onOk_ok]
  cases hb : w₂.fs.get c.stagingPath with
  | none => exact raisesFirst_of_ok (wp_bind.mpr (wp_journalAppend fun _ _ => wp_ret.mpr ⟨_, rfl⟩))
  | some b =>
    have hquarantine : ∀ (t : World) (category : String) (out : IngestOutcome), Still w₂ t →
        (handleQuarantineOrDelete c.stagingPath ps.quarantineDir category >>= fun _ =>
          (pure out : Flow IngestOutcome)).Wp (handle env) t fun r _ => ∃ a, r = .ok a := by
      intro t category out ht
      exact wp_bind.mpr (wp_handleQuarantineOrDelete (b := b) (by rw [ht.fs, hb])
        (fun _ _ _ => wp_ret.mpr ⟨_, rfl⟩) (fun _ _ _ _ _ _ _ _ => wp_ret.mpr ⟨_, rfl⟩))
    simp only [Option.isSome_some, if_true]
    refine raisesFirst_bind (calls_statSize rfl) ((wp_statSize hb).mpr ?_)
    simp only [onOk_ok]
    split
    · exact raisesFirst_of_ok (wp_bind.mpr (wp_journalAppend fun t ht => hquarantine t _ _ ht))
    split
    · exact raisesFirst_of_ok (wp_bind.mpr (wp_unlink fun _ _ _ => wp_ret.mpr ⟨_, rfl⟩))
    split
    · exact raisesFirst_of_ok (hquarantine w₂ _ _ (.refl w₂))
    · unfold decideStaged
      refine raisesFirst_bind (.op rfl fun _ => .ret) (wp_prefilterStatus.mpr ?_)
      simp only [onOk_ok]
      split
      · exact raisesFirst_of_ok (wp_discardPrefiltered fun _ _ _ => ⟨_, rfl⟩)
      · exact raisesFirst_decideByHash hb

/-! ## Registry statements -/

/-- The first step of the run from `w` that is refused. -/
def firstRefused (env : Env) (lone : Char → Bool) (p : Flow α) (w : World) : Option Op :=
  (p.ops (handle env) w).find? fun o => (bindError lone o).isSome

/-- It is one that writes. -/
def RefusedAtTx (env : Env) (lone : Char → Bool) (p : Flow α) (w : World) : Prop :=
  ∃ t, firstRefused env lone p w = some (.tx t)

/-- What reads the registry stands before every change of a file, what writes it behind
the removal of the staged one. -/
def Orderly (env : Env) (c : StagedCandidate) (p : Flow α) (w : World) : Prop :=
  ∀ before ev rest, p.trace (handle env) w = before ++ ev :: rest → ev.op.texts ≠ [] →
    (ev.op.isTx = true → Consumed before c) ∧
    (ev.op.isTx = false → ∀ e ∈ before, e.post.fs = e.pre.fs)

theorem op_of_split {P : Op → Prop} {p : Flow α} {before rest : List (Event Ops World)}
    {ev : Event Ops World} (hp : p.Calls P) (h : p.trace (handle env) w = before ++ ev :: rest) :
    P ev.op := by
  refine hp.ops (H := handle env) w ev.op (List.mem_map_of_mem ?_)
  rw [h]
  simp

theorem orderly_silent {p : Flow α} (hp : p.Calls fun o : Op => o.texts = []) :
    Orderly env c p w := by
  intro before ev rest htrace htexts
  exact absurd (op_of_split hp htrace) htexts

/-- A step of a bound program belongs to the first part, or to the rest behind it. -/
theorem split_bind {p : Flow α} {f : α → Flow β} {before rest : List (Event Ops World)}
    {ev : Event Ops World} (h : (p >>= f).trace (handle env) w = before ++ ev :: rest) :
    (∃ rest', p.trace (handle env) w = before ++ ev :: rest') ∨
    ∃ a t before', p.run (handle env) w = (.ok a, t) ∧
      before = p.trace (handle env) w ++ before' ∧
      (f a).trace (handle env) t = before' ++ ev :: rest := by
  rw [trace_bind] at h
  rcases List.append_eq_append_iff.mp h with ⟨before', hbefore, hrest⟩ | ⟨rest', hp, hrest⟩
  · cases hrun : p.run (handle env) w with
    | mk r t =>
      rw [hrun] at hrest
      cases r with
      | error e => simp [thenTrace] at hrest
      | ok a => exact .inr ⟨a, t, before', rfl, hbefore, hrest⟩
  · cases rest' with
    | nil =>
      cases hrun : p.run (handle env) w with
      | mk r t =>
        rw [hrun] at hrest
        cases r with
        | error e => simp [thenTrace] at hrest
        | ok a =>
          exact .inr ⟨a, t, [], rfl, by simpa using hp.symm, by simpa [thenTrace] using hrest.symm⟩
    | cons ev' rest' =>
      obtain ⟨rfl, -⟩ := List.cons.inj hrest
      exact .inl ⟨rest', hp⟩

theorem still_of_run {p : Flow α} {r : Except Err α} (hp : p.Calls Op.Quiet)
    (h : p.run (handle env) w = (r, w')) : Still w w' := by
  have hquiet : p.Wp (handle env) w fun _ t => Still w t := wp_quiet hp fun _ _ h => h
  have hend := wp_iff.mp hquiet
  rwa [h] at hend

/-- A stretch that writes neither a file nor the registry, then the rest. -/
theorem orderly_quiet {p : Flow α} {f : α → Flow β} (hp : p.Calls Op.Quiet)
    (hf : ∀ a t, p.run (handle env) w = (.ok a, t) → Orderly env c (f a) t) :
    Orderly env c (p >>= f) w := by
  have hkeep : KeepsFs env p w := keepsFs_of_calls (hp.imp fun _ ho => ho.2)
  intro before ev rest htrace htexts
  rcases split_bind htrace with ⟨rest', hp'⟩ | ⟨a, t, before', hrun, rfl, hrest⟩
  · have hquiet : ev.op.Quiet := op_of_split hp hp'
    refine ⟨fun htx => absurd htx (by simp [hquiet.1]), fun _ e he => hkeep e ?_⟩
    rw [hp']
    exact List.mem_append_left _ he
  · obtain ⟨htx, hread⟩ := hf a t hrun before' ev rest hrest htexts
    refine ⟨fun h => (htx h).mono fun e he => List.mem_append_right _ he, fun h e he => ?_⟩
    rcases List.mem_append.mp he with he | he
    · exact hkeep e he
    · exact hread h e he

/-- A part that ends with the staged file gone, then writes. -/
theorem orderly_then {p : Flow α} {f : α → Flow β} (hp : p.Calls fun o : Op => o.texts = [])
    (hb : w.fs.get c.stagingPath ≠ none)
    (hgone : p.Wp (handle env) w (onOk fun _ t => t.fs.get c.stagingPath = none))
    (hf : ∀ a, (f a).Calls fun o : Op => o.isTx = true ∨ o.texts = []) :
    Orderly env c (p >>= f) w := by
  intro before ev rest htrace htexts
  rcases split_bind htrace with ⟨rest', hp'⟩ | ⟨a, t, before', hrun, rfl, hrest⟩
  · exact absurd (op_of_split hp hp') htexts
  · have hwrites : ev.op.isTx = true ∨ ev.op.texts = [] := op_of_split (hf a) hrest
    have htx : ev.op.isTx = true := hwrites.resolve_right htexts
    refine ⟨fun _ => ?_, fun h => absurd htx (by simp [h])⟩
    have hend : t.fs.get c.stagingPath = none := by
      have hwp := wp_iff.mp hgone
      rwa [hrun] at hwp
    obtain ⟨e, he, hpre, hpost⟩ := trace_change (H := handle env) (p := p)
      (I := fun s => s.fs.get c.stagingPath ≠ none) (s := w) hb (by simp [hrun, hend])
    exact ⟨e, List.mem_append_left _ he, hpre, not_not.mp hpost⟩

theorem silent_commit {source destination : Path} {same : Bool} {root : Option Path} :
    (commitStagingToAccepted source destination same root).Calls fun o : Op => o.texts = [] :=
  (calls_commitStep same).imp fun o ho => by
    cases o <;> first | rfl | exact ho.elim

/-- What stands behind the removal of the staged file. -/
theorem settles_journalAppend {opId : String} {phase : JournalPhase} {d : Option Path}
    {sha : Option String} : (journalAppend eng opId phase c d sha).Calls
      fun o : Op => o.isTx = true ∨ o.texts = [] :=
  calls_journalAppend fun _ _ => .inr rfl

theorem settles_transact {t : Tx} :
    (transact t).Calls fun o : Op => o.isTx = true ∨ o.texts = [] := calls_transact (.inl rfl)

theorem orderly_unlink {f : Unit → Flow β} (hb : w.fs.get c.stagingPath ≠ none)
    (hf : ∀ a, (f a).Calls fun o : Op => o.isTx = true ∨ o.texts = []) :
    Orderly env c (unlink c.stagingPath >>= f) w := by
  refine orderly_then (calls_unlink rfl) hb (wp_iff.mpr ?_) hf
  simp [handle, Table.get_drop]

theorem orderly_ingestUnknown {opId sha : String} {b : Bytes}
    (hb : w.fs.get c.stagingPath = some b) :
    Orderly env c (ingestUnknown env eng ps c opId sha) w := by
  unfold ingestUnknown
  refine orderly_quiet quiet_render fun rel w₁ h₁ => ?_
  refine orderly_quiet (calls_choose fun _ => ⟨rfl, rfl⟩) fun d w₂ h₂ => ?_
  have hb₁ : w₁.fs.get c.stagingPath = some b := by rw [(still_of_run quiet_render h₁).fs, hb]
  obtain ⟨rfl, hfree⟩ : w₂ = w₁ ∧ w₁.fs.get d = none := by
    have hchosen : (chooseCollisionSafeDestinationWithThreshold (ps.pendingRoot ++ rel)
        ps.collisionMaxAttempts).Wp (handle env) w₁
        (onOk fun d t => t = w₁ ∧ w₁.fs.get d = none) := wp_choose_free
    have hend := wp_iff.mp hchosen
    rwa [h₂] at hend
  have hne : d ≠ c.stagingPath := by
    rintro rfl
    rw [hb₁] at hfree
    cases hfree
  refine orderly_then silent_commit (by simp [hb₁]) (wp_commit hb₁ hne ?_ fun _ => trivial)
    fun _ => ?_
  · exact fun _ _ _ hs _ => hs
  · refine settles_journalAppend.bind fun _ => Calls.bind (calls_statSize (.inr rfl)) fun _ => ?_
    exact settles_transact.bind fun _ => settles_journalAppend.bind fun _ => .ret

theorem orderly_decideByHash {opId : String} {n : Nat} {b : Bytes}
    (hb : w.fs.get c.stagingPath = some b) :
    Orderly env c (decideByHash env eng ps c opId n) w := by
  unfold decideByHash
  refine orderly_quiet (calls_sha256File ⟨rfl, rfl⟩) fun sha w₁ h₁ => ?_
  have hstill₁ := still_of_run (calls_sha256File ⟨rfl, rfl⟩) h₁
  refine orderly_quiet (calls_journalAppend fun _ _ => ⟨rfl, rfl⟩) fun _ w₂ h₂ => ?_
  have hstill₂ := still_of_run (calls_journalAppend fun _ _ => ⟨rfl, rfl⟩) h₂
  have hrule : (matchBlockRule env c.originalFilename).Calls Op.Quiet :=
    Calls.bind (.op ⟨rfl, rfl⟩ fun _ => .ret) fun _ => .ret
  refine orderly_quiet hrule fun rule w₃ h₃ => ?_
  have hb₃ : w₃.fs.get c.stagingPath = some b := by
    rw [(still_of_run hrule h₃).fs, hstill₂.fs, hstill₁.fs, hb]
  cases rule with
  | some rule =>
    refine orderly_unlink (by simp [hb₃]) fun _ => settles_transact.bind fun _ => ?_
    refine settles_transact.bind fun _ => settles_transact.bind fun _ => ?_
    exact settles_transact.bind fun _ => settles_journalAppend.bind fun _ => .ret
  | none =>
    refine orderly_quiet (calls_getFile ⟨rfl, rfl⟩) fun row w₄ h₄ => ?_
    have hb₄ : w₄.fs.get c.stagingPath = some b := by
      rw [(still_of_run (calls_getFile ⟨rfl, rfl⟩) h₄).fs, hb₃]
    cases row with
    | none => exact orderly_ingestUnknown hb₄
    | some record =>
      refine orderly_quiet (calls_statSize ⟨rfl, rfl⟩) fun _ w₅ h₅ => ?_
      have hb₅ : w₅.fs.get c.stagingPath = some b := by
        rw [(still_of_run (calls_statSize ⟨rfl, rfl⟩) h₅).fs, hb₄]
      refine orderly_unlink (by simp [hb₅]) fun _ => settles_transact.bind fun _ => ?_
      exact settles_journalAppend.bind fun _ => .ret

theorem silent_quarantine {dir : Option Path} {path : Path} {category : String} :
    (handleQuarantineOrDelete path dir category).Calls fun o : Op => o.texts = [] := by
  unfold handleQuarantineOrDelete
  cases dir with
  | none => exact calls_unlink rfl
  | some dir =>
    refine Calls.bind (calls_pathExists rfl) fun there => ?_
    cases there
    · exact calls_replaceFile rfl
    · exact Calls.bind (calls_utcNow rfl) fun _ => calls_replaceFile rfl

theorem silent_journalAppend {opId : String} {phase : JournalPhase} {d : Option Path}
    {sha : Option String} : (journalAppend eng opId phase c d sha).Calls
      fun o : Op => o.texts = [] := calls_journalAppend fun _ _ => rfl

theorem orderly_processOne (w : World) : Orderly env c (processOne env eng ps c) w := by
  have hj : ∀ (opId : String) (phase : JournalPhase),
      (journalAppend eng opId phase c none none).Calls Op.Quiet :=
    fun _ _ => calls_journalAppend fun _ _ => ⟨rfl, rfl⟩
  unfold processOne
  refine orderly_quiet (.op ⟨rfl, rfl⟩ fun _ => .ret) fun uuid w₁ _ => ?_
  refine orderly_quiet (hj _ _) fun _ w₂ _ => ?_
  refine orderly_quiet (calls_pathExists ⟨rfl, rfl⟩) fun found w₃ h₃ => ?_
  cases found with
  | false => exact orderly_silent (silent_journalAppend.bind fun _ => .ret)
  | true =>
    obtain ⟨b, hb⟩ : ∃ b, w₃.fs.get c.stagingPath = some b := by
      obtain ⟨hfound, rfl⟩ := Prod.ext_iff.mp h₃
      exact Option.isSome_iff_exists.mp (Except.ok.inj hfound)
    refine orderly_quiet (calls_statSize ⟨rfl, rfl⟩) fun n w₄ h₄ => ?_
    have hb₄ : w₄.fs.get c.stagingPath = some b := by
      rw [(still_of_run (calls_statSize ⟨rfl, rfl⟩) h₄).fs, hb]
    split
    · exact orderly_silent (silent_journalAppend.bind fun _ => silent_quarantine.bind fun _ => .ret)
    split
    · exact orderly_silent (Calls.bind (calls_unlink rfl) fun _ => .ret)
    split
    · exact orderly_silent (silent_quarantine.bind fun _ => .ret)
    · have hprefilter : (prefilterStatus c).Calls Op.Quiet := .op ⟨rfl, rfl⟩ fun _ => .ret
      refine orderly_quiet hprefilter fun hit w₅ h₅ => ?_
      have hb₅ : w₅.fs.get c.stagingPath = some b := by
        rw [(still_of_run hprefilter h₅).fs, hb₄]
      rcases hit with _ | ⟨st, sha⟩
      · exact orderly_decideByHash hb₅
      · exact orderly_unlink (by simp [hb₅]) fun _ => settles_transact.bind fun _ => .ret

/-- A call that raises has removed its staged file exactly when a write to the registry was
refused; otherwise it has changed no file. -/
theorem refused_processOne {lone : Char → Bool} {e : Err}
    (hraise : ((processOne env eng ps c).refuse (bindError lone)).run (handle env) w =
      (.error e, w')) :
    (RefusedAtTx env lone (processOne env eng ps c) w →
      Consumed (((processOne env eng ps c).refuse (bindError lone)).trace (handle env) w) c) ∧
    (¬ RefusedAtTx env lone (processOne env eng ps c) w →
      KeepsFs env ((processOne env eng ps c).refuse (bindError lone)) w) := by
  rcases refuse_cases (handle env) (bindError lone) (processOne env eng ps c) w with
    hnone | ⟨before, ev, rest, e', htrace, hbefore, hev, -, hcut⟩
  · obtain ⟨hrun, htrace⟩ := run_refuse hnone
    have hfirst : firstRefused env lone (processOne env eng ps c) w = none := by
      rw [firstRefused, List.find?_eq_none]
      intro o ho
      simp [hnone o ho]
    refine ⟨?_, fun _ => ?_⟩
    · rintro ⟨t, ht⟩
      rw [hfirst] at ht
      cases ht
    · have hkeeps : KeepsFs env (processOne env eng ps c) w :=
        raisesFirst_processOne w e (by rw [← hrun, hraise])
      intro ev hev
      rw [htrace] at hev
      exact hkeeps ev hev
  · have hfirst : firstRefused env lone (processOne env eng ps c) w = some ev.op := by
      rw [firstRefused, Prog.ops, htrace, List.map_append, List.find?_append, List.map_cons,
        List.find?_cons_of_pos (by simp [hev]), List.find?_eq_none.mpr, Option.none_or]
      intro o ho
      obtain ⟨e'', he'', rfl⟩ := List.mem_map.mp ho
      simp [hbefore e'' he'']
    have htexts : ev.op.texts ≠ [] := by
      intro hempty
      rw [bindError_of_texts hempty] at hev
      cases hev
    obtain ⟨hwrites, hreads⟩ := orderly_processOne w before ev rest htrace htexts
    rw [KeepsFs, hcut]
    refine ⟨?_, fun hno => hreads ?_⟩
    · rintro ⟨t, ht⟩
      have hop : ev.op = .tx t := Option.some.inj (hfirst.symm.trans ht)
      exact hwrites (by rw [hop]; rfl)
    · rw [← Bool.not_eq_true]
      intro htx
      cases hop : ev.op with
      | tx t => exact hno ⟨t, by rw [hfirst, hop]⟩
      | _ => simp [hop, Op.isTx] at htx

/-! ## Returning -/

theorem wp_ingestUnknown_consumes {opId sha : String} {b : Bytes}
    (hb : w.fs.get c.stagingPath = some b) :
    (ingestUnknown env eng ps c opId sha).Wp (handle env) w
      (onOk fun _ w' => w'.fs.get c.stagingPath = none) := by
  unfold ingestUnknown
  refine wp_bind_onOk (Q := fun _ t => Still w t) (wp_quiet quiet_render fun r t ht => ?_)
    fun rel w₁ h₁ => ?_
  · cases r with
    | error e => trivial
    | ok rel => exact ht
  refine wp_bind_onOk wp_choose_free fun d w₂ h₂ => ?_
  obtain ⟨rfl, hfree⟩ := h₂
  have hb₁ : w₂.fs.get c.stagingPath = some b := by rw [h₁.fs, hb]
  have hne : d ≠ c.stagingPath := by
    rintro rfl
    rw [hb₁] at hfree
    cases hfree
  refine wp_bind.mpr (wp_commit hb₁ hne (fun r w₃ hd hs _ => ?_) fun _ => trivial)
  refine wp_mono (fun r w₄ h => ?_) (wp_ingestUnknown_rest hd hs)
  obtain ⟨⟨out, rfl⟩, hgone⟩ := h
  exact hgone

/-- A call that finds its staged file and returns has removed it. -/
theorem wp_processOne_consumes {b : Bytes} (hb : w.fs.get c.stagingPath = some b) :
    (processOne env eng ps c).Wp (handle env) w
      (onOk fun _ w' => w'.fs.get c.stagingPath = none) := by
  have hgone : ∀ {t t' : World}, Unstaged c t t' → t'.fs.get c.stagingPath = none := by
    intro t t' h
    rw [h, Table.get_drop, if_pos rfl]
  refine wp_processOne ?_ ?_ ?_
  · intro w' hnone _
    rw [hb] at hnone
    cases hnone
  · intro b' a w' _ _ _ _ hfs
    rcases hfs with hfs | ⟨d, target, -, -, hne, hfs⟩
    · exact hgone hfs
    · rw [onOk_ok, hfs, Table.get_put, if_neg hne.symm, Table.get_drop, if_pos rfl]
  · intro b' opId w₁ hb' _ h₁
    have hb₁ : w₁.fs.get c.stagingPath = some b' := by rw [h₁.fs, hb']
    refine wp_decideStaged (fun st sha _ => wp_discardPrefiltered fun _ hfs _ => hgone hfs)
      fun _ => wp_decideByHash hb₁ ?_ ?_ ?_
    · intro w₂ rule _ _
      exact wp_rejectBlocked fun _ _ hfs _ _ _ => hgone hfs
    · intro w₂ h₂ _ _
      exact wp_ingestUnknown_consumes (by rw [h₂.fs, hb₁])
    · intro w₂ record h₂ _ hrow
      exact wp_discardKnown (by rw [h₂.fs, hb₁]) (by rw [h₂.reg, hrow]) fun _ hfs _ => hgone hfs

theorem wp_processOne_missing (hb : w.fs.get c.stagingPath = none) :
    (processOne env eng ps c).Wp (handle env) w (onOk fun _ w' => Still w w') := by
  refine wp_processOne (fun w' _ hw => hw) ?_ ?_
  · intro b a w' hb' _ _ _ _
    rw [hb] at hb'
    cases hb'
  · intro b opId w' hb' _ _
    rw [hb] at hb'
    cases hb'

theorem keepsFs_quiet {p : Flow α} {f : α → Flow β} (hp : p.Calls Op.Quiet)
    (hf : ∀ a t, Still w t → KeepsFs env (f a) t) : KeepsFs env (p >>= f) w := by
  refine keepsFs_bind (keepsFs_of_calls (hp.imp fun _ ho => ho.2)) fun a t hrun => hf a t ?_
  have hquiet : p.Wp (handle env) w fun _ t => Still w t := wp_quiet hp fun _ _ h => h
  have hstill := wp_iff.mp hquiet
  rwa [hrun] at hstill

theorem keepsFs_processOne_missing (hb : w.fs.get c.stagingPath = none) :
    KeepsFs env (processOne env eng ps c) w := by
  have hj : ∀ (opId : String) (phase : JournalPhase),
      (journalAppend eng opId phase c none none).Calls Op.Quiet :=
    fun _ _ => calls_journalAppend fun _ _ => ⟨rfl, rfl⟩
  unfold processOne
  refine keepsFs_quiet (.op ⟨rfl, rfl⟩ fun _ => .ret) fun uuid w₁ h₁ => ?_
  refine keepsFs_quiet (hj _ _) fun _ w₂ h₂ => ?_
  have hb₂ : w₂.fs.get c.stagingPath = none := by rw [h₂.fs, h₁.fs, hb]
  refine keepsFs_bind (keepsFs_of_calls (calls_pathExists rfl)) fun found t hrun => ?_
  have hfound : found = false := by
    have hres := congrArg Prod.fst hrun
    simp only [pathExists, run_op, run_ret, handle, hb₂] at hres
    exact (Except.ok.inj hres).symm
  rw [hfound]
  exact keepsFs_quiet (hj _ _) fun _ _ _ => keepsFs_of_calls .ret

/-- What is refused executes no step it would not have executed. -/
theorem keepsFs_refuse {lone : Char → Bool} {p : Flow α} (h : KeepsFs env p w) :
    KeepsFs env (p.refuse (bindError lone)) w := by
  intro ev hev
  rcases refuse_cases (handle env) (bindError lone) p w with
    hnone | ⟨before, ev', rest, e, htrace, -, -, -, hcut⟩
  · rw [(run_refuse hnone).2] at hev
    exact h ev hev
  · rw [hcut] at hev
    exact h ev (by rw [htrace]; exact List.mem_append_left _ hev)

end Nightfall
