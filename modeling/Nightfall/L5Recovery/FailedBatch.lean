import Nightfall.Core.Lists
import Nightfall.L5Recovery.SparedFiles

/-!
# A batch in which a call raises (`domain/ingest.py`)

`process_batch` writes its terminal rows in a second loop, behind all calls of
`_process_one`. An exception in one of them skips that loop, whatever the other
calls have done to their files.

* `run_batch_raises`: with one worker the batch ends where the call raises.
* `meetsNoCause_of_kept`, `stays_of_meetsNoCause`, `keeps_of_unfound`: what the calls of
  a pool have met, and done.
* `failed_batch_recorded_iff`: which failed batches leave no consumed file
  without a terminal row.
-/
namespace Nightfall
open Nightfall.Core Storage Prog

/-! ## What a failed batch owes -/

/-- Among the terminal rows added between `w` and `w'` is one of the candidate. -/
def HasTerminal (batchRunId : String) (w w' : World) (c : StagedCandidate) : Prop :=
  ∃ row ∈ w'.reg.ingestTerminalAudit.drop w.reg.ingestTerminalAudit.length,
    row.batchRunId = batchRunId ∧ row.account = c.accountName ∧ row.onedriveId = c.onedriveId

/-- Every candidate whose staged file the steps removed has its terminal row. -/
def ConsumedOnRecord (batchRunId : String) (cs : List StagedCandidate) (h : List (Event Ops World))
    (w w' : World) : Prop :=
  ∀ c ∈ cs, Consumed h c → HasTerminal batchRunId w w' c

section Calls
variable {env : Env} {eng : Engine} {ps : IngestParams} {c : StagedCandidate} {w w' : World}
  {α β : Type}

/-! ## Up to the call that raises -/

theorem processAll_append (xs ys : List (Nat × StagedCandidate)) :
    processAll env eng ps (xs ++ ys) = processAll env eng ps xs >>= fun outs =>
      processAll env eng ps ys >>= fun outs' => (Prog.ret (outs ++ outs') : Flow _) := by
  induction xs with
  | nil => exact (bind_ret _).symm
  | cons x xs ih =>
    simp only [List.cons_append, processAll, ih, Prog.bind_assoc, pure_eq, ret_bind]

variable {lone : Char → Bool} {start : World}

/-- The calls before `x` have returned and left `start`, the one of `x` raises. -/
structure RaisesAt (env : Env) (eng : Engine) (ps : IngestParams) (lone : Char → Bool)
    (before : List (Nat × StagedCandidate)) (x : Nat × StagedCandidate) (w start : World) (e : Err)
    (w' : World) : Prop where
  returned : ∃ outs, ((processAll env eng ps before).refuse (bindError lone)).run (handle env) w =
    (.ok outs, start)
  raised : ((processOne env eng ps x.2).refuse (bindError lone)).run (handle env) start =
    (.error e, w')

variable {before after : List (Nat × StagedCandidate)} {x : Nat × StagedCandidate} {e : Err}
  {outs : List (Nat × StagedCandidate × IngestOutcome)}

theorem run_processAll_raises (after : List (Nat × StagedCandidate))
    (h : RaisesAt env eng ps lone before x w start e w') :
    ((processAll env eng ps (before ++ x :: after)).refuse (bindError lone)).run (handle env) w =
        (.error e, w') ∧
      ((processAll env eng ps (before ++ x :: after)).refuse (bindError lone)).trace
          (handle env) w =
        (processAll env eng ps before).trace (handle env) w ++
          ((processOne env eng ps x.2).refuse (bindError lone)).trace (handle env) start := by
  obtain ⟨outs, hret⟩ := h.returned
  have htrace := (run_of_refuse_ok hret).2
  rw [processAll_append, refuse_bind, run_bind, trace_bind, hret, htrace]
  simp only [thenTrace, processAll]
  simp only [refuse_bind, run_bind, trace_bind, h.raised, thenTrace, List.append_nil, and_self]

/-- Calls that found no staged file have changed no file. -/
theorem returned_keeps : ∀ {before : List (Nat × StagedCandidate)} {w : World}
    {outs : List (Nat × StagedCandidate × IngestOutcome)},
    (processAll env eng ps before).run (handle env) w = (.ok outs, start) →
    (∀ y ∈ before, w.fs.get y.2.stagingPath = none) →
    KeepsFs env (processAll env eng ps before) w ∧ start.fs = w.fs
  | [], w, _, h, _ => by
    cases h
    exact ⟨keepsFs_of_calls .ret, rfl⟩
  | (i, c) :: before, w, outs, h, hnone => by
    have hmissing : w.fs.get c.stagingPath = none := hnone (i, c) List.mem_cons_self
    obtain ⟨out, w₁, hone, hrest⟩ := run_bind_ok h
    obtain ⟨outs', w₂, hall, hend⟩ := run_bind_ok hrest
    have hstart : w₂ = start := congrArg Prod.snd hend
    rw [hstart] at hall
    have hstill : Still w w₁ := by
      have hok : (processOne env eng ps c).Wp (handle env) w (onOk fun _ t => Still w t) :=
        wp_processOne_missing hmissing
      have hend := wp_iff.mp hok
      rwa [hone] at hend
    obtain ⟨hkeep, hfs⟩ := returned_keeps hall fun y hy => by
      rw [hstill.fs]
      exact hnone y (List.mem_cons_of_mem _ hy)
    refine ⟨?_, hfs.trans hstill.fs⟩
    refine keepsFs_bind (keepsFs_processOne_missing hmissing) fun a t hrun => ?_
    rw [hone] at hrun
    cases hrun
    exact keepsFs_bind hkeep fun _ _ _ => keepsFs_of_calls .ret

theorem mem_trace_bind {p : Flow α} {f : α → Flow β} {a : α} {t : World} {ev : Event Ops World}
    (hrun : p.run (handle env) w = (.ok a, t)) (he : ev ∈ (f a).trace (handle env) t) :
    ev ∈ (p >>= f).trace (handle env) w := by
  rw [trace_bind, hrun]
  exact List.mem_append_right _ he

/-- If one of them found a staged file, the first such candidate has lost it. -/
theorem returned_consumes : ∀ {before : List (Nat × StagedCandidate)} {w : World}
    {outs : List (Nat × StagedCandidate × IngestOutcome)},
    (processAll env eng ps before).run (handle env) w = (.ok outs, start) →
    (∃ y ∈ before, w.fs.get y.2.stagingPath ≠ none) →
    ∃ y ∈ before, Consumed ((processAll env eng ps before).trace (handle env) w) y.2
  | [], w, _, _, hex => by
    obtain ⟨y, hy, -⟩ := hex
    cases hy
  | (i, c) :: before, w, outs, h, hex => by
    obtain ⟨out, w₁, hone, hrest⟩ := run_bind_ok h
    obtain ⟨outs', w₂, hall, hend⟩ := run_bind_ok hrest
    have hstart : w₂ = start := congrArg Prod.snd hend
    rw [hstart] at hall
    rw [processAll]
    cases hb : w.fs.get c.stagingPath with
    | some b =>
      have hgone : w₁.fs.get c.stagingPath = none := by
        have hok : (processOne env eng ps c).Wp (handle env) w
            (onOk fun _ t => t.fs.get c.stagingPath = none) := wp_processOne_consumes hb
        have hend := wp_iff.mp hok
        rwa [hone] at hend
      obtain ⟨ev, hev, hpre, hpost⟩ := trace_change (H := handle env)
        (p := processOne env eng ps c) (I := fun t => t.fs.get c.stagingPath ≠ none) (s := w)
        (by simp [hb]) (by simp [hone, hgone])
      refine ⟨(i, c), List.mem_cons_self, ev, ?_, hpre, not_not.mp hpost⟩
      rw [trace_bind]
      exact List.mem_append_left _ hev
    | none =>
      have hstill : Still w w₁ := by
        have hok : (processOne env eng ps c).Wp (handle env) w (onOk fun _ t => Still w t) :=
          wp_processOne_missing hb
        have hend := wp_iff.mp hok
        rwa [hone] at hend
      have hex' : ∃ y ∈ before, w₁.fs.get y.2.stagingPath ≠ none := by
        obtain ⟨y, hy, hstaged⟩ := hex
        rcases List.mem_cons.mp hy with rfl | hy
        · exact absurd hb hstaged
        · exact ⟨y, hy, by rwa [hstill.fs]⟩
      obtain ⟨y, hy, hcons⟩ := returned_consumes hall hex'
      refine ⟨y, List.mem_cons_of_mem _ hy, hcons.mono fun ev hev => mem_trace_bind hone ?_⟩
      rw [trace_bind]
      exact List.mem_append_left _ hev

/-! ## No terminal row -/

/-- The step writes no terminal row. -/
def KeepsTerminal (env : Env) (o : Op) : Prop :=
  ∀ s, (handle env o s).2.reg.ingestTerminalAudit = s.reg.ingestTerminalAudit

theorem keepsTerminal_of_processOne {o : Op} (ho : o.ofProcessOne = true) : KeepsTerminal env o :=
  fun _ => (sameRecords_handle ho).terminal

theorem terminal_of_calls {p : Flow α} {r : Except Err α} (hp : p.Calls (KeepsTerminal env))
    (hrun : p.run (handle env) w = (r, w')) :
    w'.reg.ingestTerminalAudit = w.reg.ingestTerminalAudit := by
  have hend := wp_iff.mp (hp.wp (H := handle env)
    (R := fun s t : World => t.reg.ingestTerminalAudit = s.reg.ingestTerminalAudit)
    (Q := fun _ t => t.reg.ingestTerminalAudit = w.reg.ingestTerminalAudit) (s := w)
    (fun _ => rfl) (fun _ _ _ h h' => h'.trans h) (fun _ s ho => ho s) (fun _ _ h => h))
  rwa [hrun] at hend

/-- Without new rows, everything consumed is missing one. -/
theorem consumedOnRecord_iff {id : String} {cs : List StagedCandidate}
    {h : List (Event Ops World)}
    (hrows : w'.reg.ingestTerminalAudit = w.reg.ingestTerminalAudit) :
    ConsumedOnRecord id cs h w w' ↔ ∀ c ∈ cs, ¬ Consumed h c := by
  have hno : ∀ c, ¬ HasTerminal id w w' c := by
    rintro c ⟨row, hrow, -⟩
    rw [hrows, List.drop_length] at hrow
    cases hrow
  constructor
  · exact fun hall c hc hcons => hno c (hall c hc hcons)
  · exact fun hnone c hc hcons => absurd hcons (hnone c hc)

/-! ## The batch -/

/-- With one worker: the batch ends where the call raises. -/
theorem run_batch_raises {bp : BatchParams} {cs : List StagedCandidate}
    {settings : ZeroBytePolicy × String} {w₁ : World}
    (hstart : (prepareBatch env bp 1 cs).run (handle env) w = (.ok settings, w₁))
    (hcs : scheduled bp.sizeAwareScheduling cs = before ++ x :: after)
    (hraise : RaisesAt env eng (bp.ingest settings.1) lone before x w₁ start e w') :
    ((processBatch env eng bp cs).refuse (bindError lone)).run (handle env) w = (.error e, w') ∧
    ((processBatch env eng bp cs).refuse (bindError lone)).trace (handle env) w =
      (prepareBatch env bp 1 cs).trace (handle env) w ++
        ((processAll env eng (bp.ingest settings.1) before).trace (handle env) w₁ ++
          ((processOne env eng (bp.ingest settings.1) x.2).refuse (bindError lone)).trace
            (handle env) start) := by
  have hprepare : (prepareBatch env bp 1 cs).refuse (bindError lone) = prepareBatch env bp 1 cs :=
    refuse_of_calls (calls_prepareBatch (bindError_of_texts rfl))
  obtain ⟨hall, htrace⟩ := run_processAll_raises after hraise
  rw [processBatch_eq, hcs, refuse_bind, hprepare]
  constructor
  · rw [run_bind, hstart]
    simp only [refuse_bind]
    rw [run_bind, hall]
  · rw [trace_bind, hstart]
    simp only [thenTrace, refuse_bind]
    rw [trace_bind, hall, htrace]
    simp only [thenTrace, List.append_nil]

theorem still_of_prepare {bp : BatchParams} {workerCount : Int} {cs : List StagedCandidate}
    {start : ZeroBytePolicy × String} {w₁ : World}
    (hstart : (prepareBatch env bp workerCount cs).run (handle env) w = (.ok start, w₁)) :
    Still w w₁ := by
  have hquiet : (prepareBatch env bp workerCount cs).Wp (handle env) w fun _ t => Still w t :=
    wp_quiet (calls_prepareBatch ⟨rfl, rfl⟩) fun _ _ h => h
  have hstill := wp_iff.mp hquiet
  rwa [hstart] at hstill

theorem consumed_batch_iff {bp : BatchParams} {cs : List StagedCandidate}
    {settings : ZeroBytePolicy × String} {w₁ : World}
    (hstart : (prepareBatch env bp 1 cs).run (handle env) w = (.ok settings, w₁))
    (hcs : scheduled bp.sizeAwareScheduling cs = before ++ x :: after)
    (hraise : RaisesAt env eng (bp.ingest settings.1) lone before x w₁ start e w') :
    ConsumedOnRecord settings.2 cs
        (((processBatch env eng bp cs).refuse (bindError lone)).trace (handle env) w) w w' ↔
      (∀ y ∈ before, w.fs.get y.2.stagingPath = none) ∧
        (w.fs.get x.2.stagingPath = none ∨
          ¬ RefusedAtTx env lone (processOne env eng (bp.ingest settings.1) x.2) start) := by
  have hstill := still_of_prepare hstart
  have hrows : w'.reg.ingestTerminalAudit = w.reg.ingestTerminalAudit := by
    rw [← hstill.reg]
    exact terminal_of_calls (calls_processAll (fun _ ho => keepsTerminal_of_processOne ho) _).refuse
      (run_processAll_raises after hraise).1
  obtain ⟨outs, hreturned⟩ := hraise.returned
  have hran := (run_of_refuse_ok hreturned).1
  obtain ⟨hconsumes, hkeeps⟩ := refused_processOne hraise.raised
  have hmem : ∀ y ∈ before ++ x :: after, y.2 ∈ cs := fun y hy => mem_scheduled (hcs ▸ hy)
  rw [consumedOnRecord_iff hrows, (run_batch_raises hstart hcs hraise).2]
  constructor
  · intro hnone
    have hbefore : ∀ y ∈ before, w.fs.get y.2.stagingPath = none := by
      intro y hy
      by_contra hstaged
      have hex : ∃ y ∈ before, w₁.fs.get y.2.stagingPath ≠ none := ⟨y, hy, by rwa [hstill.fs]⟩
      obtain ⟨z, hz, hcons⟩ := returned_consumes hran hex
      exact hnone z.2 (hmem z (List.mem_append_left _ hz)) (hcons.mono fun _ he =>
        List.mem_append_right _ (List.mem_append_left _ he))
    refine ⟨hbefore, .inr fun hrefused => ?_⟩
    exact hnone x.2 (hmem x (by simp)) ((hconsumes hrefused).mono fun _ he =>
      List.mem_append_right _ (List.mem_append_right _ he))
  · rintro ⟨hbefore, hx⟩ c _ ⟨ev, hev, hpre, hpost⟩
    obtain ⟨hkeep, hfs⟩ := returned_keeps hran fun y hy => by
      rw [hstill.fs]
      exact hbefore y hy
    have hlast : KeepsFs env ((processOne env eng (bp.ingest settings.1) x.2).refuse
        (bindError lone)) start := by
      by_cases hrefused : RefusedAtTx env lone (processOne env eng (bp.ingest settings.1) x.2) start
      · have hmissing : start.fs.get x.2.stagingPath = none := by
          rw [hfs, hstill.fs]
          exact hx.resolve_right (not_not.mpr hrefused)
        exact keepsFs_refuse (keepsFs_processOne_missing hmissing)
      · exact hkeeps hrefused
    have hkept : ev.post.fs = ev.pre.fs := by
      rcases List.mem_append.mp hev with hev | hev
      · exact keepsFs_of_calls (calls_prepareBatch rfl) ev hev
      · rcases List.mem_append.mp hev with hev | hev
        · exact hkeep ev hev
        · exact hlast ev hev
    rw [hkept] at hpost
    exact hpre hpost

/-! ## The thread pool -/

/-- The first exception is raised before the second loop. -/
theorem run_finish_raises {bp : BatchParams} {id : String} {cs : List (Nat × StagedCandidate)}
    {results : Fin cs.length → Except Err IngestOutcome} {i : Fin cs.length}
    (hi : results i = .error e) : ∃ e', ((finishBatch env bp id (gathered cs results)).refuse
      (bindError lone)).run (handle env) w = (.error e', w) := by
  cases hg : gathered cs results with
  | error e' => exact ⟨e', rfl⟩
  | ok outs =>
    have hkeep : ∀ (j : Fin cs.length) (z : Nat × StagedCandidate × IngestOutcome),
        (do let out ← results j; return ((cs.get j).1, (cs.get j).2, out)) = Except.ok z →
        ∃ out, results j = .ok out := by
      intro j z hz
      cases hj : results j with
      | error e =>
        rw [hj] at hz
        cases hz
      | ok out => exact ⟨out, rfl⟩
    have hall : ∀ j ∈ List.finRange cs.length, ∃ out, results j = .ok out :=
      ((List.forall₂_and_left _ _).mp ((forall₂_of_mapM hg).imp fun j z hz =>
        ⟨hkeep j z hz, hz⟩)).1
    obtain ⟨out, hout⟩ := hall i (List.mem_finRange i)
    rw [hi] at hout
    cases hout

theorem terminal_of_run {ι : Type} [DecidableEq ι] {α : ι → Type} {P P' : Pool ι Ops Err α}
    {t : List (ι × Event Ops World)} (hrun : Run (handle env) P w t P' w')
    (hP : ∀ i, (P i).Calls (KeepsTerminal env)) :
    w'.reg.ingestTerminalAudit = w.reg.ingestTerminalAudit := by
  induction hrun with
  | refl P s => rfl
  | @step P _ s _ _ i o k hop rest ih =>
    have hcalls := hP i
    rw [hop] at hcalls
    have hstep : (handle env o s).2.reg.ingestTerminalAudit = s.reg.ingestTerminalAudit := by
      cases hcalls with
      | op ho _ => exact ho s
    refine (ih fun j => ?_).trans hstep
    by_cases hj : j = i
    · subst hj
      rw [Pool.set_self]
      exact hcalls.next _
    · rw [Pool.set_ne _ hj]
      exact hP j

/-- All calls, with the statements that raise, ran from `w` to their ends. -/
structure PooledRefusing (env : Env) (eng : Engine) (ps : IngestParams) (lone : Char → Bool)
    (cs : List (Nat × StagedCandidate)) (w : World) (t : List (Fin cs.length × Event Ops World))
    (results : Fin cs.length → Except Err IngestOutcome) (w' : World) : Prop where
  ran : ∃ P', Run (handle env) (fun i => (submitted env eng ps cs i).refuse (bindError lone)) w t
    P' w' ∧ ∀ i, (P' i).result = some (results i)

theorem exists_scheduled (sizeAware : Bool) {cs : List StagedCandidate} (hc : c ∈ cs) :
    ∃ x ∈ scheduled sizeAware cs, x.2 = c := by
  have hzip : ∃ x ∈ (List.range cs.length).zip cs, x.2 = c := by
    rw [← List.mem_map, List.map_snd_zip (by simp)]
    exact hc
  unfold scheduled
  split
  · simpa only [List.mem_insertionSort] using hzip
  · exact hzip

/-- Where no staged file has gone, a call that has found its own has met no cause. -/
theorem meetsNoCause_of_kept {cs : List (Nat × StagedCandidate)}
    {t : List (Fin cs.length × Event Ops World)}
    {results : Fin cs.length → Except Err IngestOutcome}
    (hpool : PooledRefusing env eng ps lone cs w t results w')
    (hkept : ∀ x ∈ cs, ¬ Consumed (t.map (·.2)) x.2) {i : Fin cs.length}
    (hfinds : Finds (own i t) (cs.get i).2) :
    MeetsNoCause env ps cs (cs.get i).2 (own i t) := by
  obtain ⟨P', hrun, hends⟩ := hpool.ran
  have hstays : ∀ y ∈ t, StagedStay cs y.2.pre y.2.post := fun y hy x hx hpre hpost =>
    hkept x hx ⟨y.2, List.mem_map_of_mem hy, hpre, hpost⟩
  have hmeets : Meets (staying env cs) i [] t := by
    refine meets_of_forall fun y hy h => ?_
    split
    · have hstay := hstays y hy
      rwa [post_of_run hrun y hy] at hstay
    · exact hstays y hy
  have hsafe : Safe (handle env) (staying env cs)
      (fun _ h _ => Finds h (cs.get i).2 → MeetsNoCause env ps cs (cs.get i).2 h)
      ((submitted env eng ps cs i).refuse (bindError lone)) [] w :=
    safe_staying ⟨cs.get i, List.get_mem _ i, rfl⟩ w
  exact (safe_run hrun hsafe hmeets).2.result (hends i) (by simpa using hfinds)

/-- A call that meets no cause lets every staged file stay. -/
theorem stays_of_meetsNoCause {cs : List (Nat × StagedCandidate)}
    {t : List (Fin cs.length × Event Ops World)}
    {results : Fin cs.length → Except Err IngestOutcome}
    (hpool : PooledRefusing env eng ps lone cs w t results w') {i : Fin cs.length}
    (hclear : MeetsNoCause env ps cs (cs.get i).2 (own i t)) :
    ∀ e ∈ own i t, StagedStay cs e.pre e.post := by
  obtain ⟨P', hrun, -⟩ := hpool.ran
  exact (safe_run hrun (safe_refuse (fun _ _ _ => trivial) (safe_causeless w))
    (meets_of_condsFrom (fun _ _ _ => trivial) hclear)).1

/-- A call that has not found its staged file has changed none. -/
theorem keeps_of_unfound {cs : List (Nat × StagedCandidate)}
    {t : List (Fin cs.length × Event Ops World)}
    {results : Fin cs.length → Except Err IngestOutcome}
    (hpool : PooledRefusing env eng ps lone cs w t results w') {i : Fin cs.length}
    (hfinds : ¬ Finds (own i t) (cs.get i).2) : ∀ e ∈ own i t, e.post.fs = e.pre.fs := by
  obtain ⟨P', hrun, -⟩ := hpool.ran
  have hmeets : Meets (unstaged (cs.get i).2) i [] t := by
    refine meets_of_forall fun x hx h => ?_
    split
    · next hi =>
      intro hop
      by_contra hpre
      exact hfinds ⟨x.2, mem_own.mpr (hi ▸ hx), hop, hpre⟩
    · trivial
  exact (safe_run hrun (safe_refuse (fun _ _ _ => trivial) (safe_unstaged w)) hmeets).1

end Calls

/-- For every batch in which a call of `_process_one` raises. With one worker the
batch ends there, and every consumed file has a terminal row exactly when no
candidate whose turn came earlier had a staged file, and the call, if it has one, raises
before it writes to the registry. On a thread pool the
exception comes behind all calls, and there too no row is written: every
consumed file has one exactly when each call that finds its staged file meets, in the
states before its steps, no cause to remove one. -/
theorem failed_batch_recorded_iff (env : Env) (lone : Char → Bool) (eng : Engine)
    (bp : BatchParams) (cs : List StagedCandidate) (w : World) :
    (∀ settings w₁ before x after start e w',
      (prepareBatch env bp 1 cs).run (handle env) w = (.ok settings, w₁) →
      scheduled bp.sizeAwareScheduling cs = before ++ x :: after →
      RaisesAt env eng (bp.ingest settings.1) lone before x w₁ start e w' →
      ((processBatch env eng bp cs).refuse (bindError lone)).run (handle env) w = (.error e, w') ∧
      (ConsumedOnRecord settings.2 cs
          (((processBatch env eng bp cs).refuse (bindError lone)).trace (handle env) w) w w' ↔
        (∀ y ∈ before, w.fs.get y.2.stagingPath = none) ∧
          (w.fs.get x.2.stagingPath = none ∨
            ¬ RefusedAtTx env lone (processOne env eng (bp.ingest settings.1) x.2) start))) ∧
    (∀ workerCount settings w₁ t results i e w',
      (prepareBatch env bp workerCount cs).run (handle env) w = (.ok settings, w₁) →
      PooledRefusing env eng (bp.ingest settings.1) lone (scheduled bp.sizeAwareScheduling cs) w₁ t
        results w' →
      results i = .error e →
      (∃ e', ((finishBatch env bp settings.2 (gathered _ results)).refuse (bindError lone)).run
        (handle env) w' = (.error e', w')) ∧
      (ConsumedOnRecord settings.2 cs (t.map (·.2)) w w' ↔
        ∀ j, Finds (own j t) ((scheduled bp.sizeAwareScheduling cs).get j).2 →
          MeetsNoCause env (bp.ingest settings.1) (scheduled bp.sizeAwareScheduling cs)
            ((scheduled bp.sizeAwareScheduling cs).get j).2 (own j t))) := by
  constructor
  · intro settings w₁ before x after start e w' hstart hcs hraise
    exact ⟨(run_batch_raises hstart hcs hraise).1, consumed_batch_iff hstart hcs hraise⟩
  · intro workerCount settings w₁ t results i e w' hstart hpool hi
    refine ⟨run_finish_raises hi, ?_⟩
    obtain ⟨P', hrun, -⟩ := hpool.ran
    have hrows : w'.reg.ingestTerminalAudit = w.reg.ingestTerminalAudit := by
      rw [← (still_of_prepare hstart).reg]
      exact terminal_of_run hrun fun j =>
        (calls_processOne fun _ ho => keepsTerminal_of_processOne ho).refuse
    rw [consumedOnRecord_iff hrows]
    constructor
    · intro hnone j hfinds
      exact meetsNoCause_of_kept hpool (fun x hx => hnone x.2 (mem_scheduled hx)) hfinds
    · rintro hall c hc ⟨ev, hev, hpre, hpost⟩
      obtain ⟨⟨j, ev⟩, hmem, rfl⟩ := List.mem_map.mp hev
      by_cases hfinds : Finds (own j t) ((scheduled bp.sizeAwareScheduling cs).get j).2
      · obtain ⟨x, hx, rfl⟩ := exists_scheduled bp.sizeAwareScheduling hc
        exact stays_of_meetsNoCause hpool (hall j hfinds) ev (mem_own.mpr hmem) x hx hpre hpost
      · rw [keeps_of_unfound hpool hfinds ev (mem_own.mpr hmem)] at hpost
        exact hpre hpost

/-! ## An empty file and a full directory -/

/-- One collision attempt, and empty files are rejected. -/
def tightBatch : BatchParams :=
  { sampleBatch with zeroBytePolicy := "reject", collisionMaxAttempts := 1 }

/-- The batch as it runs, with no text SQLite does not take. -/
def tightFlow (cs : List StagedCandidate) : Flow IngestBatchResult :=
  (processBatch sampleEnv ⟨none⟩ tightBatch cs).refuse (bindError sampleLone)

/-- Both names the second candidate may take are taken. -/
def crowdedWorld : World :=
  sampleWorld [(["staging", "x"], []), (["staging", "y"], [97]),
    (["lib", "pending", "2024", "01", "IMG.JPG"], [98]),
    (["lib", "pending", "2024", "01", "IMG-1.JPG"], [98])] Registry.empty

/-- A photo whose path in the drive SQLite does not take, by itself. -/
def unbindableRun : Except Err IngestBatchResult × World :=
  (tightFlow [{ sampleCandidate "id2" ["staging", "y"] with
    relativePath := "/Camera/\ue0ff.JPG" }]).run (handle sampleEnv)
      (sampleWorld [(["staging", "y"], [97])] Registry.empty)

/-- It has moved when the batch raises, and nothing says so. -/
example : unbindableRun.1.toOption.isNone = true ∧
    unbindableRun.2.fs.get ["lib", "pending", "2024", "01", "IMG.JPG"] = some [97] ∧
    unbindableRun.2.reg.files.keys = [] ∧ unbindableRun.2.reg.auditLog = [] ∧
    unbindableRun.2.reg.ingestTerminalAudit = [] := by
  decide +kernel

def emptyThenPhoto : List StagedCandidate :=
  [sampleCandidate "id1" ["staging", "x"], sampleCandidate "id2" ["staging", "y"]]

/-- The batch raises at the photo; the empty file is gone, and neither a terminal
row nor an audit row says so. -/
theorem empty_file_unrecorded :
    ((tightFlow emptyThenPhoto).run (handle sampleEnv) crowdedWorld).1.toOption.isNone = true ∧
    ¬ ConsumedOnRecord (sampleEnv.uuid 0) emptyThenPhoto
      ((tightFlow emptyThenPhoto).trace (handle sampleEnv) crowdedWorld) crowdedWorld
      ((tightFlow emptyThenPhoto).run (handle sampleEnv) crowdedWorld).2 ∧
    ((tightFlow emptyThenPhoto).run (handle sampleEnv) crowdedWorld).2.reg.auditLog = [] := by
  obtain ⟨hraise, haudit, hgone, hnone⟩ :
      ((tightFlow emptyThenPhoto).run (handle sampleEnv) crowdedWorld).1.toOption.isNone = true ∧
      ((tightFlow emptyThenPhoto).run (handle sampleEnv) crowdedWorld).2.reg.auditLog = [] ∧
      ¬ ((tightFlow emptyThenPhoto).run (handle sampleEnv) crowdedWorld).2.fs.get
        ["staging", "x"] ≠ none ∧
      ((tightFlow emptyThenPhoto).run (handle sampleEnv)
        crowdedWorld).2.reg.ingestTerminalAudit.drop
          crowdedWorld.reg.ingestTerminalAudit.length = [] := by
    decide +kernel
  refine ⟨hraise, fun hall => ?_, haudit⟩
  obtain ⟨ev, hev, hpre, hpost⟩ := trace_change (H := handle sampleEnv)
    (p := tightFlow emptyThenPhoto) (I := fun t => t.fs.get ["staging", "x"] ≠ none)
    (s := crowdedWorld) (by decide +kernel) hgone
  obtain ⟨row, hrow, -⟩ := hall (sampleCandidate "id1" ["staging", "x"]) List.mem_cons_self
    ⟨ev, hev, hpre, not_not.mp hpost⟩
  rw [hnone] at hrow
  cases hrow

/-- The photo by itself. -/
def photoOnly : List StagedCandidate := [sampleCandidate "id2" ["staging", "y"]]

def preparedWorld (workerCount : Int) : World :=
  ((prepareBatch sampleEnv tightBatch workerCount photoOnly).run (handle sampleEnv) crowdedWorld).2

/-- What its call leaves with one worker. -/
def raisedWorld : World :=
  (((processOne sampleEnv ⟨none⟩ (tightBatch.ingest .reject)
    (sampleCandidate "id2" ["staging", "y"])).refuse (bindError sampleLone)).run
      (handle sampleEnv) (preparedWorld 1)).2

/-- Its call on a pool, to the exception. -/
def photoOnPool : List (Fin (scheduled true photoOnly).length × Event Ops World) ×
    Pool (Fin (scheduled true photoOnly).length) Ops Err (fun _ => IngestOutcome) × World :=
  exec (handle sampleEnv) (List.replicate 12 ⟨0, by decide⟩)
    (fun i => (submitted sampleEnv ⟨none⟩ (tightBatch.ingest .reject) (scheduled true photoOnly)
      i).refuse (bindError sampleLone)) (preparedWorld 2)

theorem photoOnly_recorded :
    ConsumedOnRecord (sampleEnv.uuid 0) photoOnly
      ((tightFlow photoOnly).trace (handle sampleEnv) crowdedWorld) crowdedWorld
      ((tightFlow photoOnly).run (handle sampleEnv) crowdedWorld).2 ∧
    ConsumedOnRecord (sampleEnv.uuid 0) photoOnly (photoOnPool.1.map (·.2)) crowdedWorld
      photoOnPool.2.2 := by
  obtain ⟨hone, hpool⟩ := failed_batch_recorded_iff sampleEnv sampleLone ⟨none⟩ tightBatch
    photoOnly crowdedWorld
  constructor
  · obtain ⟨hprepared, hraised⟩ :
        ((prepareBatch sampleEnv tightBatch 1 photoOnly).run (handle sampleEnv)
          crowdedWorld).1 = .ok (.reject, sampleEnv.uuid 0) ∧
        (((processOne sampleEnv ⟨none⟩ (tightBatch.ingest .reject)
          (sampleCandidate "id2" ["staging", "y"])).refuse (bindError sampleLone)).run
            (handle sampleEnv) (preparedWorld 1)).1 =
          .error (.storage (collisionMsg ["lib", "pending", "2024", "01", "IMG.JPG"] 1)) := by
      decide +kernel
    have hstart : (prepareBatch sampleEnv tightBatch 1 photoOnly).run (handle sampleEnv)
        crowdedWorld = (.ok (.reject, sampleEnv.uuid 0), preparedWorld 1) :=
      run_of_result hprepared
    have hraise : RaisesAt sampleEnv ⟨none⟩ (tightBatch.ingest .reject) sampleLone []
        (0, sampleCandidate "id2" ["staging", "y"]) (preparedWorld 1) (preparedWorld 1)
        (.storage (collisionMsg ["lib", "pending", "2024", "01", "IMG.JPG"] 1)) raisedWorld :=
      ⟨⟨[], rfl⟩, run_of_result hraised⟩
    obtain ⟨hrun, hiff⟩ := hone _ _ [] _ [] _ _ _ hstart (by decide +kernel) hraise
    have hfirst : firstRefused sampleEnv sampleLone (processOne sampleEnv ⟨none⟩
        (tightBatch.ingest .reject) (sampleCandidate "id2" ["staging", "y"])) (preparedWorld 1) =
        none := by
      rw [firstRefused, List.find?_eq_none]
      decide +kernel
    unfold tightFlow
    rw [hrun]
    dsimp only
    refine hiff.mpr ⟨nofun, .inr ?_⟩
    rintro ⟨t, ht⟩
    rw [hfirst] at ht
    cases ht
  · have hstart : (prepareBatch sampleEnv tightBatch 2 photoOnly).run (handle sampleEnv)
        crowdedWorld = (.ok (.reject, sampleEnv.uuid 0), preparedWorld 2) :=
      run_of_result (by decide +kernel)
    have hran : PooledRefusing sampleEnv ⟨none⟩ (tightBatch.ingest .reject) sampleLone
        (scheduled true photoOnly) (preparedWorld 2) photoOnPool.1 (fun _ => .error (.storage
          (collisionMsg ["lib", "pending", "2024", "01", "IMG.JPG"] 1))) photoOnPool.2.2 :=
      ⟨photoOnPool.2.1, exec_run _ _ _ _, by decide +kernel⟩
    have hclear : ∀ j, MeetsNoCause sampleEnv (tightBatch.ingest .reject)
        (scheduled true photoOnly) ((scheduled true photoOnly).get j).2 (own j photoOnPool.1) := by
      decide +kernel
    exact (hpool 2 _ _ _ _ ⟨0, by decide⟩ _ _ hstart hran rfl).2.mpr fun j _ => hclear j

end Nightfall
