import Nightfall.L5Recovery.RaisingCalls

/-!
# Calls of a pool and the staged files (`domain/ingest.py`)

Whether a call of `_process_one` that has found its staged file removes it is decided
step by step, by what each step meets: the size, the prefilter, the rules, the row of
the content, the names it tries and, between pools, its temporary copy.

* `NoCause`: what a step has to meet.
* `safe_causeless`: a call whose steps meet it removes no staged file, whatever the
  other calls do.
* `safe_staying`: while no staged file goes, the steps of a call that has found its own
  meet it.
* `safe_unstaged`: a call that has not found its staged file changes no file.
-/
namespace Nightfall
open Nightfall.Core Storage Prog

/-- `staging_path.exists()` of the call has answered true. -/
def Finds (h : List (Event Ops World)) (c : StagedCandidate) : Prop :=
  ∃ e ∈ h, e.op = .pathExists c.stagingPath ∧ e.pre.fs.get c.stagingPath ≠ none

/-- No staged file of the candidates goes. -/
def StagedStay (cs : List (Nat × StagedCandidate)) (s t : World) : Prop :=
  ∀ x ∈ cs, s.fs.get x.2.stagingPath ≠ none → t.fs.get x.2.stagingPath ≠ none

/-- The path whose size the step takes. -/
def Op.sized : Op → Option Path
  | .statSize p => some p
  | _ => none

/-- In the state before it, the step meets nothing for which the call of `c` would remove
a staged file: the size, when it is first taken, is let through; the prefilter, the rules
and the `files` table have nothing; on one pool a free name lies outside the pending root;
a temporary copy that is to be renamed has gone, and one that is to be deleted is no
staged file. -/
def NoCause (env : Env) (ps : IngestParams) (cs : List (Nat × StagedCandidate))
    (c : StagedCandidate) (before : List (Event Ops World)) : Op → World → Prop
  | .statSize p, w => p = c.stagingPath → (∀ e ∈ before, e.op.sized ≠ some p) →
      ∀ b ∈ w.fs.get p, Admitted ps c b.length
  | .prefilterStatus _ _ _ _, w => prefiltered c w = none
  | .enabledBlockRules, w => blockedBy env c w = none
  | .getFile sha, w => w.reg.getFile sha = none
  | .pathExists p, w => ps.stagingOnSamePool = true → w.fs.get p = none →
      withinRoot p ps.pendingRoot = false
  | .replace src _, w => src ≠ c.stagingPath → w.fs.get src = none
  | .unlink p, w => p ≠ c.stagingPath → ∀ x ∈ cs, x.2.stagingPath = p → w.fs.get p = none
  | _, _ => True

instance (env : Env) (ps : IngestParams) (cs : List (Nat × StagedCandidate))
    (c : StagedCandidate) (before : List (Event Ops World)) (o : Op) (w : World) :
    Decidable (NoCause env ps cs c before o w) := by
  cases o <;> (unfold NoCause; infer_instance)

/-- The steps of the call meet no cause, and no staged file goes. -/
def causeless (env : Env) (ps : IngestParams) (cs : List (Nat × StagedCandidate))
    (c : StagedCandidate) : Contract Ops World where
  rely _ _ _ := True
  cond before o s := NoCause env ps cs c before o s
  guar _ s t := StagedStay cs s t
  rely_refl _ _ := trivial
  rely_trans _ _ _ _ _ _ := trivial

/-- None of the steps has met a cause. -/
def MeetsNoCause (env : Env) (ps : IngestParams) (cs : List (Nat × StagedCandidate))
    (c : StagedCandidate) (h : List (Event Ops World)) : Prop :=
  CondsFrom (causeless env ps cs c) [] h

instance (env : Env) (ps : IngestParams) (cs : List (Nat × StagedCandidate))
    (c : StagedCandidate) (h : List (Event Ops World)) :
    Decidable (MeetsNoCause env ps cs c h) :=
  decidableCondsFrom (fun before o w => inferInstanceAs (Decidable (NoCause env ps cs c before o w)))
    [] h

/-- Nobody removes a staged file. -/
def staying (env : Env) (cs : List (Nat × StagedCandidate)) : Contract Ops World where
  rely _ s t := StagedStay cs s t
  cond _ o s := StagedStay cs s (handle env o s).2
  guar _ _ _ := True
  rely_refl _ _ _ _ h := h
  rely_trans _ _ _ _ h h' x hx hs := h' x hx (h x hx hs)

/-- The call has not found its staged file; others may do anything. -/
def unstaged (c : StagedCandidate) : Contract Ops World where
  rely _ _ _ := True
  cond _ o s := o = .pathExists c.stagingPath → s.fs.get c.stagingPath = none
  guar _ s t := t.fs = s.fs
  rely_refl _ _ := trivial
  rely_trans _ _ _ _ _ _ := trivial

variable {env : Env} {eng : Engine} {ps : IngestParams} {cs : List (Nat × StagedCandidate)}
  {c : StagedCandidate} {α γ : Type} {h : List (Event Ops World)} {s : World}

/-- A look whether a file is there. -/
theorem safe_look {C : Contract Ops World} {q : Path} {f : Bool → Flow γ}
    {Q : Except Err γ → List (Event Ops World) → World → Prop} :
    Safe (handle env) C Q (pathExists q >>= f) h s ↔
      ∀ s', C.rely h s s' → C.cond h (.pathExists q) s' → C.guar (.pathExists q) s' s' ∧
        Safe (handle env) C Q (f (s'.fs.get q).isSome) (h ++ [⟨.pathExists q, s', s'⟩]) s' :=
  Iff.rfl

/-- A call that does not find its file changes none. -/
theorem safe_unstaged (s : World) :
    Safe (handle env) (unstaged c) (fun _ _ _ => True) (processOne env eng ps c) [] s := by
  have hquiet : ∀ {γ : Type} {p : Flow γ} {h : List (Event Ops World)} {s : World}
      {Q : Except Err γ → List (Event Ops World) → World → Prop},
      p.Calls (fun o : Op => o.writesFs = false) → (∀ r h' t, Q r h' t) →
      Safe (handle env) (unstaged c) Q p h s := fun hp hQ =>
    safe_calls (R := fun _ _ => True) (fun _ _ _ _ _ => trivial) (fun _ _ _ _ => trivial)
      (fun o s ho => ⟨handle_fs ho, trivial⟩) hp fun r h' t _ _ => hQ r _ t
  unfold processOne
  refine safe_bind (hquiet (.op rfl fun _ => .ret) fun r h s => ?_)
  cases r with
  | error e => exact fun _ _ => trivial
  | ok uuid =>
    refine safe_bind (hquiet (calls_journalAppend fun _ _ => rfl) fun r h s => ?_)
    cases r with
    | error e => exact fun _ _ => trivial
    | ok u =>
      refine safe_look.mpr fun s' _ hcond => ⟨rfl, ?_⟩
      have hnone : s'.fs.get c.stagingPath = none := hcond rfl
      simp only [hnone, Option.isSome_none, Bool.false_eq_true, if_false]
      exact hquiet (Calls.bind (calls_journalAppend fun _ _ => rfl) fun _ => .ret)
        fun _ _ _ => trivial

/-! ## Without a cause -/

/-- A name that no commit within the pending root takes. -/
def Barred (ps : IngestParams) (p : Path) : Prop :=
  ps.stagingOnSamePool = true → withinRoot p ps.pendingRoot = false

/-- A commit to it, if it gets there, is a copy. -/
theorem Barred.copies {p : Path} (hp : Barred ps p) (hin : withinRoot p ps.pendingRoot = true) :
    ps.stagingOnSamePool = false := by
  rw [← Bool.not_eq_true]
  intro hsame
  rw [hp hsame] at hin
  cases hin

theorem stagedStay_handle {o : Op}
    (h : ∀ x ∈ cs, o.vacates x.2.stagingPath → s.fs.get x.2.stagingPath = none) :
    StagedStay cs s (handle env o s).2 := by
  intro x hx hpre hpost
  exact hpre (h x hx ((gone_iff_vacates hpre).mp hpost))

theorem stagedStay_refl (s : World) : StagedStay cs s s := fun _ _ h => h

theorem stagedStay_reads {o : Op} (h : o.writesFs = false) :
    StagedStay cs s (handle env o s).2 := by
  intro x _ hx
  rwa [handle_fs h]

section Causeless

/-- What the other calls do to the files is no matter. -/
abbrev RemovesNone (env : Env) (ps : IngestParams) (cs : List (Nat × StagedCandidate))
    (c : StagedCandidate) (p : Flow γ) (h : List (Event Ops World)) (s : World) : Prop :=
  Safe (handle env) (causeless env ps cs c) (fun _ _ _ => True) p h s

theorem removesNone_err {e : Err} : RemovesNone env ps cs c (.err e : Flow γ) h s :=
  fun _ _ => trivial

/-- Steps that write no file. -/
theorem removesNone_bind {A : Op → Prop} {p : Flow α} {f : α → Flow γ} (hp : p.Calls A)
    (hA : ∀ o, A o → o.writesFs = false)
    (hf : ∀ a h' s, (∀ e ∈ h', A e.op) → RemovesNone env ps cs c (f a) (h ++ h') s) :
    RemovesNone env ps cs c (p >>= f) h s := by
  refine safe_bind (safe_calls (R := fun _ _ => True) (fun _ _ _ _ _ => trivial)
    (fun _ _ _ _ => trivial) (fun o s ho => ⟨stagedStay_reads (hA o ho), trivial⟩) hp
    fun r h' t _ hh => ?_)
  cases r with
  | error e => exact fun _ _ => trivial
  | ok a => exact hf a h' t fun e he => (hh e he).1

theorem removesNone_reads {p : Flow α} {f : α → Flow γ}
    (hp : p.Calls fun o : Op => o.writesFs = false)
    (hf : ∀ a h s, RemovesNone env ps cs c (f a) h s) :
    RemovesNone env ps cs c (p >>= f) h s :=
  removesNone_bind hp (fun _ ho => ho) fun a h' s _ => hf a (h ++ h') s

/-- One step, with what it meets. -/
theorem removesNone_op {o : Op} {k : o.Res → Flow α} {f : α → Flow γ}
    (hstay : ∀ s', NoCause env ps cs c h o s' → StagedStay cs s' (handle env o s').2)
    (hf : ∀ s' h', NoCause env ps cs c h o s' →
      RemovesNone env ps cs c (k (handle env o s').1 >>= f) h' (handle env o s').2) :
    RemovesNone env ps cs c (.op o k >>= f) h s :=
  fun s' _ hcond => ⟨hstay s' hcond, hf s' _ hcond⟩

theorem removesNone_look {q : Path} {f : Bool → Flow γ}
    (htrue : ∀ h s, RemovesNone env ps cs c (f true) h s)
    (hfalse : ∀ h s, Barred ps q → RemovesNone env ps cs c (f false) h s) :
    RemovesNone env ps cs c (pathExists q >>= f) h s := by
  refine removesNone_op (fun _ _ => stagedStay_reads rfl) fun s' h' hcond => ?_
  simp only [handle, Prog.ret_bind]
  cases hq : s'.fs.get q with
  | some b => exact htrue h' s'
  | none => exact hfalse h' s' fun hsame => hcond hsame hq

theorem removesNone_tryCollisions {base : Path} {f : Option Path → Flow γ}
    (hf : ∀ d h s, (∀ q, d = some q → Barred ps q) → RemovesNone env ps cs c (f d) h s) :
    ∀ {n index : Nat} {h : List (Event Ops World)} {s : World},
    RemovesNone env ps cs c (tryCollisions base index n >>= f) h s
  | 0, _, h, s => hf none h s nofun
  | n + 1, index, h, s => by
    rw [tryCollisions, Prog.bind_assoc]
    refine removesNone_look (fun _ _ => removesNone_tryCollisions hf) fun h s hbarred => ?_
    refine hf _ h s fun q hq => ?_
    rwa [← Option.some.inj hq]

theorem removesNone_choose {base : Path} {attempts : Int} {f : Path → Flow γ}
    (hf : ∀ d h s, Barred ps d → RemovesNone env ps cs c (f d) h s) :
    RemovesNone env ps cs c
      (chooseCollisionSafeDestinationWithThreshold base attempts >>= f) h s := by
  unfold chooseCollisionSafeDestinationWithThreshold
  split
  · exact removesNone_err
  · rw [Prog.bind_assoc]
    refine removesNone_look (fun h s => ?_) fun h s hbarred => hf base h s hbarred
    simp only [if_true]
    rw [Prog.bind_assoc]
    refine removesNone_tryCollisions fun d h s hd => ?_
    cases d with
    | none => exact removesNone_err
    | some d => exact hf d h s (hd d rfl)

/-- The deletion of a temporary copy. -/
theorem removesNone_unlink {p : Path} {f : Unit → Flow γ} (hne : p ≠ c.stagingPath)
    (hf : ∀ h s, RemovesNone env ps cs c (f ()) h s) :
    RemovesNone env ps cs c (unlink p >>= f) h s := by
  refine removesNone_op (fun s' hcond => stagedStay_handle fun x hx hv => ?_) fun s' h' _ => hf h' _
  obtain rfl : p = x.2.stagingPath := hv
  exact hcond hne x hx rfl

/-- A copy comes as far as the rename of its temporary file. -/
theorem removesNone_commitCopy {d : Path} {f : CommitResult → Flow γ} :
    RemovesNone env ps cs c (commitCopy c.stagingPath d >>= f) h s := by
  unfold commitCopy
  by_cases hself : c.stagingPath = d.addExt ".tmp"
  · simp only [copy2, if_pos hself]
    exact removesNone_err
  have hne : d.addExt ".tmp" ≠ c.stagingPath := Ne.symm hself
  simp only [copy2, if_neg hself, Prog.bind_assoc]
  refine removesNone_op (fun _ _ => stagedStay_handle fun _ _ hv => hv.elim) fun s' h' _ => ?_
  cases (handle env (.copy2 c.stagingPath (d.addExt ".tmp")) s').1 with
  | false => exact removesNone_err
  | true =>
    simp only [Prog.ret_bind]
    refine removesNone_reads (calls_statSize rfl) fun n h s => ?_
    refine removesNone_reads (calls_statSize rfl) fun m h s => ?_
    split
    · rw [Prog.bind_assoc]
      exact removesNone_unlink hne fun _ _ => removesNone_err
    simp only [Prog.bind_assoc]
    refine removesNone_reads (calls_sha256File rfl) fun sha h s => ?_
    refine removesNone_reads (calls_sha256File rfl) fun sha' h s => ?_
    split
    · rw [Prog.bind_assoc]
      exact removesNone_unlink hne fun _ _ => removesNone_err
    simp only [Prog.bind_assoc]
    have hfails : ∀ s', NoCause env ps cs c h (.replace (d.addExt ".tmp") d) s' →
        handle env (.replace (d.addExt ".tmp") d) s' = (false, s') := by
      intro s' hcond
      have hgone : s'.fs.get (d.addExt ".tmp") = none := hcond hne
      simp [handle, moveFile, hgone]
    refine removesNone_op (fun s' hcond => ?_) fun s' h' hcond => ?_
    · rw [hfails s' hcond]
      exact stagedStay_refl s'
    · rw [hfails s' hcond]
      exact removesNone_err

theorem removesNone_commit {d : Path} {f : CommitResult → Flow γ} (hd : Barred ps d) :
    RemovesNone env ps cs c (commitStagingToAccepted c.stagingPath d ps.stagingOnSamePool
      (some ps.pendingRoot) >>= f) h s := by
  unfold commitStagingToAccepted
  rw [Prog.bind_assoc]
  refine removesNone_reads (calls_pathExists rfl) fun there h s => ?_
  cases there with
  | false => exact removesNone_err
  | true =>
    simp only [if_true, ensureWithin, ensureWithinRoot, Prog.bind_assoc]
    cases hin : withinRoot d ps.pendingRoot with
    | false => exact removesNone_err
    | true =>
      simp only [hd.copies hin, if_true, Bool.false_eq_true, if_false]
      exact removesNone_commitCopy

theorem removesNone_decideByHash {opId : String} {n : Nat} :
    RemovesNone env ps cs c (decideByHash env eng ps c opId n) h s := by
  unfold decideByHash
  refine removesNone_reads (calls_sha256File rfl) fun sha h s => ?_
  refine removesNone_reads (calls_journalAppend fun _ _ => rfl) fun _ h s => ?_
  rw [matchBlockRule, Prog.bind_assoc]
  refine removesNone_op (fun _ _ => stagedStay_reads rfl) fun s' h' hcond => ?_
  have hrule : s'.reg.enabledBlockRules.find? (ruleMatches env c.originalFilename) = none := hcond
  simp only [handle, Prog.pure_eq, Prog.ret_bind, hrule]
  refine removesNone_op (fun _ _ => stagedStay_reads rfl) fun s' h' hcond => ?_
  have hrow : s'.reg.getFile sha = none := hcond
  simp only [handle, hrow, Prog.ret_bind]
  unfold ingestUnknown
  refine removesNone_reads (calls_renderRelativePath rfl) fun rel h s => ?_
  exact removesNone_choose fun d h s hd => removesNone_commit hd

/-- A call that meets no cause removes no staged file. -/
theorem safe_causeless (s : World) :
    RemovesNone env ps cs c (processOne env eng ps c) [] s := by
  unfold processOne
  have hopens : ∀ o : Op, (o.writesFs = false ∧ o.sized = none) →
      o.writesFs = false := fun _ ho => ho.1
  refine removesNone_bind (.op ⟨rfl, rfl⟩ fun _ => .ret) hopens fun uuid h₁ s h₁unsized => ?_
  refine removesNone_bind (calls_journalAppend fun _ _ => ⟨rfl, rfl⟩) hopens
    fun _ h₂ s h₂unsized => ?_
  refine removesNone_bind (calls_pathExists ⟨rfl, rfl⟩) hopens fun there h₃ s h₃unsized => ?_
  cases there with
  | false => exact removesNone_reads (calls_journalAppend fun _ _ => rfl) fun _ _ _ _ _ => trivial
  | true =>
    refine removesNone_op (fun _ _ => stagedStay_reads rfl) fun s' h' hcond => ?_
    cases hb : s'.fs.get c.stagingPath with
    | none =>
      simp only [handle, hb, Option.map_none]
      exact removesNone_err
    | some b =>
      have hadm : Admitted ps c b.length := by
        refine hcond rfl (fun e he => ?_) b hb
        have hnone : e.op.sized = none := by
          simp only [List.nil_append, List.mem_append] at he
          rcases he with (he | he) | he
          · exact (h₁unsized e he).2
          · exact (h₂unsized e he).2
          · exact (h₃unsized e he).2
        simp [hnone]
      simp only [handle, hb, Option.map_some, Prog.ret_bind, hadm.1, Bool.false_eq_true, if_false,
        if_neg (hadm.not_zero .reject (by decide)), if_neg (hadm.not_zero .quarantine (by decide))]
      unfold decideStaged
      refine removesNone_op (fun _ _ => stagedStay_reads rfl) fun s' h' hcond => ?_
      have hmiss : s'.reg.prefilterStatus c.accountName c.onedriveId c.sizeBytes c.modifiedTime =
        none := hcond
      simp only [handle, hmiss, Prog.ret_bind]
      exact removesNone_decideByHash

end Causeless

/-! ## While the staged files stay -/

theorem meetsNoCause_snoc {e : Event Ops World} :
    MeetsNoCause env ps cs c (h ++ [e]) ↔
      MeetsNoCause env ps cs c h ∧ NoCause env ps cs c h e.op e.pre := by
  unfold MeetsNoCause
  rw [condsFrom_append]
  simp [CondsFrom, causeless]

/-- What the step meets is no cause, once the size has been taken. -/
def Op.Idle : Op → Prop
  | .statSize _ | .sha256File _ | .copy2 _ _ | .journalAppend _ _ | .now | .uuid4 => True
  | _ => False

section Staying
variable {lone : Char → Bool}

/-- If no staged file goes, the program ends without having met a cause. -/
abbrev ShowsNone (env : Env) (lone : Char → Bool) (ps : IngestParams)
    (cs : List (Nat × StagedCandidate)) (c : StagedCandidate) (p : Flow γ)
    (h : List (Event Ops World)) (s : World) : Prop :=
  Safe (handle env) (staying env cs) (fun _ h _ => MeetsNoCause env ps cs c h)
    (p.refuse (bindError lone)) h s

/-- The program comes to remove a staged file. -/
abbrev Doomed (env : Env) (lone : Char → Bool) (cs : List (Nat × StagedCandidate)) (p : Flow γ)
    (h : List (Event Ops World)) (s : World) : Prop :=
  Safe (handle env) (staying env cs) (fun _ _ _ => False) (p.refuse (bindError lone)) h s

theorem showsNone_of_doomed {p : Flow γ} (hp : Doomed env lone cs p h s) :
    ShowsNone env lone ps cs c p h s := safe_mono (fun _ _ _ hno => hno.elim) hp

theorem StagedStay.present {t : World} (hstay : StagedStay cs s t) (hc : ∃ x ∈ cs, x.2 = c)
    (hs : s.fs.get c.stagingPath ≠ none) : t.fs.get c.stagingPath ≠ none := by
  obtain ⟨x, hx, rfl⟩ := hc
  exact hstay x hx hs

/-- A step that no text can refuse. -/
theorem doomed_op {o : Op} {k : o.Res → Flow α} {f : α → Flow γ} (hc : ∃ x ∈ cs, x.2 = c)
    (ho : o.texts = []) (hs : s.fs.get c.stagingPath ≠ none)
    (hf : ∀ h s', s'.fs.get c.stagingPath ≠ none →
      (handle env o s').2.fs.get c.stagingPath ≠ none →
      Doomed env lone cs (k (handle env o s').1 >>= f) h (handle env o s').2) :
    Doomed env lone cs (.op o k >>= f) h s := by
  rw [Doomed, op_bind, refuse_op_none (bindError_of_texts ho)]
  intro s' hr hstay
  have hs' : s'.fs.get c.stagingPath ≠ none := hr.present hc hs
  exact ⟨trivial, hf _ s' hs' (hstay.present hc hs')⟩

theorem doomed_vacates {o : Op} {k : o.Res → Flow α} {f : α → Flow γ} (hc : ∃ x ∈ cs, x.2 = c)
    (ho : o.texts = []) (hv : o.vacates c.stagingPath) (hs : s.fs.get c.stagingPath ≠ none) :
    Doomed env lone cs (.op o k >>= f) h s :=
  doomed_op hc ho hs fun _ _ hpre hpost => absurd ((gone_iff_vacates hpre).mpr hv) hpost

theorem doomed_unlink {f : Unit → Flow γ} (hc : ∃ x ∈ cs, x.2 = c)
    (hs : s.fs.get c.stagingPath ≠ none) :
    Doomed env lone cs (unlink c.stagingPath >>= f) h s := doomed_vacates hc rfl rfl hs

theorem doomed_replace {d : Path} {f : Unit → Flow γ} (hc : ∃ x ∈ cs, x.2 = c)
    (hne : d ≠ c.stagingPath) (hs : s.fs.get c.stagingPath ≠ none) :
    Doomed env lone cs (replaceFile c.stagingPath d >>= f) h s :=
  doomed_vacates hc rfl ⟨rfl, hne⟩ hs

theorem doomed_quarantine {dir : Option Path} {category : String} {f : Unit → Flow γ}
    (hc : ∃ x ∈ cs, x.2 = c) (hs : s.fs.get c.stagingPath ≠ none) :
    Doomed env lone cs (handleQuarantineOrDelete c.stagingPath dir category >>= f) h s := by
  unfold handleQuarantineOrDelete
  cases dir with
  | none => exact doomed_unlink hc hs
  | some dir =>
    simp only [Prog.bind_assoc]
    refine doomed_op hc rfl hs fun h s' hpre _ => ?_
    cases hq : s'.fs.get (dir ++ [category, c.stagingPath.name]) with
    | none =>
      have hne : dir ++ [category, c.stagingPath.name] ≠ c.stagingPath := by
        intro heq
        rw [heq] at hq
        exact hpre hq
      simp only [handle, hq, Option.isSome_none, Bool.false_eq_true, if_false, Prog.ret_bind]
      exact doomed_replace hc hne hpre
    | some b =>
      simp only [handle, hq, Option.isSome_some, if_true, Prog.ret_bind, Prog.bind_assoc]
      exact doomed_op hc rfl hpre fun h s' _ hs => doomed_replace hc quarantine_ne hs

theorem doomed_journalAppend {opId : String} {phase : JournalPhase} {f : Unit → Flow γ}
    (hc : ∃ x ∈ cs, x.2 = c) (hs : s.fs.get c.stagingPath ≠ none)
    (hf : ∀ h s, s.fs.get c.stagingPath ≠ none → Doomed env lone cs (f ()) h s) :
    Doomed env lone cs (journalAppend eng opId phase c none none >>= f) h s := by
  unfold journalAppend
  split
  · exact hf h s hs
  · exact doomed_op hc rfl hs fun h _ _ hs => hf h _ hs

/-- A free name within the root, on one pool. -/
theorem doomed_commit {d root : Path} {f : CommitResult → Flow γ} (hc : ∃ x ∈ cs, x.2 = c)
    (hne : d ≠ c.stagingPath) (hin : withinRoot d root = true)
    (hs : s.fs.get c.stagingPath ≠ none) :
    Doomed env lone cs (commitStagingToAccepted c.stagingPath d true (some root) >>= f) h s := by
  unfold commitStagingToAccepted
  simp only [Prog.bind_assoc]
  refine doomed_op hc rfl hs fun h s' hpre _ => ?_
  obtain ⟨b, hb⟩ := Option.ne_none_iff_exists'.mp hpre
  simp only [handle, hb, Option.isSome_some, if_true, Prog.ret_bind, Prog.bind_assoc, ensureWithin,
    ensureWithinRoot, hin, Prog.pure_eq, commitRename]
  exact doomed_replace hc hne hpre

/-- The staged file is there, its size has been taken, and no step has met a cause. -/
structure Underway (env : Env) (ps : IngestParams) (cs : List (Nat × StagedCandidate))
    (c : StagedCandidate) (h : List (Event Ops World)) (s : World) : Prop where
  present : s.fs.get c.stagingPath ≠ none
  sized : ∃ e ∈ h, e.op.sized = some c.stagingPath
  clear : MeetsNoCause env ps cs c h

theorem noCause_idle {o : Op} (ho : o.Idle) (hsized : ∃ e ∈ h, e.op.sized = some c.stagingPath) :
    NoCause env ps cs c h o s := by
  obtain ⟨e, he, hop⟩ := hsized
  cases o with
  | statSize p =>
    rintro rfl hfirst
    exact absurd hop (hfirst e he)
  | sha256File | copy2 | journalAppend | now | uuid4 => trivial
  | _ => exact ho.elim

theorem Underway.snoc {o : Op} {t t' s' : World} (hu : Underway env ps cs c h s)
    (hs : s'.fs.get c.stagingPath ≠ none) (hn : NoCause env ps cs c h o t) :
    Underway env ps cs c (h ++ [⟨o, t, t'⟩]) s' := by
  obtain ⟨e, he, hop⟩ := hu.sized
  exact ⟨hs, ⟨e, List.mem_append_left _ he, hop⟩, meetsNoCause_snoc.mpr ⟨hu.clear, hn⟩⟩

theorem showsNone_err {e : Err} (hu : Underway env ps cs c h s) :
    ShowsNone env lone ps cs c (.err e : Flow γ) h s := fun _ _ => hu.clear

/-- One step: it is refused, or what it meets is a cause or none. -/
theorem showsNone_op {o : Op} {k : o.Res → Flow α} {f : α → Flow γ} (hc : ∃ x ∈ cs, x.2 = c)
    (hu : Underway env ps cs c h s)
    (hf : ∀ s' h', s'.fs.get c.stagingPath ≠ none → StagedStay cs s' (handle env o s').2 →
      (NoCause env ps cs c h o s' → Underway env ps cs c h' (handle env o s').2) →
      ShowsNone env lone ps cs c (k (handle env o s').1 >>= f) h' (handle env o s').2) :
    ShowsNone env lone ps cs c (.op o k >>= f) h s := by
  rw [ShowsNone, op_bind]
  cases hbad : bindError lone o with
  | some e =>
    rw [refuse_op_some hbad]
    exact fun _ _ => hu.clear
  | none =>
    rw [refuse_op_none hbad]
    intro s' hr hstay
    have hs' : s'.fs.get c.stagingPath ≠ none := hr.present hc hu.present
    exact ⟨trivial, hf s' _ hs' hstay fun hn => hu.snoc (hstay.present hc hs') hn⟩

theorem showsNone_idle (hc : ∃ x ∈ cs, x.2 = c) {p : Flow α} {f : α → Flow γ}
    (hp : p.Calls Op.Idle) (hu : Underway env ps cs c h s)
    (hf : ∀ a h s, Underway env ps cs c h s → ShowsNone env lone ps cs c (f a) h s) :
    ShowsNone env lone ps cs c (p >>= f) h s := by
  induction hp generalizing h s with
  | ret => exact hf _ h s hu
  | err => exact showsNone_err hu
  | @op o k ho _ ih =>
    refine showsNone_op hc hu fun s' h' hs' _ hnext => ?_
    exact ih _ (hnext (noCause_idle ho hu.sized))

theorem showsNone_look {q : Path} {f : Bool → Flow γ} (hc : ∃ x ∈ cs, x.2 = c)
    (hu : Underway env ps cs c h s)
    (htrue : ∀ h s, Underway env ps cs c h s → ShowsNone env lone ps cs c (f true) h s)
    (hfree : q ≠ c.stagingPath → Barred ps q → ∀ h s, Underway env ps cs c h s →
      ShowsNone env lone ps cs c (f false) h s)
    (htaken : q ≠ c.stagingPath → ¬ Barred ps q → ∀ h s, s.fs.get c.stagingPath ≠ none →
      Doomed env lone cs (f false) h s) :
    ShowsNone env lone ps cs c (pathExists q >>= f) h s := by
  refine showsNone_op hc hu fun s' h' hs' _ hnext => ?_
  cases hq : s'.fs.get q with
  | some b =>
    simp only [handle, hq, Option.isSome_some, Prog.ret_bind]
    refine htrue h' s' (hnext fun _ hnone => ?_)
    rw [hq] at hnone
    cases hnone
  | none =>
    have hne : q ≠ c.stagingPath := by
      rintro rfl
      exact hs' hq
    simp only [handle, hq, Option.isSome_none, Prog.ret_bind]
    by_cases hbarred : Barred ps q
    · exact hfree hne hbarred h' s' (hnext fun hsame _ => hbarred hsame)
    · exact showsNone_of_doomed (htaken hne hbarred h' s' hs')

theorem showsNone_tryCollisions {base : Path} {f : Option Path → Flow γ}
    (hc : ∃ x ∈ cs, x.2 = c)
    (hf : ∀ d h s, (∀ q, d = some q → Barred ps q) → Underway env ps cs c h s →
      ShowsNone env lone ps cs c (f d) h s)
    (hdoom : ∀ q h s, q ≠ c.stagingPath → ¬ Barred ps q → s.fs.get c.stagingPath ≠ none →
      Doomed env lone cs (f (some q)) h s) :
    ∀ {n index : Nat} {h : List (Event Ops World)} {s : World}, Underway env ps cs c h s →
    ShowsNone env lone ps cs c (tryCollisions base index n >>= f) h s
  | 0, _, h, s, hu => hf none h s nofun hu
  | n + 1, index, h, s, hu => by
    rw [tryCollisions, Prog.bind_assoc]
    refine showsNone_look hc hu (fun h s hu => showsNone_tryCollisions hc hf hdoom hu)
      (fun _ hbarred h s hu => hf _ h s (fun q hq => ?_) hu)
      fun hne hbarred h s => hdoom _ h s hne hbarred
    rwa [← Option.some.inj hq]

theorem showsNone_choose {base : Path} {attempts : Int} {f : Path → Flow γ}
    (hc : ∃ x ∈ cs, x.2 = c)
    (hf : ∀ d h s, Barred ps d → Underway env ps cs c h s →
      ShowsNone env lone ps cs c (f d) h s)
    (hdoom : ∀ d h s, d ≠ c.stagingPath → ¬ Barred ps d → s.fs.get c.stagingPath ≠ none →
      Doomed env lone cs (f d) h s) (hu : Underway env ps cs c h s) :
    ShowsNone env lone ps cs c
      (chooseCollisionSafeDestinationWithThreshold base attempts >>= f) h s := by
  unfold chooseCollisionSafeDestinationWithThreshold
  split
  · exact showsNone_err hu
  · rw [Prog.bind_assoc]
    refine showsNone_look hc hu (fun h s hu => ?_) (fun _ hbarred h s hu => hf _ h s hbarred hu)
      fun hne hbarred h s hs => hdoom _ h s hne hbarred hs
    simp only [if_true]
    rw [Prog.bind_assoc]
    refine showsNone_tryCollisions hc (fun d h s hd hu => ?_) (fun q h s => hdoom q h s) hu
    cases d with
    | none => exact showsNone_err hu
    | some d => exact hf d h s (hd d rfl) hu

/-- The deletion of a temporary copy. -/
theorem showsNone_unlink {p : Path} {f : Unit → Flow γ} (hc : ∃ x ∈ cs, x.2 = c)
    (hu : Underway env ps cs c h s)
    (hf : ∀ h s, Underway env ps cs c h s → ShowsNone env lone ps cs c (f ()) h s) :
    ShowsNone env lone ps cs c (unlink p >>= f) h s := by
  refine showsNone_op hc hu fun s' h' _ hstay hnext => hf h' _ (hnext fun _ x hx hp => ?_)
  by_contra hpre
  rw [← hp] at hpre
  exact hstay x hx hpre ((gone_iff_vacates hpre).mpr hp.symm)

theorem showsNone_commitCopy {d : Path} {f : CommitResult → Flow γ} (hc : ∃ x ∈ cs, x.2 = c)
    (hu : Underway env ps cs c h s) :
    ShowsNone env lone ps cs c (commitCopy c.stagingPath d >>= f) h s := by
  unfold commitCopy
  simp only [Prog.bind_assoc]
  refine showsNone_idle hc (calls_copy2 trivial) hu fun _ h s hu => ?_
  refine showsNone_idle hc (calls_statSize trivial) hu fun n h s hu => ?_
  refine showsNone_idle hc (calls_statSize trivial) hu fun m h s hu => ?_
  split
  · simp only [Prog.bind_assoc]
    exact showsNone_unlink hc hu fun _ _ hu => showsNone_err hu
  simp only [Prog.bind_assoc]
  refine showsNone_idle hc (calls_sha256File trivial) hu fun sha h s hu => ?_
  refine showsNone_idle hc (calls_sha256File trivial) hu fun sha' h s hu => ?_
  split
  · simp only [Prog.bind_assoc]
    exact showsNone_unlink hc hu fun _ _ hu => showsNone_err hu
  simp only [Prog.bind_assoc]
  refine showsNone_op hc hu fun s' h' hs' hstay hnext => ?_
  cases htmp : s'.fs.get (d.addExt ".tmp") with
  | none =>
    have hstays : handle env (.replace (d.addExt ".tmp") d) s' = (false, s') := by
      simp [handle, moveFile, htmp]
    have hu' := hnext fun _ => htmp
    rw [hstays] at hu' ⊢
    exact showsNone_err hu'
  | some b =>
    -- behind the rename the call comes to unlink the staged file
    have hmoves : (handle env (.replace (d.addExt ".tmp") d) s').1 = true := by
      simp [handle, moveFile, htmp]
    rw [hmoves]
    exact showsNone_of_doomed (doomed_unlink hc (hstay.present hc hs'))

theorem showsNone_commit {d : Path} {f : CommitResult → Flow γ} (hc : ∃ x ∈ cs, x.2 = c)
    (hd : Barred ps d) (hu : Underway env ps cs c h s) :
    ShowsNone env lone ps cs c (commitStagingToAccepted c.stagingPath d ps.stagingOnSamePool
      (some ps.pendingRoot) >>= f) h s := by
  unfold commitStagingToAccepted
  rw [Prog.bind_assoc]
  refine showsNone_look hc hu (fun h s hu => ?_) (fun hne => absurd rfl hne)
    fun hne => absurd rfl hne
  simp only [if_true, ensureWithin, ensureWithinRoot, Prog.bind_assoc]
  cases hin : withinRoot d ps.pendingRoot with
  | false => exact showsNone_err hu
  | true =>
    simp only [hd.copies hin, if_true, Bool.false_eq_true, if_false]
    exact showsNone_commitCopy hc hu

theorem showsNone_decideByHash {opId : String} {n : Nat} (hc : ∃ x ∈ cs, x.2 = c)
    (hu : Underway env ps cs c h s) :
    ShowsNone env lone ps cs c (decideByHash env eng ps c opId n) h s := by
  unfold decideByHash
  refine showsNone_idle hc (calls_sha256File trivial) hu fun sha h s hu => ?_
  refine showsNone_idle hc (calls_journalAppend fun _ _ => trivial) hu fun _ h s hu => ?_
  rw [matchBlockRule, Prog.bind_assoc]
  refine showsNone_op hc hu fun s' h' hs' _ hnext => ?_
  simp only [handle, Prog.pure_eq, Prog.ret_bind]
  cases hrule : s'.reg.enabledBlockRules.find? (ruleMatches env c.originalFilename) with
  | some rule => exact showsNone_of_doomed (doomed_unlink hc hs')
  | none =>
    refine showsNone_op hc (hnext hrule) fun s' h' hs' _ hnext => ?_
    simp only [handle, Prog.ret_bind]
    cases hrow : s'.reg.getFile sha with
    | some record =>
      refine showsNone_of_doomed (doomed_op hc rfl hs' fun h s' hpre _ => ?_)
      obtain ⟨b, hb⟩ := Option.ne_none_iff_exists'.mp hpre
      simp only [handle, hb, Option.map_some, Prog.ret_bind]
      exact doomed_unlink hc hpre
    | none =>
      unfold ingestUnknown
      refine showsNone_idle hc (calls_renderRelativePath trivial) (hnext hrow)
        fun rel h s hu => ?_
      refine showsNone_choose hc (fun d h s hd hu => showsNone_commit hc hd hu)
        (fun d h s hne hbarred hs => ?_) hu
      obtain ⟨hsame, hin⟩ : ps.stagingOnSamePool = true ∧ withinRoot d ps.pendingRoot = true := by
        simpa [Barred] using hbarred
      rw [hsame]
      exact doomed_commit hc hne hin hs

/-- A step in front of the look. -/
def Op.Opens (env : Env) (ps : IngestParams) (cs : List (Nat × StagedCandidate))
    (c : StagedCandidate) (o : Op) : Prop :=
  o ≠ .pathExists c.stagingPath ∧ ∀ before w, NoCause env ps cs c before o w

theorem not_finds_append {h' : List (Event Ops World)} (hnot : ¬ Finds h c)
    (hother : ∀ e ∈ h', e.op = .pathExists c.stagingPath → e.pre.fs.get c.stagingPath = none) :
    ¬ Finds (h ++ h') c := by
  rintro ⟨e, he, hop, hpre⟩
  rcases List.mem_append.mp he with he | he
  · exact hnot ⟨e, he, hop, hpre⟩
  · exact hpre (hother e he hop)

/-- Steps of a call that has not found its file. -/
theorem safe_unfound {p : Flow γ} (hp : p.Calls fun o : Op => o ≠ .pathExists c.stagingPath)
    (hnot : ¬ Finds h c) :
    Safe (handle env) (staying env cs) (fun _ h _ => Finds h c → MeetsNoCause env ps cs c h)
      (p.refuse (bindError lone)) h s :=
  safe_calls (R := fun _ _ => True) (fun _ _ _ _ _ => trivial) (fun _ _ _ _ => trivial)
    (fun _ _ _ => ⟨trivial, trivial⟩) hp.refuse fun _ _ _ _ hh hfinds =>
      absurd hfinds (not_finds_append hnot fun e he hop => absurd hop (hh e he).1)

theorem safe_opening {p : Flow α} {f : α → Flow γ} (hp : p.Calls (Op.Opens env ps cs c))
    (hnot : ¬ Finds h c) (hclear : MeetsNoCause env ps cs c h)
    (hf : ∀ a h s, ¬ Finds h c → MeetsNoCause env ps cs c h →
      Safe (handle env) (staying env cs) (fun _ h _ => Finds h c → MeetsNoCause env ps cs c h)
        ((f a).refuse (bindError lone)) h s) :
    Safe (handle env) (staying env cs) (fun _ h _ => Finds h c → MeetsNoCause env ps cs c h)
      ((p >>= f).refuse (bindError lone)) h s := by
  rw [refuse_bind]
  refine safe_bind (safe_calls (R := fun _ _ => True) (fun _ _ _ _ _ => trivial)
    (fun _ _ _ _ => trivial) (fun _ _ _ => ⟨trivial, trivial⟩) hp.refuse fun r h' t _ hh => ?_)
  have hnot' : ¬ Finds (h ++ h') c :=
    not_finds_append hnot fun e he hop => absurd hop (hh e he).1.1
  have hclear' : MeetsNoCause env ps cs c (h ++ h') :=
    condsFrom_append.mpr ⟨hclear, condsFrom_of_forall fun e he _ => (hh e he).1.2 _ _⟩
  cases r with
  | error e => exact fun _ _ _ => hclear'
  | ok a => exact hf a _ t hnot' hclear'

theorem safe_of_showsNone {p : Flow γ} (hp : ShowsNone env lone ps cs c p h s) :
    Safe (handle env) (staying env cs) (fun _ h _ => Finds h c → MeetsNoCause env ps cs c h)
      (p.refuse (bindError lone)) h s := by
  refine safe_mono ?_ hp
  intro r h s hclear _
  exact hclear

/-- Behind the look that finds the file. -/
theorem showsNone_sized {f : Nat → Flow γ} (hc : ∃ x ∈ cs, x.2 = c)
    (hs : s.fs.get c.stagingPath ≠ none) (hclear : MeetsNoCause env ps cs c h)
    (hf : ∀ n h s, Admitted ps c n → Underway env ps cs c h s →
      ShowsNone env lone ps cs c (f n) h s)
    (hdoom : ∀ n h s, ¬ Admitted ps c n → s.fs.get c.stagingPath ≠ none →
      Doomed env lone cs (f n) h s) :
    ShowsNone env lone ps cs c (statSize c.stagingPath >>= f) h s := by
  rw [ShowsNone, refuse_bind, refuse_of_calls (calls_statSize (bindError_of_texts rfl))]
  refine safe_op.mpr fun s' hr _ => ⟨trivial, ?_⟩
  have hs' : s'.fs.get c.stagingPath ≠ none := hr.present hc hs
  obtain ⟨b, hb⟩ := Option.ne_none_iff_exists'.mp hs'
  simp only [handle, hb, Option.map_some]
  by_cases hadm : Admitted ps c b.length
  · refine hf _ _ s' hadm ⟨hs', ⟨_, List.mem_append_right _ (List.mem_singleton.mpr rfl), rfl⟩,
      meetsNoCause_snoc.mpr ⟨hclear, fun _ _ b' hb' => ?_⟩⟩
    rw [hb] at hb'
    rwa [← Option.some.inj hb']
  · exact showsNone_of_doomed (hdoom _ _ s' hadm hs')

/-- A call that has found its staged file has met no cause if no staged file went. -/
theorem safe_staying (hc : ∃ x ∈ cs, x.2 = c) (s : World) :
    Safe (handle env) (staying env cs) (fun _ h _ => Finds h c → MeetsNoCause env ps cs c h)
      ((processOne env eng ps c).refuse (bindError lone)) [] s := by
  have hj : ∀ (opId : String) (phase : JournalPhase),
      (journalAppend eng opId phase c none none).Calls (Op.Opens env ps cs c) :=
    fun _ _ => calls_journalAppend fun _ _ => ⟨nofun, fun _ _ => trivial⟩
  unfold processOne
  refine safe_opening (.op ⟨nofun, fun _ _ => trivial⟩ fun _ => .ret)
    (fun ⟨_, he, _⟩ => nomatch he) trivial fun uuid h s hnot hclear => ?_
  refine safe_opening (hj _ _) hnot hclear fun _ h s hnot hclear => ?_
  rw [refuse_bind, refuse_of_calls (calls_pathExists (bindError_of_texts rfl))]
  refine safe_look.mpr fun s' _ _ => ⟨trivial, ?_⟩
  cases hb : s'.fs.get c.stagingPath with
  | none =>
    have hnot' : ¬ Finds (h ++ [⟨.pathExists c.stagingPath, s', s'⟩]) c :=
      not_finds_append hnot fun e he _ => by rw [List.mem_singleton.mp he, hb]
    simp only [Option.isSome_none, Bool.false_eq_true, if_false]
    exact safe_unfound (Calls.bind (calls_journalAppend fun _ _ => nofun) fun _ => .ret) hnot'
  | some b =>
    have hs : s'.fs.get c.stagingPath ≠ none := by simp [hb]
    have hfound : MeetsNoCause env ps cs c (h ++ [⟨.pathExists c.stagingPath, s', s'⟩]) :=
      meetsNoCause_snoc.mpr ⟨hclear, fun _ hnone => absurd hnone hs⟩
    simp only [Option.isSome_some, if_true]
    refine safe_of_showsNone (showsNone_sized hc hs hfound ?_ ?_)
    · intro n h s hadm hu
      simp only [hadm.1, Bool.false_eq_true, if_false,
        if_neg (hadm.not_zero .reject (by decide)), if_neg (hadm.not_zero .quarantine (by decide))]
      unfold decideStaged
      refine showsNone_op hc hu fun s' h' hs' _ hnext => ?_
      simp only [handle, Prog.ret_bind]
      cases hpre : s'.reg.prefilterStatus c.accountName c.onedriveId c.sizeBytes c.modifiedTime with
      | none => exact showsNone_decideByHash hc (hnext hpre)
      | some hit =>
        obtain ⟨st, sha⟩ := hit
        exact showsNone_of_doomed (doomed_unlink hc hs')
    · intro n h s hadm hs
      split
      · exact doomed_journalAppend hc hs fun _ _ hs => doomed_quarantine hc hs
      split
      · exact doomed_unlink hc hs
      split
      · exact doomed_quarantine hc hs
      · next hmatch hreject hquarantine =>
        refine absurd ⟨by simpa using hmatch, fun hempty => ?_⟩ hadm
        cases hpolicy : ps.zeroBytePolicy with
        | allow => rfl
        | reject => exact absurd ⟨hempty, hpolicy⟩ hreject
        | quarantine => exact absurd ⟨hempty, hpolicy⟩ hquarantine

end Staying

end Nightfall
