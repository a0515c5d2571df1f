import Nightfall.Core.Pool
import Nightfall.L4System.System

/-!
# A failing operator command among other actors

`accept_sha256` and `purge_sha256` check the row's status without a lock, then
move or unlink the file, and let the closing transaction check the status again.
The other parties are arbitrary flows.

* `NoTrace`: no step of the call changed a file, and the files are as the others
  left them.
* `undisturbed`: what the others and the closing transaction have to meet.
* `failed_leaves_no_trace`: in every interleaving that meets it, a call that
  raises leaves no trace.
* `accept_moves_then_raises`: a triage decision between the two status checks
  breaks it.
-/
namespace Nightfall
open Nightfall.Core Storage Prog

/-- The commands that change a file before their closing transaction. -/
inductive FileCommand where
  | accept
  | purge

def FileCommand.flow (env : Env) (cfg : CoreConfig) (sha : String) (reason : Option String)
    (actor : String) (c : FileCommand) : Flow Unit :=
  match c with
  | .accept => (Command.acceptSha256 sha reason actor).flow env cfg
  | .purge => (Command.purgeSha256 sha reason actor).flow env cfg

/-! ## What it means to leave no trace -/

/-- The step left every file as it was. -/
def LeavesFiles (e : Event Ops World) : Prop := ∀ p, e.post.fs.get p = e.pre.fs.get p

/-- The file at `p` as the steps of everybody but party `i` left it, `v` at the
start. -/
def othersLeft {ι : Type} [DecidableEq ι] (i : ι) (p : Path) (v : Option Bytes)
    (t : List (ι × Event Ops World)) : Option Bytes :=
  t.foldl (fun v e => if e.1 = i ∨ e.2.post.fs.get p = e.2.pre.fs.get p then v
    else e.2.post.fs.get p) v

/-- Party `i` changed no file from `s` to `s'`. -/
structure NoTrace {ι : Type} [DecidableEq ι] (i : ι) (s : World) (t : List (ι × Event Ops World))
    (s' : World) : Prop where
  own : ∀ e ∈ own i t, LeavesFiles e
  files : ∀ p, s'.fs.get p = othersLeft i p (s.fs.get p) t

theorem files_of_leaves {ι : Type} [DecidableEq ι] {α : ι → Type} {env : Env}
    {P P' : Pool ι Ops Err α} {s s' : World} {t : List (ι × Event Ops World)} {i : ι}
    (hrun : Run (handle env) P s t P' s') :
    (∀ e ∈ own i t, LeavesFiles e) → ∀ p, s'.fs.get p = othersLeft i p (s.fs.get p) t := by
  induction hrun with
  | refl P s => exact fun _ _ => rfl
  | @step P₀ _ s₀ _ t j o k hop rest ih =>
    intro h p
    have hrest := ih (fun e he => h e (by simp only [mem_own] at he ⊢; exact .tail _ he)) p
    have hstep : (if j = i ∨ (handle env o s₀).2.fs.get p = s₀.fs.get p then s₀.fs.get p
        else (handle env o s₀).2.fs.get p) = (handle env o s₀).2.fs.get p := by
      split
      · next hor =>
        rcases hor with rfl | hsame
        · exact (h ⟨o, s₀, _⟩ (by simp [mem_own]) p).symm
        · exact hsame.symm
      · rfl
    rw [othersLeft, List.foldl_cons]
    simp only
    rw [hstep]
    exact hrest

/-! ## The condition -/

/-- Another party leaves the files of an own step alone: both files of a copy;
the file that a rename has put in place is not removed. -/
def Op.LeftAlone (s t : World) : Op → Prop
  | .copy2 src dst => t.fs.get src = s.fs.get src ∧ t.fs.get dst = s.fs.get dst
  | .replace _ dst => s.fs.get dst ≠ none → t.fs.get dst ≠ none
  | _ => True

theorem Op.LeftAlone.refl (s : World) (o : Op) : o.LeftAlone s s := by
  cases o with
  | copy2 src dst => exact ⟨rfl, rfl⟩
  | replace src dst => exact id
  | _ => trivial

theorem Op.LeftAlone.trans {s t u : World} {o : Op} (h : o.LeftAlone s t) (h' : o.LeftAlone t u) :
    o.LeftAlone s u := by
  cases o with
  | copy2 src dst => exact ⟨h'.1.trans h.1, h'.2.trans h.2⟩
  | replace src dst => exact fun hs => h' (h hs)
  | _ => trivial

/-- The row has the status that the closing transaction requires. -/
def Op.Admitted (s : World) : Op → Prop
  | .tx (.finalizeAcceptFromPending sha _ _ _ _ _) =>
    ∃ row, s.reg.files.get sha = some row ∧ row.status = .pending
  | .tx (.finalizePurgeFromRejected sha _ _) =>
    ∃ row, s.reg.files.get sha = some row ∧ row.status = .rejected
  | _ => True

/-- The others leave alone the files the call is working on, and once the call
has changed a file its closing transaction finds the status it requires. -/
def undisturbed : Contract Ops World where
  rely h s t := ∀ e ∈ h, e.op.LeftAlone s t
  cond h o s := (∃ e ∈ h, ¬ LeavesFiles e) → o.Admitted s
  guar _ _ _ := True
  rely_refl _ s e _ := .refl s e.op
  rely_trans _ _ _ _ hst htu e he := (hst e he).trans (htu e he)

/-! ## The calls keep it -/

section Calls
variable {env : Env} {cfg : CoreConfig} {α β : Type}

/-- No own step has changed a file. -/
def Clean (h : List (Event Ops World)) : Prop := ∀ e ∈ h, LeavesFiles e

/-- A call that raises is clean. -/
def CleanError (r : Except Err α) (h : List (Event Ops World)) (_ : World) : Prop :=
  ∀ e, r = .error e → Clean h

theorem clean_snoc {h : List (Event Ops World)} {e : Event Ops World} (hc : Clean h)
    (he : LeavesFiles e) : Clean (h ++ [e]) :=
  List.forall_mem_append.mpr ⟨hc, by simpa using he⟩

theorem safe_clean_err {e : Err} {h : List (Event Ops World)} {s : World} (hc : Clean h) :
    Safe (handle env) undisturbed CleanError (.err e : Flow α) h s := fun _ _ _ _ => hc

theorem safe_clean_ret {a : α} {h : List (Event Ops World)} {s : World} :
    Safe (handle env) undisturbed CleanError (.ret a : Flow α) h s := fun _ _ _ hr => nomatch hr

theorem safe_clean_bind {p : Flow α} {f : α → Flow β} {h : List (Event Ops World)} {s : World}
    (hp : Safe (handle env) undisturbed CleanError p h s)
    (hf : ∀ a h' s', Safe (handle env) undisturbed CleanError (f a) h' s') :
    Safe (handle env) undisturbed CleanError (p >>= f) h s := by
  refine safe_bind (safe_mono ?_ hp)
  rintro (e | a) h' s' hr
  · exact fun _ _ _ _ => hr e rfl
  · exact hf a h' s'

/-- A stretch of steps that write nothing. -/
theorem safe_quiet_bind {p : Flow α} {f : α → Flow β} {h : List (Event Ops World)} {s : World}
    (hp : p.Calls Op.Quiet) (hc : Clean h)
    (hf : ∀ a h' s', Clean h' → Safe (handle env) undisturbed CleanError (f a) h' s') :
    Safe (handle env) undisturbed CleanError (p >>= f) h s := by
  refine safe_bind (safe_calls (A := Op.Quiet) (R := fun _ _ => True) (fun _ _ _ _ _ => trivial)
    (fun _ _ _ _ => trivial) (fun _ _ _ => ⟨trivial, trivial⟩) hp ?_)
  intro r h' t _ hh
  have hc' : Clean (h ++ h') := List.forall_mem_append.mpr ⟨hc, fun e he p => by
    rw [(hh e he).2, (still_handle (hh e he).1).fs]⟩
  cases r with
  | ok a => exact hf a _ t hc'
  | error e => exact fun _ _ _ _ => hc'

/-- The closing transaction, when its status check is the only way to fail. -/
theorem safe_closing {tx : Tx} {p : Except TxError Unit → Flow α} {h : List (Event Ops World)}
    {s : World} (hok : ∀ s : World, Op.Admitted s (.tx tx) → ∀ now, ∃ r, tx.apply s.reg now = .ok r)
    (hret : ∃ a, p (.ok ()) = .ret a) (herr : ∀ e, ∃ e', p (.error e) = .err e') :
    Safe (handle env) undisturbed CleanError (.op (.tx tx) p) h s := by
  intro s' _ hcond
  refine ⟨trivial, ?_⟩
  have hleaves : LeavesFiles ⟨.tx tx, s', (handle env (.tx tx) s').2⟩ := fun q => by
    simp only
    rw [handle_fs rfl]
  by_cases hc : Clean h
  · cases hr : (handle env (.tx tx) s').1 with
    | ok u =>
      obtain ⟨a, ha⟩ := hret
      rw [show (.ok u : Except TxError Unit) = .ok () from rfl, ha]
      exact safe_clean_ret
    | error e =>
      obtain ⟨e', he'⟩ := herr e
      rw [he']
      exact safe_clean_err (clean_snoc hc hleaves)
  · -- a file is changed already, so the transaction has to commit
    have hadm : Op.Admitted s' (.tx tx) := hcond (by simpa [Clean] using hc)
    obtain ⟨r, hr⟩ := hok s' hadm (env.clock s'.ticks).iso
    obtain ⟨a, ha⟩ := hret
    have hres : (handle env (.tx tx) s').1 = .ok () := by simp only [handle, hr]
    rw [hres, ha]
    exact safe_clean_ret

theorem safe_finalizeAccept {sha account src actor reason : String} {d : Path} {a : α}
    {h : List (Event Ops World)} {s : World} :
    Safe (handle env) undisturbed CleanError
      (transact (.finalizeAcceptFromPending sha d account src actor reason) >>= fun _ =>
        (pure a : Flow α)) h s := by
  refine safe_closing (fun s hadm now => ?_) ⟨a, rfl⟩ fun e => ⟨_, rfl⟩
  obtain ⟨row, hrow, hst⟩ := hadm
  exact Registry.finalizeAcceptFromPending_ok d account src actor reason now hrow hst

theorem safe_finalizePurge {sha reason actor : String} {a : α} {h : List (Event Ops World)}
    {s : World} :
    Safe (handle env) undisturbed CleanError
      (transactOrReject (.finalizePurgeFromRejected sha reason actor) >>= fun _ =>
        (pure a : Flow α)) h s := by
  refine safe_closing (fun s hadm now => ?_) ⟨a, rfl⟩ fun e => ?_
  · obtain ⟨row, hrow, hst⟩ := hadm
    simp [Tx.apply, Registry.finalizePurgeFromRejected, hrow, hst]
  · cases e <;> exact ⟨_, rfl⟩

/-- The rename commit raises only before its move. -/
theorem safe_commitRename {source destination : Path} {h : List (Event Ops World)} {s : World}
    (hc : Clean h) :
    Safe (handle env) undisturbed CleanError (commitRename source destination) h s := by
  unfold commitRename
  intro s₁ _ _
  refine ⟨trivial, ?_⟩
  cases hb : s₁.fs.get source with
  | none =>
    simp only [handle, moveFile, hb, Option.map_none]
    exact safe_clean_err (clean_snoc hc fun _ => rfl)
  | some b =>
    simp only [handle, moveFile, hb, Option.map_some]
    intro s₂ hrely _
    refine ⟨trivial, ?_⟩
    -- the moved file is still there
    have hput : s₂.fs.get destination ≠ none :=
      hrely _ (List.mem_append_right _ List.mem_cons_self) (by simp)
    obtain ⟨b', hb'⟩ := Option.ne_none_iff_exists'.mp hput
    simp only [handle, hb', Option.map_some]
    exact safe_clean_ret

/-- Both files of an own copy hold `b`. -/
structure Copied (src tmp : Path) (b : Bytes) (h : List (Event Ops World)) (s : World) : Prop where
  copied : ∃ e ∈ h, e.op = .copy2 src tmp
  source : s.fs.get src = some b
  copy : s.fs.get tmp = some b

theorem Copied.rely {src tmp : Path} {b : Bytes} {h : List (Event Ops World)} {s t : World}
    (hc : Copied src tmp b h s) (hr : undisturbed.rely h s t) : Copied src tmp b h t := by
  obtain ⟨e, he, hop⟩ := hc.copied
  have hleft := hr e he
  rw [hop] at hleft
  exact ⟨hc.copied, hleft.1.trans hc.source, hleft.2.trans hc.copy⟩

theorem Copied.snoc {src tmp : Path} {b : Bytes} {h : List (Event Ops World)} {s : World}
    (hc : Copied src tmp b h s) (e : Event Ops World) : Copied src tmp b (h ++ [e]) s := by
  obtain ⟨e', he', hop⟩ := hc.copied
  exact ⟨⟨e', List.mem_append_left _ he', hop⟩, hc.source, hc.copy⟩

theorem Copied.get {src tmp p : Path} {b : Bytes} {h : List (Event Ops World)} {s : World}
    (hc : Copied src tmp b h s) (hp : p = src ∨ p = tmp) : s.fs.get p = some b := by
  rcases hp with rfl | rfl
  · exact hc.source
  · exact hc.copy

section Copy
variable {src tmp p : Path} {b : Bytes} {h : List (Event Ops World)} {s : World}

theorem safe_copied_statSize {f : Nat → Flow α} (hc : Copied src tmp b h s)
    (hp : p = src ∨ p = tmp) (hf : ∀ h' s', Copied src tmp b h' s' →
      Safe (handle env) undisturbed CleanError (f b.length) h' s') :
    Safe (handle env) undisturbed CleanError (statSize p >>= f) h s := by
  intro s' hr _
  have hc' := hc.rely hr
  refine ⟨trivial, ?_⟩
  simp only [handle, hc'.get hp, Option.map_some]
  exact hf _ _ (hc'.snoc _)

theorem safe_copied_sha256File {f : String → Flow α} (hc : Copied src tmp b h s)
    (hp : p = src ∨ p = tmp) (hf : ∀ h' s', Copied src tmp b h' s' →
      Safe (handle env) undisturbed CleanError (f (env.sha256 b)) h' s') :
    Safe (handle env) undisturbed CleanError (sha256File p >>= f) h s := by
  intro s' hr _
  have hc' := hc.rely hr
  refine ⟨trivial, ?_⟩
  simp only [handle, hc'.get hp, Option.map_some]
  exact hf _ _ (hc'.snoc _)

end Copy

/-- The copy commit raises only before its copy: both checks find equal files. -/
theorem safe_commitCopy {source destination : Path} {h : List (Event Ops World)} {s : World}
    (hc : Clean h) :
    Safe (handle env) undisturbed CleanError (commitCopy source destination) h s := by
  unfold commitCopy
  by_cases hself : source = destination.addExt ".tmp"
  · simp only [copy2, if_pos hself]
    exact safe_clean_err hc
  simp only [copy2, if_neg hself]
  intro s₁ _ _
  refine ⟨trivial, ?_⟩
  cases hb : s₁.fs.get source with
  | none =>
    simp only [handle, copyFile, hb, Option.map_none]
    exact safe_clean_err (clean_snoc hc fun _ => rfl)
  | some b =>
    simp only [handle, copyFile, hb, Option.map_some]
    have hcopied : ∀ e : Event Ops World, e.op = .copy2 source (destination.addExt ".tmp") →
        Copied source (destination.addExt ".tmp") b (h ++ [e])
          { s₁ with fs := s₁.fs.put (destination.addExt ".tmp") b } := fun e he => by
      refine ⟨⟨e, List.mem_append_right _ List.mem_cons_self, he⟩, ?_, by simp⟩
      simp only [Table.get_put]
      split
      · rfl
      · exact hb
    refine safe_copied_statSize (hcopied _ rfl) (.inl rfl) fun h₂ s₂ h₂c => ?_
    refine safe_copied_statSize h₂c (.inr rfl) fun h₃ s₃ h₃c => ?_
    simp only [ne_eq, not_true_eq_false, if_false]
    refine safe_copied_sha256File h₃c (.inl rfl) fun h₄ s₄ h₄c => ?_
    refine safe_copied_sha256File h₄c (.inr rfl) fun h₅ s₅ h₅c => ?_
    simp only [not_true_eq_false, if_false]
    intro s₆ hr _
    refine ⟨trivial, ?_⟩
    simp only [handle, moveFile, (h₅c.rely hr).copy, Option.map_some]
    exact fun _ _ _ => ⟨trivial, safe_clean_ret⟩

theorem safe_commit {source destination : Path} {same : Bool} {root : Option Path}
    {h : List (Event Ops World)} {s : World} (hc : Clean h) :
    Safe (handle env) undisturbed CleanError
      (commitPendingToAccepted source destination same root) h s := by
  unfold commitPendingToAccepted commitStagingToAccepted
  refine safe_quiet_bind (calls_pathExists ⟨rfl, rfl⟩) hc fun found h₁ s₁ hc₁ => ?_
  cases found with
  | false => exact safe_clean_err hc₁
  | true =>
    refine safe_quiet_bind calls_ensureWithin hc₁ fun _ h₂ s₂ hc₂ => ?_
    cases same with
    | false => exact safe_commitCopy hc₂
    | true => exact safe_commitRename hc₂

theorem safe_acceptSha256 {sha actor : String} {reason : Option String}
    {h : List (Event Ops World)} {s : World} (hc : Clean h) :
    Safe (handle env) undisturbed CleanError (acceptSha256 env cfg sha reason actor) h s := by
  unfold acceptSha256 withNormalizedSha
  cases normalizeSha sha with
  | none => exact safe_clean_err hc
  | some n =>
  refine safe_quiet_bind (calls_getAcceptContext ⟨rfl, rfl⟩) hc fun context h₁ s₁ hc₁ => ?_
  cases context with
  | none => exact safe_clean_err hc₁
  | some context =>
  refine safe_quiet_bind (calls_getFile ⟨rfl, rfl⟩) hc₁ fun record h₂ s₂ hc₂ => ?_
  cases record with
  | none => exact safe_clean_err hc₂
  | some record =>
  simp only
  split
  · exact safe_clean_err hc₂
  cases record.currentPath with
  | none => exact safe_clean_err hc₂
  | some source =>
  simp only [acceptFrom]
  split
  · refine safe_quiet_bind (calls_renderRelativePath ⟨rfl, rfl⟩) hc₂ fun rel h₃ s₃ hc₃ => ?_
    refine safe_quiet_bind (calls_choose fun _ => ⟨rfl, rfl⟩) hc₃ fun d h₄ s₄ hc₄ => ?_
    refine safe_quiet_bind (.op ⟨rfl, rfl⟩ fun _ => .op ⟨rfl, rfl⟩ fun _ => .ret) hc₄
      fun same h₅ s₅ hc₅ => ?_
    exact safe_clean_bind (safe_commit hc₅) fun _ _ _ => safe_finalizeAccept
  · exact safe_clean_err hc₂

theorem safe_purgeSha256 {sha actor : String} {reason : Option String}
    {h : List (Event Ops World)} {s : World} (hc : Clean h) :
    Safe (handle env) undisturbed CleanError (purgeSha256 cfg sha reason actor) h s := by
  unfold purgeSha256 withNormalizedSha
  cases normalizeSha sha with
  | none => exact safe_clean_err hc
  | some n =>
  refine safe_quiet_bind (calls_getFile ⟨rfl, rfl⟩) hc fun record h₁ s₁ hc₁ => ?_
  cases record with
  | none => exact safe_clean_err hc₁
  | some record =>
  simp only
  split
  · exact safe_clean_err hc₁
  refine safe_clean_bind ?_ fun _ _ _ => safe_finalizePurge
  unfold purgeFile
  cases record.currentPath with
  | none => exact safe_clean_ret
  | some current =>
  simp only
  split
  · refine safe_quiet_bind (calls_pathExists ⟨rfl, rfl⟩) hc₁ fun found h₂ s₂ _ => ?_
    cases found with
    | false => exact safe_clean_ret
    | true => exact fun _ _ _ => ⟨trivial, safe_clean_ret⟩
  · exact safe_clean_err hc₁

theorem safe_fileCommand (c : FileCommand) {sha actor : String} {reason : Option String}
    {h : List (Event Ops World)} {s : World} (hc : Clean h) :
    Safe (handle env) undisturbed CleanError (c.flow env cfg sha reason actor) h s := by
  cases c with
  | accept =>
    unfold FileCommand.flow
    exact safe_clean_bind (safe_acceptSha256 hc) fun _ _ _ => safe_clean_ret
  | purge =>
    unfold FileCommand.flow
    exact safe_clean_bind (safe_purgeSha256 hc) fun _ _ _ => safe_clean_ret

end Calls

/-- A call that has only read so far needs nothing of the others. -/
theorem meets_of_quiet {ι : Type} [DecidableEq ι] {i : ι} : ∀ {t : List (ι × Event Ops World)}
    {h : List (Event Ops World)}, (∀ e ∈ h, e.op.Quiet) → (∀ e ∈ own i t, e.op.Quiet) →
    Meets undisturbed i h t
  | [], _, _, _ => trivial
  | (j, e) :: t, h, hh, ht => by
    unfold Meets
    split
    · next hj =>
      subst hj
      rw [own_cons_self, List.forall_mem_cons] at ht
      refine ⟨fun _ => ?_, meets_of_quiet (List.forall_mem_append.mpr ⟨hh, by simpa using ht.1⟩)
        ht.2⟩
      obtain ⟨htx, -⟩ := ht.1
      cases hop : e.op with
      | tx tx => rw [hop] at htx; cases htx
      | _ => trivial
    · next hj =>
      rw [own_cons_ne hj] at ht
      refine ⟨fun e' he' => ?_, meets_of_quiet hh ht⟩
      obtain ⟨-, hfs⟩ := hh e' he'
      cases hop : e'.op with
      | copy2 src dst => rw [hop] at hfs; cases hfs
      | replace src dst => rw [hop] at hfs; cases hfs
      | _ => trivial

/-- The operator accepts (`false`) what the web user rejects (`true`). -/
def acceptVersusTriage : Pool Bool Ops Err fun _ => Unit
  | false => FileCommand.accept.flow sampleEnv sampleConfig shaA none "cli"
  | true => do let _ ← triageExecute .reject shaA "key1" none "web"

def triageFirst : List (Bool × Event Ops World) × Pool Bool Ops Err (fun _ => Unit) × World :=
  exec (handle sampleEnv) [true, true, true, true, false, false] acceptVersusTriage standingWorld

def triageBetween : List (Bool × Event Ops World) × Pool Bool Ops Err (fun _ => Unit) × World :=
  exec (handle sampleEnv) ([false, false, true, true, true, true] ++ List.replicate 8 false)
    acceptVersusTriage standingWorld

end Nightfall
