import Nightfall.L4System.Steps

/-!
# The lifecycle of a status

Which changes of `files.status` a sequential run can make. Most transactions
carry their own guard; `finalize_unknown_ingest` does not (it forces `pending`)
and is lawful only where the hash has no row.

* `statusStep_of_lawful`: one step of any flow but that one.
* `statusStep_of_arises`: one step of any command.
* `lifecycle_transitions`: every step of every run.
-/
namespace Nightfall
open Nightfall.Core Storage Prog

/-- The allowed changes; `none` is a hash without a row. -/
inductive Transition : Option Status → Option Status → Prop
  | ingest : Transition none (some .pending)
  | rejectUnknown : Transition none (some .rejected)
  | accept : Transition (some .pending) (some .accepted)
  | rejectPending : Transition (some .pending) (some .rejected)
  | rejectAccepted : Transition (some .accepted) (some .rejected)
  | rejectPurged : Transition (some .purged) (some .rejected)
  | purge : Transition (some .rejected) (some .purged)

/-- Every hash keeps its status or makes an allowed change. -/
def StatusStep (r r' : Registry) : Prop :=
  ∀ sha, r'.statusOf sha ≠ r.statusOf sha → Transition (r.statusOf sha) (r'.statusOf sha)

theorem StatusStep.of_files {r r' : Registry} (h : r'.files = r.files) : StatusStep r r' := by
  intro sha hne
  simp [Registry.statusOf, h] at hne

/-- Only the written row matters. -/
theorem StatusStep.of_put {r r' : Registry} {k : String} {row : FileRecord}
    (h : r'.files = r.files.put k row)
    (ht : some row.status ≠ r.statusOf k → Transition (r.statusOf k) (some row.status)) :
    StatusStep r r' := by
  intro sha hne
  by_cases hk : sha = k
  · subst hk
    simp only [Registry.statusOf, h, Table.get_put_self, Option.map_some] at hne ht ⊢
    exact ht hne
  · simp [Registry.statusOf, h, Table.get_put, hk] at hne

/-- Rejecting is allowed from every status. -/
theorem transition_rejected (o : Option Status) (h : some Status.rejected ≠ o) :
    Transition o (some .rejected) := by
  rcases o with _ | s
  · exact .rejectUnknown
  · cases s with
    | pending => exact .rejectPending
    | accepted => exact .rejectAccepted
    | rejected => exact absurd rfl h
    | purged => exact .rejectPurged

/-! ## One step -/

/-- The transactions that are lawful in every state. -/
def Tx.Lawful : Tx → Prop
  | .createOrUpdateFile _ _ st _ _ => st = .rejected
  | .transitionStatus _ st _ _ => st = .rejected
  | .finalizeUnknownIngest .. => False
  | .triageApply .. => False
  | _ => True

def Op.Lawful : Op → Prop
  | .tx t => t.Lawful
  | _ => True

theorem statusStep_tx {t : Tx} {r r' : Registry} {now : String} (ht : t.Lawful)
    (h : t.apply r now = .ok r') : StatusStep r r' := by
  cases t with
  | createOrUpdateFile sha n st name path =>
    cases ht; cases h
    obtain ⟨row, hst, -, hf⟩ := Registry.files_upsertFile r sha n .rejected name path now
    exact .of_put hf (by rw [hst]; exact transition_rejected _)
  | upsertMetadataIndex account id n mt sha => cases h; exact .of_files rfl
  | upsertFileOrigin sha account id hint => exact .of_files (Registry.files_upsertFileOrigin h)
  | finalizeUnknownIngest => cases ht
  | finalizeAcceptFromPending sha path account src actor reason =>
    obtain ⟨old, hold, hst, hf⟩ := Registry.files_finalizeAcceptFromPending h
    refine .of_put hf fun _ => ?_
    simpa [Registry.statusOf, hold, hst] using Transition.accept
  | finalizeKnownIngest sha st account id src mt n actor =>
    exact .of_files (Registry.files_finalizeKnownIngest h)
  | clearCurrentPath sha =>
    cases h
    intro sha' hne
    simp only [Registry.statusOf, Registry.files_clearCurrentPath, Table.get_modify] at hne
    split at hne
    · next hs => subst hs; cases hg : r.files.get sha' <;> simp [hg] at hne
    · exact absurd rfl hne
  | updateCurrentPath sha path =>
    cases h
    intro sha' hne
    simp only [Registry.statusOf, Registry.files_updateCurrentPath, Table.get_modify] at hne
    split at hne
    · next hs => subst hs; cases hg : r.files.get sha' <;> simp [hg] at hne
    · exact absurd rfl hne
  | finalizePurgeFromRejected sha reason actor =>
    obtain ⟨old, hold, hst, hf⟩ := Registry.files_finalizePurgeFromRejected h
    refine .of_put hf fun _ => ?_
    simpa [Registry.statusOf, hold, hst] using Transition.purge
  | transitionStatus sha st reason actor =>
    cases ht
    obtain ⟨old, -, hf⟩ := Registry.files_transitionStatus h
    exact .of_put hf (transition_rejected _)
  | appendAuditEvent sha action reason actor => cases h; exact .of_files rfl
  | appendIngestTerminalEvent => cases h; exact .of_files rfl
  | upsertLivePhotoPair id account stem p v st =>
    exact .of_files (Registry.files_upsertLivePhotoPair h)
  | setLivePhotoPairStatus id st => cases h; exact .of_files rfl
  | triageEvent a p item reason actor => cases h; exact .of_files rfl
  | triageApply => cases ht
  | pruneAuthFailureAuditBacklog keep =>
    exact .of_files (Registry.files_pruneAuthFailureAuditBacklog h)

theorem statusStep_of_lawful {env : Env} {o : Op} (w : World) (h : o.Lawful) :
    StatusStep w.reg (handle env o w).2.reg := by
  cases o with
  | tx t =>
    simp only [handle]
    split
    · next r hr => exact statusStep_tx h hr
    · exact .of_files rfl
  | _ => exact .of_files (congrArg Registry.files (handle_reg rfl))

/-- The guarantee of a step: its statuses move by `StatusStep`. -/
def StatusGuar (_ : Op) (w w' : World) : Prop := StatusStep w.reg w'.reg

theorem Op.Plain.lawful {o : Op} (h : o.Plain) : o.Lawful := by
  cases o with
  | tx t => cases t <;> trivial
  | _ => trivial

theorem Op.Bars.lawful {o : Op} (h : o.Bars) : o.Lawful := by
  cases o with
  | tx t => cases t <;> trivial
  | _ => trivial

/-- The one forced status: the row is still absent when it is written. -/
theorem statusStep_of_arises {env : Env} {o : Op} {w : World} (h : o.Arises env w) :
    StatusGuar o w (handle env o w).2 := by
  cases h with
  | plain h => exact statusStep_of_lawful w h.lawful
  | bars h => exact statusStep_of_lawful w h.lawful
  | unknown habs =>
    simp only [StatusGuar, handle]
    split
    · next r hr =>
      obtain ⟨row, hst, -, hf⟩ := Registry.files_finalizeUnknownIngest hr
      refine .of_put hf fun _ => ?_
      simpa [Registry.statusOf, habs, hst] using Transition.ingest
    · exact .of_files rfl

/-! ## Every run -/

/-- Every step of every sequential run changes a status only by a `Transition`,
from any state of the registry and with any block rules and pairs in it. -/
theorem lifecycle_transitions (env : Env) (cfg : CoreConfig) (as : List Action) (w : World) :
    ∀ e ∈ events env cfg as w, ∀ sha, e.post.reg.statusOf sha ≠ e.pre.reg.statusOf sha →
      Transition (e.pre.reg.statusOf sha) (e.post.reg.statusOf sha) := by
  intro e he
  rw [post_of_mem_events as w e he]
  exact statusStep_of_arises (arises_events as w e he)

/-- The sample run does change the status of its photo. -/
theorem lifecycle_transitions_sample :
    ∃ e ∈ events sampleEnv sampleConfig sampleActions (sampleWorld [] Registry.empty),
      Transition (e.pre.reg.statusOf shaA) (e.post.reg.statusOf shaA) := by
  have hchange : ∃ e ∈ events sampleEnv sampleConfig sampleActions (sampleWorld [] Registry.empty),
      e.post.reg.statusOf shaA ≠ e.pre.reg.statusOf shaA := by decide +kernel
  obtain ⟨e, he, hne⟩ := hchange
  exact ⟨e, he, lifecycle_transitions _ _ _ _ e he shaA hne⟩

end Nightfall
