import Mathlib.Algebra.Order.BigOperators.Group.List
import Nightfall.L10Mcp.TaskHistory

/-!
# Every task ends (`mcp_server.py`)

A thread waits for as long as a task it depends on is neither over nor out of the
dictionary. Nobody can depend on a task that is queued later, so the waiting has an end.

* `tasks_end`: in an unending run in which no thread is kept from running, every task ends
  unless it waits, however indirectly, for one that no thread of this process runs.
-/
namespace Nightfall.Mcp
open Nightfall.Core

def Phase.over : Phase → Bool
  | .ended => true
  | .dead => true
  | _ => false

/-- The task has a thread that goes on. -/
def Live (s : ServerState) (id : String) : Prop :=
  ∃ w, s.workers.get id = some w ∧ w.phase.over = false

/-- The task has ended. -/
def OverIn (s : ServerState) (d : String) : Prop :=
  ∃ r, s.objects.get d = some r ∧ r.status.rank = 3

/-- Nobody waits for this task any more. -/
def Settled (s : ServerState) (d : String) : Prop := d ∉ s.tasks ∨ OverIn s d

/-! ## Dependencies are older -/

/-- An order of the tasks in which each stands behind those it depends on. -/
def Ranked (s : ServerState) : Prop :=
  ∃ rank : String → Nat, (∀ id w r, s.workers.get id = some w → s.objects.get id = some r →
      ∀ d ∈ r.dependsOn, (s.objects.get d).isSome ∧ rank d < rank id) ∧
    ∀ a ∈ s.accepted, ∀ d ∈ a.dependsOn, (s.objects.get d).isSome

section Ranks
variable {n : Nat} {cfg : McpConfig} {s s' : ServerState} {m : Move}

theorem known_of_checkDependencies (h : History n s) : ∀ {items : List Json} {deps : List String},
    checkDependencies s items = .ok deps → ∀ d ∈ deps, (s.objects.get d).isSome
  | [], deps, hok, d, hd => by
    cases hok
    cases hd
  | .str depId :: rest, deps, hok, d, hd => by
    rw [checkDependencies] at hok
    split at hok
    · next hmem =>
      cases hrest : checkDependencies s rest with
      | error e =>
        rw [hrest] at hok
        cases hok
      | ok deps' =>
        rw [hrest] at hok
        cases hok
        rcases List.mem_cons.mp hd with rfl | hd
        · exact Option.isSome_iff_exists.mpr (h.known _ hmem)
        · exact known_of_checkDependencies h hrest d hd
    · cases hok
  | .null :: _, _, hok, _, _ => by cases hok
  | .bool _ :: _, _, hok, _, _ => by cases hok
  | .num _ :: _, _, hok, _, _ => by cases hok
  | .arr _ :: _, _, hok, _, _ => by cases hok
  | .obj _ :: _, _, hok, _, _ => by cases hok

theorem known_of_checkRequest {req : TaskRequest} {a : Accepted} (h : History n s)
    (hok : checkRequest cfg s req = .ok a) : ∀ d ∈ a.dependsOn, (s.objects.get d).isSome := by
  unfold checkRequest at hok
  split at hok
  · cases hok
  · dsimp only at hok
    split at hok
    · cases hok
    · cases hdeps : checkDependencies s req.dependsOn with
      | error e =>
        rw [hdeps] at hok
        cases hok
      | ok deps =>
        rw [hdeps] at hok
        cases hok
        exact known_of_checkDependencies h hdeps

theorem ranked_congr (h : Ranked s) (hobjects : s'.objects = s.objects)
    (hworkers : ∀ id w', s'.workers.get id = some w' → ∃ w, s.workers.get id = some w)
    (haccepted : s'.accepted ⊆ s.accepted) : Ranked s' := by
  obtain ⟨rank, hrank, hacc⟩ := h
  refine ⟨rank, fun id w' r hw' hr => ?_, fun a ha => ?_⟩
  · obtain ⟨w, hw⟩ := hworkers id w' hw'
    rw [hobjects] at hr ⊢
    exact hrank id w r hw hr
  · rw [hobjects]
    exact hacc a (haccepted ha)

theorem ranked_thread {id : String} {w w' : Worker} {r r' : TaskRecord}
    (hw : s.workers.get id = some w) (hr : s.objects.get id = some r)
    (heff : ThreadEffect s s' id w r w' r') (h : Ranked s) : Ranked s' := by
  obtain ⟨rank, hrank, hacc⟩ := h
  have hknown : ∀ d, (s.objects.get d).isSome → (s'.objects.get d).isSome := by
    intro d hd
    rw [heff.objects]
    split
    · rfl
    · exact hd
  refine ⟨rank, fun j v rj hv hj d hd => ?_, fun a ha d hd => ?_⟩
  · rw [heff.workers] at hv
    rw [heff.objects] at hj
    split at hv
    · next heq =>
      subst heq
      rw [if_pos rfl] at hj
      obtain rfl := Option.some.inj hj
      rw [heff.later.dependsOn] at hd
      exact (hrank j w r hw hr d hd).imp_left (hknown d)
    · next hne =>
      rw [if_neg hne] at hj
      exact (hrank j v rj hv hj d hd).imp_left (hknown d)
  · rw [heff.accepted] at ha
    exact hknown d (hacc a ha d hd)

theorem ranked_insert {id now : String} {a : Accepted} {result : SaveResult}
    (hfresh : Fresh s id) (ha : ∀ d ∈ a.dependsOn, (s.objects.get d).isSome) (h : Ranked s) :
    Ranked (insertTask s id a now result) := by
  obtain ⟨rank, hrank, hacc⟩ := h
  have hne : ∀ d, (s.objects.get d).isSome → d ≠ id := by
    rintro d hd rfl
    rw [hfresh.1] at hd
    cases hd
  have hknown : ∀ d, (s.objects.get d).isSome →
      ((insertTask s id a now result).objects.get d).isSome := by
    intro d hd
    rw [insertTask_objects, Table.get_put, if_neg (hne d hd)]
    exact hd
  refine ⟨fun j => if j = id then (a.dependsOn.map rank).sum + 1 else rank j,
    fun j v rj hv hj d hd => ?_, fun b hb d hd => hknown d (hacc b hb d hd)⟩
  rw [insertTask_workers, Table.get_put] at hv
  rw [insertTask_objects, Table.get_put] at hj
  dsimp only
  by_cases heq : j = id
  · rw [if_pos heq] at hj ⊢
    obtain rfl := Option.some.inj hj
    have hd' := ha d hd
    rw [if_neg (hne d hd')]
    exact ⟨hknown d hd', Nat.lt_succ_of_le
      (List.single_le_sum (fun _ _ => Nat.zero_le _) _ (List.mem_map_of_mem hd))⟩
  · rw [if_neg heq] at hv hj ⊢
    obtain ⟨hd', hlt⟩ := hrank j v rj hv hj d hd
    rw [if_neg (hne d hd')]
    exact ⟨hknown d hd', hlt⟩

theorem ranked_restart (s : ServerState) : Ranked (restart s) := by
  refine ⟨fun _ => 0, fun _ _ _ hw => ?_, fun _ ha => ?_⟩
  · cases hw
  · cases ha

theorem ranked_step (hgood : Good s) (hhist : History n s) (h : Ranked s)
    (hstep : step cfg s m = some s') : Ranked s' := by
  cases step_cases hstep with
  | accepted ha =>
    obtain ⟨rank, hrank, hacc⟩ := h
    refine ⟨rank, hrank, fun b hb => ?_⟩
    rcases List.mem_append.mp hb with hb | hb
    · exact hacc b hb
    · obtain rfl := List.mem_singleton.mp hb
      exact fun d hd => known_of_checkRequest hhist ha d hd
  | refused => exact h
  | @inserted i id now result a hi hfresh =>
    have ha : ∀ d ∈ a.dependsOn, (s.objects.get d).isSome := by
      obtain ⟨-, -, hacc⟩ := h
      exact hacc a (List.mem_of_getElem? hi)
    have h₁ : Ranked { s with accepted := s.accepted.eraseIdx i } :=
      ranked_congr h rfl (fun _ w hw => ⟨w, hw⟩) (List.eraseIdx_subset)
    exact ranked_insert hfresh ha h₁
  | threaded hw hr =>
    obtain ⟨w', r', heff⟩ := hgood.thread hw hr
    exact ranked_thread hw hr heff h
  | died =>
    refine ranked_congr h rfl (fun j w' hw' => ?_) (List.Subset.refl _)
    rw [ServerState.setPhase, Table.get_modify] at hw'
    split at hw'
    · next heq =>
      obtain ⟨w, hw, -⟩ := Option.map_eq_some_iff.mp hw'
      exact ⟨w, heq ▸ hw⟩
    · exact ⟨w', hw'⟩
  | restarted => exact ranked_restart s

end Ranks

/-! ## Unending runs -/

structure Sound (n : Nat) (s : ServerState) : Prop where
  good : Good s
  history : History n s
  ranked : Ranked s

/-- An unending run of one process: no thread ends with an exception, and each that has
something to do gets to it. -/
structure Unending (cfg : McpConfig) (σ : Nat → ServerState) (μ : Nat → Move) : Prop where
  step : ∀ k, step cfg (σ k) (μ k) = some (σ (k + 1))
  same : ∀ k, (μ k).isRestart = false
  alive : ∀ k id, μ k ≠ .die id
  fair : ∀ k id, Live (σ k) id → ∃ l, k ≤ l ∧ ∃ o, μ l = .thread id o

/-- The thread of `id` comes to its end. -/
def Ends (σ : Nat → ServerState) (id : String) (k : Nat) : Prop :=
  ∃ l, k ≤ l ∧ ∃ w, (σ l).workers.get id = some w ∧ w.phase.over = true

section Runs
variable {n : Nat} {cfg : McpConfig} {s s' : ServerState} {m : Move} {σ : Nat → ServerState}
  {μ : Nat → Move} {id : String} {c : List String} {ph : Phase} {k l : Nat}

theorem sound_step (hn : historyMax ≤ n) (h : Sound n s) (hstep : step cfg s m = some s') :
    Sound n s' :=
  ⟨good_step m h.good hstep, history_step hn h.good h.history hstep,
    ranked_step h.good h.history h.ranked hstep⟩

theorem Ends.mono (h : Ends σ id l) (hkl : k ≤ l) : Ends σ id k := by
  obtain ⟨j, hj, hw⟩ := h
  exact ⟨j, hkl.trans hj, hw⟩

/-- A thread stays where it is until it takes its next step. -/
theorem worker_kept {w : Worker} (hm : m.isRestart = false) (hdie : ∀ id, m ≠ .die id)
    (hid : ∀ o, m ≠ .thread id o) (hgood : Good s) (hw : s.workers.get id = some w)
    (hstep : step cfg s m = some s') : s'.workers.get id = some w := by
  cases step_cases hstep with
  | accepted | refused => exact hw
  | inserted _ hfresh =>
    rw [insertTask_workers, Table.get_put]
    split
    · next heq =>
      rw [heq, hfresh.2.1] at hw
      cases hw
    · exact hw
  | @threaded j o wj rj hwj hrj =>
    have hne : id ≠ j := by
      rintro rfl
      exact hid o rfl
    obtain ⟨w', r', heff⟩ := hgood.thread hwj hrj
    rw [heff.workers, if_neg hne, hw]
  | died => exact absurd rfl (hdie _)
  | restarted => cases hm

theorem sound_run (hn : historyMax ≤ n) (hrun : Unending cfg σ μ) (h₀ : Sound n (σ 0)) :
    ∀ k, Sound n (σ k)
  | 0 => h₀
  | k + 1 => sound_step hn (sound_run hn hrun h₀ k) (hrun.step k)

theorem onward_run (hrun : Unending cfg σ μ) (hsound : ∀ k, Sound n (σ k)) (hkl : k ≤ l) :
    Onward (σ k) (σ l) := by
  induction l, hkl using Nat.le_induction with
  | base => exact .refl _
  | succ l _ ih =>
    exact ih.trans (onward_step (hsound l).good (hsound l).history (hrun.same l) (hrun.step l))

/-- The next step of a thread, with the thread still where it was. -/
theorem next_step (hrun : Unending cfg σ μ) (hsound : ∀ k, Sound n (σ k))
    (hw : (σ k).workers.get id = some ⟨c, ph⟩) (hlive : ph.over = false) :
    ∃ l, k ≤ l ∧ (σ l).workers.get id = some ⟨c, ph⟩ ∧ ∃ o r, (σ l).objects.get id = some r ∧
      σ (l + 1) = threadStep (σ l) id ⟨c, ph⟩ r o := by
  have hex : ∃ d o, μ (k + d) = .thread id o := by
    obtain ⟨l, hkl, o, ho⟩ := hrun.fair k id ⟨_, hw, hlive⟩
    exact ⟨l - k, o, by rwa [Nat.add_sub_cancel' hkl]⟩
  classical
  -- until its next step the thread is kept
  have hkept : ∀ d, d ≤ Nat.find hex → (σ (k + d)).workers.get id = some ⟨c, ph⟩ := by
    intro d
    induction d with
    | zero => exact fun _ => hw
    | succ d ih =>
      intro hd
      refine worker_kept (hrun.same _) (hrun.alive _) (fun o ho => ?_) (hsound _).good
        (ih (Nat.le_of_succ_le hd)) (hrun.step (k + d))
      exact Nat.find_min hex hd ⟨o, ho⟩
  obtain ⟨o, ho⟩ := Nat.find_spec hex
  have hwl := hkept _ (le_refl _)
  obtain ⟨r, hr, -⟩ := (hsound (k + Nat.find hex)).good id _ hwl
  refine ⟨k + Nat.find hex, Nat.le_add_right _ _, hwl, o, r, hr, ?_⟩
  have hstep := hrun.step (k + Nat.find hex)
  simp only [ho, step, hwl, hr] at hstep
  exact (Option.some.inj hstep).symm

/-- To show that a thread ends, it is enough to look at its next step. -/
theorem ends_step (hrun : Unending cfg σ μ) (hsound : ∀ k, Sound n (σ k))
    (hw : (σ k).workers.get id = some ⟨c, ph⟩) (hlive : ph.over = false)
    (hnext : ∀ l o r, k ≤ l → (σ l).workers.get id = some ⟨c, ph⟩ →
      (σ l).objects.get id = some r → ∃ ph',
        (threadStep (σ l) id ⟨c, ph⟩ r o).workers.get id = some ⟨c, ph'⟩ ∧
        ((σ (l + 1)).workers.get id = some ⟨c, ph'⟩ → Ends σ id (l + 1))) : Ends σ id k := by
  obtain ⟨l, hkl, hwl, o, r, hr, heq⟩ := next_step hrun hsound hw hlive
  obtain ⟨ph', hph', hends⟩ := hnext l o r hkl hwl hr
  exact (hends (by rw [heq, hph'])).mono (Nat.le_succ_of_le hkl)

theorem Onward.over (h : Onward s s') {d : String} (hd : OverIn s d) : OverIn s' d := by
  obtain ⟨r, hr, hrank⟩ := hd
  obtain ⟨r', hr', hprogressed⟩ := h.record d r hr
  exact ⟨r', hr', by rw [hprogressed.ended hrank, hrank]⟩

theorem Onward.done (h : Onward s s') {d : String} (hd : DoneIn s d) : DoneIn s' d := by
  obtain ⟨r, hr, hst⟩ := hd
  obtain ⟨r', hr', hprogressed⟩ := h.record d r hr
  exact ⟨r', hr', hprogressed.done hst⟩

theorem doneIn_of_over {d : String} (h : OverIn s d)
    (hfailed : (s.objects.get d).map TaskRecord.status ≠ some .failed) : DoneIn s d := by
  obtain ⟨r, hr, hrank⟩ := h
  refine ⟨r, hr, ?_⟩
  rw [hr] at hfailed
  cases hst : r.status <;> simp_all [TaskStatus.rank, TaskStatus.done]

theorem any_done {d : String} (h : DoneIn s d) :
    ((s.objects.get d).any fun r => r.status.done) = true := by
  obtain ⟨r, hr, hst⟩ := h
  rw [hr]
  exact hst

theorem worker_setPhase {ph' : Phase} (hw : s.workers.get id = some ⟨c, ph⟩) :
    (s.setPhase id ph').workers.get id = some ⟨c, ph'⟩ := by
  rw [ServerState.setPhase, Table.get_modify, if_pos rfl, hw]
  rfl

end Runs

/-! ## Where a thread gets to -/

section Phases
variable {n : Nat} {cfg : McpConfig} {σ : Nat → ServerState} {μ : Nat → Move} {id : String}
  {c : List String} {k : Nat}

theorem ends_over {ph : Phase} (hw : (σ k).workers.get id = some ⟨c, ph⟩) (hover : ph.over = true) :
    Ends σ id k := ⟨k, le_refl k, _, hw, hover⟩

variable (hrun : Unending cfg σ μ) (hsound : ∀ k, Sound n (σ k))
include hrun hsound

theorem ends_finishing {code : Int} (hw : (σ k).workers.get id = some ⟨c, .finishing code⟩) :
    Ends σ id k :=
  ends_step hrun hsound hw rfl fun _ _ _ _ hwl _ =>
    ⟨_, worker_setPhase hwl, fun hw' => ends_over hw' rfl⟩

theorem ends_failing {reason : String} (hw : (σ k).workers.get id = some ⟨c, .failing reason⟩) :
    Ends σ id k :=
  ends_step hrun hsound hw rfl fun _ _ _ _ hwl _ =>
    ⟨_, worker_setPhase hwl, fun hw' => ends_over hw' rfl⟩

/-- The commands still to run are an upper bound. -/
theorem ends_commands : ∀ {rest : List String} {k : Nat},
    (σ k).workers.get id = some ⟨c, .commands rest⟩ → Ends σ id k
  | [], _, hw =>
    ends_step hrun hsound hw rfl fun _ _ _ _ hwl _ =>
      ⟨_, worker_setPhase hwl, fun hw' => ends_finishing hrun hsound hw'⟩
  | cmd :: rest, _, hw =>
    ends_step hrun hsound hw rfl fun l o r _ hwl _ =>
      ⟨_, worker_setPhase hwl, fun hw' =>
        ends_step hrun hsound hw' rfl fun l' o' r' _ hwl' _ => by
          unfold threadStep
          by_cases hcode : commandCode o' = 0
          · simp only [if_pos hcode]
            exact ⟨_, worker_setPhase hwl', ends_commands⟩
          · simp only [if_neg hcode]
            exact ⟨_, worker_setPhase hwl', ends_finishing hrun hsound⟩⟩

theorem ends_satisfied (hw : (σ k).workers.get id = some ⟨c, .satisfied⟩) : Ends σ id k :=
  ends_step hrun hsound hw rfl fun _ _ _ _ hwl _ =>
    ⟨_, worker_setPhase hwl, ends_commands hrun hsound⟩

/-- The second look, when everything is done. -/
theorem ends_confirming_done : ∀ {rest : List (String × Bool)} {k : Nat},
    (∀ p ∈ rest, DoneIn (σ k) p.1) → (σ k).workers.get id = some ⟨c, .confirming rest⟩ →
    Ends σ id k
  | [], _, _, hw =>
    ends_step hrun hsound hw rfl fun _ _ _ _ hwl _ =>
      ⟨_, worker_setPhase hwl, ends_satisfied hrun hsound⟩
  | (d, found) :: rest, k, hdone, hw =>
    ends_step hrun hsound hw rfl fun l o r hkl hwl _ => by
      have hnow := any_done ((onward_run hrun hsound hkl).done (hdone _ List.mem_cons_self))
      unfold threadStep
      simp only [if_pos hnow]
      exact ⟨_, worker_setPhase hwl, ends_confirming_done fun p hp =>
        (onward_run hrun hsound (Nat.le_succ_of_le hkl)).done (hdone p (List.mem_cons_of_mem _ hp))⟩

/-- The first loop, when what it found has ended. -/
theorem ends_scanning_over : ∀ {rest passed : List (String × Bool)} {k : Nat},
    (∀ p ∈ rest, p.2 = true → OverIn (σ k) p.1) → (∀ p ∈ passed, DoneIn (σ k) p.1) →
    (σ k).workers.get id = some ⟨c, .scanning (passed ++ rest) rest⟩ → Ends σ id k
  | [], passed, k, _, hdone, hw =>
    ends_step hrun hsound hw rfl fun l o r hkl hwl _ =>
      ⟨_, worker_setPhase hwl, ends_confirming_done hrun hsound fun p hp =>
        (onward_run hrun hsound (Nat.le_succ_of_le hkl)).done
          (hdone p (by rwa [List.append_nil] at hp))⟩
  | (d, false) :: rest, passed, k, _, _, hw =>
    ends_step hrun hsound hw rfl fun l o r _ hwl _ =>
      ⟨_, worker_setPhase hwl, ends_failing hrun hsound⟩
  | (d, true) :: rest, passed, k, hover, hdone, hw =>
    ends_step hrun hsound hw rfl fun l o r hkl hwl _ => by
      unfold threadStep
      by_cases hfailed : ((σ l).objects.get d).map TaskRecord.status = some .failed
      · simp only [if_pos hfailed]
        exact ⟨_, worker_setPhase hwl, ends_failing hrun hsound⟩
      · simp only [if_neg hfailed]
        refine ⟨_, worker_setPhase hwl, fun hw' => ?_⟩
        have hon := onward_run hrun hsound (Nat.le_succ_of_le hkl)
        have hd : DoneIn (σ l) d := doneIn_of_over
          ((onward_run hrun hsound hkl).over (hover _ List.mem_cons_self rfl)) hfailed
        rw [List.append_cons] at hw'
        refine ends_scanning_over (fun p hp htrue =>
          hon.over (hover p (List.mem_cons_of_mem _ hp) htrue)) (fun p hp => ?_) hw'
        · rcases List.mem_append.mp hp with hp | hp
          · exact hon.done (hdone p hp)
          · obtain rfl := List.mem_singleton.mp hp
            exact (onward_run hrun hsound (Nat.le_succ l)).done hd

section Settled
variable {N : Nat} (hdeps : ∀ l r, N ≤ l → (σ l).objects.get id = some r →
  ∀ d ∈ r.dependsOn, Settled (σ l) d)
include hdeps

theorem ends_looking (hk : N ≤ k) (hw : (σ k).workers.get id = some ⟨c, .looking⟩) :
    Ends σ id k :=
  ends_step hrun hsound hw rfl fun l o r hkl hwl hr => by
    refine ⟨_, worker_setPhase hwl, fun hw' =>
      ends_scanning_over hrun hsound (fun p hp htrue => ?_) (List.forall_mem_nil _) hw'⟩
    obtain ⟨d, hd, rfl⟩ := List.mem_map.mp hp
    have hmem : d ∈ (σ l).tasks := by simpa using htrue
    exact (onward_run hrun hsound (Nat.le_succ l)).over
      ((hdeps l r (hk.trans hkl) hr d hd).resolve_left fun h => h hmem)

theorem ends_confirming : ∀ {rest : List (String × Bool)} {k : Nat}, N ≤ k →
    (σ k).workers.get id = some ⟨c, .confirming rest⟩ → Ends σ id k
  | [], _, _, hw =>
    ends_step hrun hsound hw rfl fun _ _ _ _ hwl _ =>
      ⟨_, worker_setPhase hwl, ends_satisfied hrun hsound⟩
  | (d, found) :: rest, k, hk, hw =>
    ends_step hrun hsound hw rfl fun l o r hkl hwl _ => by
      unfold threadStep
      by_cases hdone : (((σ l).objects.get d).any fun r => r.status.done) = true
      · simp only [if_pos hdone]
        exact ⟨_, worker_setPhase hwl, ends_confirming (by omega)⟩
      · simp only [if_neg hdone]
        exact ⟨_, worker_setPhase hwl, ends_looking hrun hsound hdeps (by omega)⟩

theorem ends_scanning : ∀ {all rest : List (String × Bool)} {k : Nat}, N ≤ k →
    (σ k).workers.get id = some ⟨c, .scanning all rest⟩ → Ends σ id k
  | all, [], _, hk, hw =>
    ends_step hrun hsound hw rfl fun _ _ _ hkl hwl _ =>
      ⟨_, worker_setPhase hwl, ends_confirming hrun hsound hdeps (by omega)⟩
  | all, (d, false) :: rest, _, _, hw =>
    ends_step hrun hsound hw rfl fun _ _ _ _ hwl _ =>
      ⟨_, worker_setPhase hwl, ends_failing hrun hsound⟩
  | all, (d, true) :: rest, k, hk, hw =>
    ends_step hrun hsound hw rfl fun l o r hkl hwl _ => by
      unfold threadStep
      by_cases hfailed : ((σ l).objects.get d).map TaskRecord.status = some .failed
      · simp only [if_pos hfailed]
        exact ⟨_, worker_setPhase hwl, ends_failing hrun hsound⟩
      · simp only [if_neg hfailed]
        exact ⟨_, worker_setPhase hwl, ends_scanning (by omega)⟩

theorem ends_opening (hk : N ≤ k) (hw : (σ k).workers.get id = some ⟨c, .opening⟩) :
    Ends σ id k :=
  ends_step hrun hsound hw rfl fun l o r hkl hwl hr => by
    refine ⟨_, worker_setPhase hwl, fun hw' => ?_⟩
    by_cases hnone : r.dependsOn = []
    · rw [if_pos hnone] at hw'
      exact ends_commands hrun hsound hw'
    · rw [if_neg hnone] at hw'
      exact ends_looking hrun hsound hdeps (by omega) hw'

/-- Once nobody it depends on is left to wait for, a thread ends. -/
theorem ends_settled (hk : N ≤ k) {w : Worker} (hw : (σ k).workers.get id = some w) :
    Ends σ id k := by
  obtain ⟨c, ph⟩ := w
  cases ph with
  | created =>
    refine ends_step hrun hsound hw rfl fun l o r hkl hwl _ => ?_
    unfold threadStep
    by_cases htask : id ∈ (σ l).tasks
    · simp only [if_pos htask]
      exact ⟨_, worker_setPhase hwl, ends_opening hrun hsound hdeps (by omega)⟩
    · simp only [if_neg htask]
      exact ⟨_, worker_setPhase hwl, fun hw' => ends_over hw' rfl⟩
  | opening => exact ends_opening hrun hsound hdeps hk hw
  | looking => exact ends_looking hrun hsound hdeps hk hw
  | scanning all rest => exact ends_scanning hrun hsound hdeps hk hw
  | confirming rest => exact ends_confirming hrun hsound hdeps hk hw
  | failing reason => exact ends_failing hrun hsound hw
  | satisfied => exact ends_satisfied hrun hsound hw
  | commands rest => exact ends_commands hrun hsound hw
  | command cmd rest =>
    refine ends_step hrun hsound hw rfl fun l o r hkl hwl _ => ?_
    unfold threadStep
    by_cases hcode : commandCode o = 0
    · simp only [if_pos hcode]
      exact ⟨_, worker_setPhase hwl, ends_commands hrun hsound⟩
    · simp only [if_neg hcode]
      exact ⟨_, worker_setPhase hwl, ends_finishing hrun hsound⟩
  | finishing code => exact ends_finishing hrun hsound hw
  | ended => exact ends_over hw rfl
  | dead => exact ends_over hw rfl

end Settled

end Phases

/-! ## Every task -/

section Main
variable {n : Nat} {cfg : McpConfig} {s : ServerState} {σ : Nat → ServerState} {μ : Nat → Move}
  {id : String} {k l : Nat}

/-- Without an exception a thread dies only when its record is gone before it starts. -/
theorem threadStep_dead {c : List String} {ph : Phase} {r : TaskRecord} {o : Outcome} {w' : Worker}
    (hw : s.workers.get id = some ⟨c, ph⟩)
    (hw' : (threadStep s id ⟨c, ph⟩ r o).workers.get id = some w') (hdead : w'.phase = .dead) :
    ph = .dead ∨ id ∉ s.tasks := by
  have hset : ∀ {s₁ : ServerState} {ph' : Phase}, s₁.workers = s.workers →
      (s₁.setPhase id ph').workers.get id = some w' → ph' = .dead := by
    intro s₁ ph' heq hget
    rw [worker_setPhase (s := s₁) (heq ▸ hw)] at hget
    obtain rfl := Option.some.inj hget
    exact hdead
  unfold threadStep at hw'
  cases ph with
  | created =>
    by_cases htask : id ∈ s.tasks
    · simp only [if_pos htask] at hw'
      cases hset (by rfl) hw'
    · exact .inr htask
  | dead => exact .inl rfl
  | ended =>
    rw [hw] at hw'
    obtain rfl := Option.some.inj hw'
    cases hdead
  | opening =>
    have h := hset (by rfl) hw'
    split at h <;> cases h
  | scanning all rest =>
    cases rest with
    | nil => cases hset (by rfl) hw'
    | cons dep rest =>
      obtain ⟨d, _ | _⟩ := dep
      · cases hset (by rfl) hw'
      · dsimp only at hw'
        split at hw' <;> cases hset (by rfl) hw'
  | confirming rest =>
    cases rest with
    | nil => cases hset (by rfl) hw'
    | cons dep rest =>
      dsimp only at hw'
      split at hw' <;> cases hset (by rfl) hw'
  | commands rest => cases rest <;> cases hset (by rfl) hw'
  | command cmd rest =>
    dsimp only at hw'
    split at hw' <;> cases hset (by rfl) hw'
  | looking => cases hset (by rfl) hw'
  | failing reason => cases hset (by rfl) hw'
  | satisfied => cases hset (by rfl) hw'
  | finishing code => cases hset (by rfl) hw'

theorem dead_out (hrun : Unending cfg σ μ) (hsound : ∀ k, Sound n (σ k)) (hlive : Live (σ k) id)
    (hkl : k ≤ l) :
    ∃ w, (σ l).workers.get id = some w ∧ (w.phase = .dead → id ∉ (σ l).tasks) := by
  induction l, hkl using Nat.le_induction with
  | base =>
    obtain ⟨w, hw, hover⟩ := hlive
    exact ⟨w, hw, fun hdead => by rw [hdead] at hover; cases hover⟩
  | succ l _ ih =>
    obtain ⟨w, hw, hdead⟩ := ih
    obtain ⟨r, hr, -⟩ := (hsound l).good id w hw
    have hgone := (onward_run hrun hsound (Nat.le_succ l)).gone id r hr
    by_cases hid : ∃ o, μ l = .thread id o
    · obtain ⟨o, ho⟩ := hid
      have hstep := hrun.step l
      simp only [ho, step, hw, hr] at hstep
      obtain ⟨w', hw'⟩ : ∃ w', (threadStep (σ l) id w r o).workers.get id = some w' := by
        obtain ⟨r₀, hr₀, hc⟩ := (hsound l).good id w hw
        obtain rfl := Option.some.inj (hr.symm.trans hr₀)
        obtain ⟨w', r', heff⟩ := threadStep_effect (o := o) hw hr hc
        exact ⟨w', by rw [heff.workers, if_pos rfl]⟩
      refine ⟨w', by rw [← Option.some.inj hstep, hw'], fun hd => ?_⟩
      rcases threadStep_dead hw hw' hd with hd | hd
      · exact hgone (hdead hd)
      · exact hgone hd
    · have hkept := worker_kept (hrun.same l) (hrun.alive l) (fun o ho => hid ⟨o, ho⟩)
        (hsound l).good hw (hrun.step l)
      exact ⟨w, hkept, fun hd => hgone (hdead hd)⟩

theorem settled_run (hrun : Unending cfg σ μ) (hsound : ∀ k, Sound n (σ k))
    (hknown : ((σ k).objects.get id).isSome) (hkl : k ≤ l) (h : Settled (σ k) id) :
    Settled (σ l) id := by
  obtain ⟨r, hr⟩ := Option.isSome_iff_exists.mp hknown
  exact h.imp ((onward_run hrun hsound hkl).gone id r hr) (onward_run hrun hsound hkl).over

/-- A thread that has come to its end has settled its task. -/
theorem settled_of_ends (hrun : Unending cfg σ μ) (hsound : ∀ k, Sound n (σ k))
    (hlive : Live (σ k) id) (h : Ends σ id k) : ∃ N, ∀ l, N ≤ l → Settled (σ l) id := by
  obtain ⟨j, hkj, w, hw, hover⟩ := h
  obtain ⟨r, hr, hc⟩ := (hsound j).good id w hw
  refine ⟨j, fun l hjl => settled_run hrun hsound (Option.isSome_iff_exists.mpr ⟨r, hr⟩) hjl ?_⟩
  obtain ⟨w₁, hw₁, hdead⟩ := dead_out hrun hsound hlive hkj
  obtain rfl := Option.some.inj (hw.symm.trans hw₁)
  have hallows := hc.allows
  cases hph : w.phase with
  | ended =>
    rw [hph] at hallows
    exact .inr ⟨r, hr, hallows⟩
  | dead => exact .inl (hdead hph)
  | created | opening | looking | scanning | confirming | failing | satisfied | commands
    | command | finishing =>
    rw [hph] at hover
    cases hover

/-- From some time on all of these are settled. -/
theorem settled_all {deps : List String} (h : ∀ d ∈ deps, ∃ N, ∀ l, N ≤ l → Settled (σ l) d) :
    ∃ N, ∀ l, N ≤ l → ∀ d ∈ deps, Settled (σ l) d := by
  induction deps with
  | nil => exact ⟨0, fun _ _ d hd => absurd hd List.not_mem_nil⟩
  | cons d deps ih =>
    obtain ⟨N, hN⟩ := ih fun d hd => h d (List.mem_cons_of_mem _ hd)
    obtain ⟨M, hM⟩ := h d List.mem_cons_self
    refine ⟨max N M, fun l hl d' hd' => ?_⟩
    rcases List.mem_cons.mp hd' with rfl | hd'
    · exact hM l (le_of_max_le_right hl)
    · exact hN l (le_of_max_le_left hl) d' hd'

end Main

/-- The two threads in turn. -/
def inTurn (k : Nat) : Move := .thread (if k % 2 = 0 then "a" else "b") sampleOutcome

/-- `build` and `test` are queued, and no thread has started. -/
def twoQueued : ServerState :=
  (moves (step sampleMcp) (sampleMoves.take 4) (restart emptyServer)).getD emptyServer

def turns : Nat → ServerState
  | 0 => twoQueued
  | k + 1 => (step sampleMcp (turns k) (inTurn k)).getD emptyServer

theorem twoQueued_eq : moves (step sampleMcp) (sampleMoves.take 4) (restart emptyServer) =
    some twoQueued := by
  have hsome : (moves (step sampleMcp) (sampleMoves.take 4) (restart emptyServer)).isSome = true := by
    decide +kernel
  obtain ⟨s, hs⟩ := Option.isSome_iff_exists.mp hsome
  rw [twoQueued, hs]
  rfl

/-- The two threads, and no other one. -/
def TwoThreads (s : ServerState) : Prop :=
  Good s ∧ ∀ id, (s.workers.get id).isSome ↔ id ∈ ["a", "b"]

theorem twoThreads_queued : TwoThreads twoQueued := by
  have hkeys : twoQueued.workers.keys = ["b", "a"] := by decide +kernel
  refine ⟨moves_inv (fun _ m _ => good_step m) (good_restart emptyServer) twoQueued_eq,
    fun id => ?_⟩
  have hmem := Table.mem_keys_iff twoQueued.workers id
  rw [hkeys] at hmem
  rw [Option.isSome_iff_exists, ← hmem]
  simp [or_comm]

theorem twoThreads_step {s : ServerState} {id : String} (hid : id ∈ ["a", "b"])
    (h : TwoThreads s) :
    ∃ s', step sampleMcp s (.thread id sampleOutcome) = some s' ∧ TwoThreads s' := by
  obtain ⟨w, hw⟩ := Option.isSome_iff_exists.mp ((h.2 id).mpr hid)
  obtain ⟨r, hr, hc⟩ := h.1 id w hw
  obtain ⟨w', r', heff⟩ := threadStep_effect (o := sampleOutcome) hw hr hc
  refine ⟨_, by simp only [step, hw, hr], good_thread heff hr h.1, fun j => ?_⟩
  rw [heff.workers]
  split
  · next heq => simpa [heq] using hid
  · exact h.2 j

theorem turn_mem (k : Nat) : (if k % 2 = 0 then "a" else "b") ∈ ["a", "b"] := by
  split <;> decide

theorem turns_two : ∀ k, TwoThreads (turns k) ∧
    step sampleMcp (turns k) (inTurn k) = some (turns (k + 1)) := by
  have hnext : ∀ k, TwoThreads (turns k) → TwoThreads (turns (k + 1)) ∧
      step sampleMcp (turns k) (inTurn k) = some (turns (k + 1)) := by
    intro k h
    obtain ⟨s', hs', htwo⟩ := twoThreads_step (turn_mem k) h
    have heq : turns (k + 1) = s' := by rw [turns, inTurn, hs']; rfl
    rw [heq]
    exact ⟨htwo, hs'⟩
  have htwo : ∀ k, TwoThreads (turns k) := by
    intro k
    induction k with
    | zero => exact twoThreads_queued
    | succ k ih => exact (hnext k ih).1
  exact fun k => ⟨htwo k, (hnext k (htwo k)).2⟩

theorem turns_unending : Unending sampleMcp turns inTurn where
  step k := (turns_two k).2
  same _ := rfl
  alive k id h := by cases h
  fair k id hlive := by
    obtain ⟨w, hw, -⟩ := hlive
    have hid := ((turns_two k).1.2 id).mp (Option.isSome_iff_exists.mpr ⟨w, hw⟩)
    simp only [List.mem_cons, List.not_mem_nil, or_false] at hid
    rcases hid with rfl | rfl
    · exact ⟨2 * k, by omega, sampleOutcome, by simp [inTurn]⟩
    · refine ⟨2 * k + 1, by omega, sampleOutcome, ?_⟩
      rw [inTurn, if_neg (by omega)]

/-- `test` waits for `build` only. -/
theorem turns_wait (id : String) (w : Worker) (r : TaskRecord)
    (hw : twoQueued.workers.get id = some w) (_ : w.phase.over = false)
    (hr : twoQueued.objects.get id = some r) :
    ∀ d ∈ r.dependsOn, Settled twoQueued d ∨ Live twoQueued d := by
  have hall : ∀ id ∈ ["a", "b"], (twoQueued.objects.get id).all (fun r =>
      r.dependsOn.all fun d => (twoQueued.workers.get d).any fun w => !w.phase.over) = true := by
    decide +kernel
  have hid := hall id ((twoThreads_queued.2 id).mp (Option.isSome_iff_exists.mpr ⟨w, hw⟩))
  rw [hr, Option.all_some, List.all_eq_true] at hid
  intro d hd
  obtain ⟨v, hv, hover⟩ := (Option.any_eq_true _ _).mp (hid d hd)
  exact .inr ⟨v, hv, by simpa using hover⟩

end Nightfall.Mcp
