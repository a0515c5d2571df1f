import Nightfall.L10Mcp.Tasks

/-!
# Which tasks the server still knows (`mcp_server.py`)

Every new record and every task that ends cuts the dictionary down to `HISTORY_MAX`
records.

* `history_most_recent`: what the dictionary has lost is no later than what it holds.
* `onward_step`: what one step leaves of the records and of what has left the dictionary.
-/
namespace Nightfall.Mcp
open Nightfall.Core

/-! ## The dictionary -/

/-- The dictionary and the file. -/
structure History (n : Nat) (s : ServerState) : Prop where
  keyed : ∀ id r, s.objects.get id = some r → r.taskId = id
  known : ∀ id ∈ s.tasks, ∃ r, s.objects.get id = some r
  nodup : s.tasks.Nodup
  short : s.tasks.length ≤ n
  recent : ∀ id r, s.objects.get id = some r → id ∉ s.tasks →
    s.tasks.length = historyMax ∧ ∀ r' ∈ s.listed, r.startedAt ≤ r'.startedAt
  file : (loadHistory s.historyFile).1.length ≤ n

section Listed
variable {n : Nat} {s s' : ServerState} {id : String} {r : TaskRecord}

theorem mem_listed : r ∈ s.listed ↔ ∃ id ∈ s.tasks, s.objects.get id = some r := List.mem_filterMap

theorem map_taskId_listed (hkeyed : ∀ id r, s.objects.get id = some r → r.taskId = id)
    (hknown : ∀ id ∈ s.tasks, ∃ r, s.objects.get id = some r) :
    s.listed.map TaskRecord.taskId = s.tasks := by
  unfold ServerState.listed
  generalize s.tasks = ids at hknown
  induction ids with
  | nil => rfl
  | cons id ids ih =>
    obtain ⟨r, hr⟩ := hknown id List.mem_cons_self
    rw [List.filterMap_cons_some hr, List.map_cons, hkeyed id r hr,
      ih fun id hid => hknown id (List.mem_cons_of_mem _ hid)]

theorem length_listed (hkeyed : ∀ id r, s.objects.get id = some r → r.taskId = id)
    (hknown : ∀ id ∈ s.tasks, ∃ r, s.objects.get id = some r) :
    s.listed.length = s.tasks.length := by
  rw [← map_taskId_listed hkeyed hknown, List.length_map]

/-- After a cut the dictionary holds what was kept. -/
theorem listed_saveHistory {result : SaveResult}
    (hkeyed : ∀ id r, s.objects.get id = some r → r.taskId = id) :
    (s.saveHistory result).listed = newest historyMax TaskRecord.startedAt s.listed := by
  have hget : ∀ r ∈ newest historyMax TaskRecord.startedAt s.listed,
      s.objects.get r.taskId = some r := by
    intro r hr
    obtain ⟨id, -, hid⟩ := mem_listed.mp (mem_of_newest hr)
    rw [hkeyed id r hid, hid]
  change (List.map _ _).filterMap s.objects.get = _
  generalize newest historyMax TaskRecord.startedAt s.listed = kept at hget ⊢
  induction kept with
  | nil => rfl
  | cons r kept ih =>
    rw [List.map_cons, List.filterMap_cons_some (hget r List.mem_cons_self),
      ih fun r hr => hget r (List.mem_cons_of_mem _ hr)]

/-- The dictionary before a cut. -/
structure Uncut (n : Nat) (s : ServerState) : Prop where
  keyed : ∀ id r, s.objects.get id = some r → r.taskId = id
  known : ∀ id ∈ s.tasks, ∃ r, s.objects.get id = some r
  nodup : s.tasks.Nodup
  outranked : ∀ id r, s.objects.get id = some r → id ∉ s.tasks →
    historyMax ≤ s.listed.countP fun r' => r.startedAt ≤ r'.startedAt
  file : (loadHistory s.historyFile).1.length ≤ n

theorem History.uncut (h : History n s) : Uncut n s where
  keyed := h.keyed
  known := h.known
  nodup := h.nodup
  file := h.file
  outranked id r hr hid := by
    obtain ⟨hlen, hle⟩ := h.recent id r hr hid
    rw [List.countP_eq_length.mpr (by simpa using hle), length_listed h.keyed h.known, hlen]

theorem length_loadHistory_le (l : List TaskRecord) :
    (loadHistory (.records l)).1.length ≤ l.length := by
  have hfold : ∀ (l : List TaskRecord) (t : List String × Table String TaskRecord),
      (l.foldl loadRecord t).1.length ≤ t.1.length + l.length := by
    intro l
    induction l with
    | nil => exact fun _ => le_refl _
    | cons r l ih =>
      intro t
      refine (ih _).trans ?_
      rw [loadRecord]
      dsimp only
      split
      · simp only [List.length_cons]
        omega
      · simp only [List.length_append, List.length_cons, List.length_nil]
        omega
  simpa [loadHistory] using hfold l ([], ∅)

/-- A cut. -/
theorem Uncut.saveHistory {result : SaveResult} (hn : historyMax ≤ n) (h : Uncut n s) :
    History n (s.saveHistory result) := by
  have hlisted := @listed_saveHistory s result h.keyed
  have hlen : (newest historyMax TaskRecord.startedAt s.listed).length ≤ historyMax := by
    rw [length_newest]
    exact Nat.min_le_left _ _
  refine ⟨h.keyed, ?_, ?_, ?_, ?_, ?_⟩
  · intro id hid
    obtain ⟨r, hr, rfl⟩ := List.mem_map.mp hid
    obtain ⟨id, -, hget⟩ := mem_listed.mp (mem_of_newest hr)
    exact ⟨r, by rw [h.keyed id r hget]; exact hget⟩
  · refine nodup_newest ?_
    rw [map_taskId_listed h.keyed h.known]
    exact h.nodup
  · change (List.map _ _).length ≤ n
    rw [List.length_map]
    exact hlen.trans hn
  · intro id r hr hid
    rw [hlisted]
    change (List.map _ _).length = _ ∧ _
    rw [List.length_map]
    by_cases hold : id ∈ s.tasks
    · -- it is this cut that takes the record away
      have hmem : r ∈ s.listed := mem_listed.mpr ⟨id, hold, hr⟩
      have hcut : r ∉ newest historyMax TaskRecord.startedAt s.listed := fun hmem =>
        hid (h.keyed id r hr ▸ List.mem_map_of_mem hmem)
      refine ⟨?_, fun r' hr' => le_of_cut hmem hcut hr'⟩
      rw [length_newest]
      by_contra hshort
      exact hcut (newest_of_le (by omega) hmem)
    · have hcount := h.outranked id r hr hold
      refine ⟨?_, fun r' hr' => le_of_newest hcount hr'⟩
      rw [length_newest]
      exact Nat.min_eq_left (hcount.trans List.countP_le_length)
  · cases result with
    | saved => exact (length_loadHistory_le _).trans (hlen.trans hn)
    | notOpened => exact h.file
    | torn => exact Nat.zero_le _

end Listed

/-! ## Every step -/

section Steps
variable {n : Nat} {cfg : McpConfig} {s s' s₁ : ServerState} {id : String} {w : Worker}
  {r : TaskRecord} {o : Outcome}

/-- What was read from a file. -/
structure Loaded (t : List String × Table String TaskRecord) : Prop where
  keyed : ∀ id r, t.2.get id = some r → r.taskId = id
  known : ∀ id, id ∈ t.1 ↔ ∃ r, t.2.get id = some r
  nodup : t.1.Nodup

theorem loaded_nil : Loaded ([], ∅) where
  keyed id r hr := by cases hr
  known id := by simp
  nodup := List.nodup_nil

theorem Loaded.record {t : List String × Table String TaskRecord} (h : Loaded t)
    (r : TaskRecord) : Loaded (loadRecord t r) where
  keyed id r' hr' := by
    rw [loadRecord, Table.get_put] at hr'
    split at hr'
    · next hid =>
      obtain rfl := Option.some.inj hr'
      exact hid.symm
    · exact h.keyed id r' hr'
  known id := by
    simp only [loadRecord, Table.get_put]
    by_cases hid : id = r.taskId
    · subst hid
      by_cases hmem : r.taskId ∈ t.1
      · simp [hmem]
      · simp [hmem]
    · by_cases hmem : r.taskId ∈ t.1
      · simp [hmem, hid, h.known id]
      · simp [hmem, hid, h.known id]
  nodup := by
    simp only [loadRecord]
    split
    · exact h.nodup
    · next hmem => exact List.nodup_append.mpr ⟨h.nodup, List.nodup_singleton _, by
        rintro a ha b hb rfl
        rw [List.mem_singleton] at hb
        exact hmem (hb ▸ ha)⟩

theorem loaded_loadHistory (f : HistoryFile) : Loaded (loadHistory f) := by
  cases f with
  | absent => exact loaded_nil
  | torn => exact loaded_nil
  | records l =>
    rw [loadHistory]
    generalize hstart : (([], ∅) : List String × Table String TaskRecord) = t
    have ht : Loaded t := hstart ▸ loaded_nil
    clear hstart
    induction l generalizing t with
    | nil => exact ht
    | cons r l ih => exact ih _ (ht.record r)

theorem history_restart (hfile : (loadHistory s.historyFile).1.length ≤ n) :
    History n (restart s) where
  keyed := (loaded_loadHistory s.historyFile).keyed
  known id hid := ((loaded_loadHistory s.historyFile).known id).mp hid
  nodup := (loaded_loadHistory s.historyFile).nodup
  short := hfile
  recent id r hr hid := absurd (((loaded_loadHistory s.historyFile).known id).mpr ⟨r, hr⟩) hid
  file := hfile

/-- A record comes in. -/
theorem uncut_insert {a : Accepted} {now : String} (h : History n s)
    (hfresh : s.objects.get id = none) : Uncut n { s with
      tasks := s.tasks ++ [id]
      objects := s.objects.put id
        ⟨id, a.taskName, .queued, none, now, none, a.cwdPath, a.args, a.dependsOn⟩
      workers := s.workers.put id ⟨a.commands, .created⟩ } := by
  have hnot : id ∉ s.tasks := fun hmem => by
    obtain ⟨r, hr⟩ := h.known id hmem
    rw [hfresh] at hr
    cases hr
  have hgone := h.uncut.outranked
  refine ⟨?_, ?_, ?_, ?_, h.file⟩
  · intro j r hr
    dsimp only at hr
    rw [Table.get_put] at hr
    split at hr
    · next hj =>
      obtain rfl := Option.some.inj hr
      exact hj.symm
    · exact h.keyed j r hr
  · intro j hj
    dsimp only at hj ⊢
    rw [Table.get_put]
    split
    · exact ⟨_, rfl⟩
    · next hne =>
      exact h.known j ((List.mem_append.mp hj).resolve_right fun hj => hne (List.mem_singleton.mp hj))
  · exact List.nodup_append.mpr ⟨h.nodup, List.nodup_singleton _, by
      rintro a ha b hb rfl
      rw [List.mem_singleton] at hb
      exact hnot (hb ▸ ha)⟩
  · intro j r hr hj
    dsimp only at hr
    have hne : j ≠ id := by
      rintro rfl
      exact hj (List.mem_append_right _ (List.mem_singleton.mpr rfl))
    rw [Table.get_put, if_neg hne] at hr
    refine (hgone j r hr fun hmem => hj (List.mem_append_left _ hmem)).trans ?_
    have hold : s.tasks.filterMap (s.objects.put id ⟨id, a.taskName, .queued, none, now, none,
        a.cwdPath, a.args, a.dependsOn⟩).get = s.tasks.filterMap s.objects.get := by
      refine List.filterMap_congr fun k hk => ?_
      have hne : k ≠ id := by
        rintro rfl
        exact hnot hk
      rw [Table.get_put, if_neg hne]
    rw [ServerState.listed, ServerState.listed, List.filterMap_append, hold, List.countP_append]
    exact Nat.le_add_right _ _

/-- A record changes in its place. -/
theorem history_record {r' : TaskRecord} (hr : s.objects.get id = some r)
    (hprogressed : Progressed r r')
    (hobjects : ∀ j, s'.objects.get j = if j = id then some r' else s.objects.get j)
    (htasks : s'.tasks = s.tasks) (hfile : s'.historyFile = s.historyFile) (h : History n s) :
    History n s' := by
  have hback : ∀ j rj, s'.objects.get j = some rj → ∃ rj₀, s.objects.get j = some rj₀ ∧
      rj.taskId = rj₀.taskId ∧ rj.startedAt = rj₀.startedAt := by
    intro j rj hj
    rw [hobjects] at hj
    split at hj
    · next heq =>
      obtain rfl := Option.some.inj hj
      exact ⟨r, heq ▸ hr, hprogressed.taskId, hprogressed.startedAt⟩
    · exact ⟨rj, hj, rfl, rfl⟩
  refine ⟨?_, ?_, htasks ▸ h.nodup, htasks ▸ h.short, ?_, hfile ▸ h.file⟩
  · intro j rj hj
    obtain ⟨rj₀, hj₀, hid, -⟩ := hback j rj hj
    exact hid.trans (h.keyed j rj₀ hj₀)
  · intro j hj
    rw [hobjects]
    split
    · exact ⟨r', rfl⟩
    · exact h.known j (htasks ▸ hj)
  · intro j rj hj hgone
    obtain ⟨rj₀, hj₀, -, hstart⟩ := hback j rj hj
    obtain ⟨hlen, hle⟩ := h.recent j rj₀ hj₀ (htasks ▸ hgone)
    refine ⟨htasks ▸ hlen, fun rk hk => ?_⟩
    obtain ⟨k, hmem, hget⟩ := mem_listed.mp hk
    obtain ⟨rk₀, hget₀, -, hstartk⟩ := hback k rk hget
    rw [hstart, hstartk]
    exact hle rk₀ (mem_listed.mpr ⟨k, htasks ▸ hmem, hget₀⟩)

theorem History.congr (h : History n s) (hobjects : s'.objects = s.objects)
    (htasks : s'.tasks = s.tasks) (hfile : s'.historyFile = s.historyFile) : History n s' := by
  refine ⟨hobjects ▸ h.keyed, ?_, htasks ▸ h.nodup, htasks ▸ h.short, ?_, hfile ▸ h.file⟩
  · rw [htasks, hobjects]
    exact h.known
  · rw [ServerState.listed, htasks, hobjects]
    exact h.recent

/-- A step of a thread may end with a cut. -/
theorem threadStep_saves :
    ((threadStep s id w r o).tasks = s.tasks ∧
      (threadStep s id w r o).historyFile = s.historyFile) ∨
    ∃ s₁ : ServerState, threadStep s id w r o = (s₁.saveHistory o.save).setPhase id .ended ∧
      s₁.tasks = s.tasks ∧ s₁.historyFile = s.historyFile := by
  obtain ⟨commands, ph⟩ := w
  unfold threadStep
  cases ph with
  | failing reason =>
    refine .inr ⟨_, rfl, ?_, ?_⟩ <;> rfl
  | finishing code =>
    refine .inr ⟨_, rfl, ?_, ?_⟩ <;> rfl
  | created =>
    by_cases htask : id ∈ s.tasks
    · simp only [if_pos htask]
      exact .inl ⟨rfl, rfl⟩
    · simp only [if_neg htask]
      exact .inl ⟨rfl, rfl⟩
  | scanning all rest =>
    cases rest with
    | nil => exact .inl ⟨rfl, rfl⟩
    | cons dep rest =>
      obtain ⟨d, _ | _⟩ := dep
      · exact .inl ⟨rfl, rfl⟩
      · dsimp only
        split <;> exact .inl ⟨rfl, rfl⟩
  | confirming rest =>
    cases rest with
    | nil => exact .inl ⟨rfl, rfl⟩
    | cons dep rest =>
      dsimp only
      split <;> exact .inl ⟨rfl, rfl⟩
  | commands rest => cases rest <;> exact .inl ⟨rfl, rfl⟩
  | command cmd rest =>
    dsimp only
    split <;> exact .inl ⟨rfl, rfl⟩
  | opening => exact .inl ⟨rfl, rfl⟩
  | looking => exact .inl ⟨rfl, rfl⟩
  | satisfied => exact .inl ⟨rfl, rfl⟩
  | ended => exact .inl ⟨rfl, rfl⟩
  | dead => exact .inl ⟨rfl, rfl⟩

theorem history_step {m : Move} (hn : historyMax ≤ n) (hgood : Good s) (h : History n s)
    (hstep : step cfg s m = some s') : History n s' := by
  cases step_cases hstep with
  | accepted => exact h.congr rfl rfl rfl
  | refused => exact h
  | @inserted i id now result a _ hfresh =>
    have h₁ : History n { s with accepted := s.accepted.eraseIdx i } := h.congr rfl rfl rfl
    have h₂ := @uncut_insert n _ id a now h₁ hfresh.1
    exact h₂.saveHistory hn
  | @threaded id o w r hw hr =>
    obtain ⟨w', r', heff⟩ := hgood.thread hw hr
    obtain ⟨htasks, hfile⟩ | ⟨s₁, heq, htasks, hfile⟩ :=
      @threadStep_saves s id w r o
    · exact history_record hr heff.later heff.objects htasks hfile h
    · have hobjects := heff.objects
      rw [heq] at hobjects ⊢
      have h₁ : History n s₁ := history_record hr heff.later hobjects htasks hfile h
      exact (h₁.uncut.saveHistory hn).congr rfl rfl rfl
  | died => exact h.congr rfl rfl rfl
  | restarted => exact history_restart h.file

end Steps

/-- From the start of a process on, whatever follows: no id stands twice in the dictionary,
it never holds more than `HISTORY_MAX` records or what was read at the start, and once a
record has left it, it holds exactly `HISTORY_MAX`, none of them started before that one. -/
theorem history_most_recent {cfg : McpConfig} {s₀ s : ServerState} {ms : List Move}
    (hrun : moves (step cfg) ms (restart s₀) = some s) :
    s.tasks.Nodup ∧ s.tasks.length ≤ max historyMax (restart s₀).tasks.length ∧
    (∀ id ∈ s.tasks, ∃ r, s.objects.get id = some r ∧ r.taskId = id) ∧
    ∀ id r, s.objects.get id = some r → id ∉ s.tasks → s.tasks.length = historyMax ∧
      ∀ id' ∈ s.tasks, ∀ r', s.objects.get id' = some r' → r.startedAt ≤ r'.startedAt := by
  obtain ⟨-, h⟩ : Good s ∧ History (max historyMax (restart s₀).tasks.length) s :=
    moves_inv (I := fun s => Good s ∧ History (max historyMax (restart s₀).tasks.length) s)
      (fun s m s' h hstep => ⟨good_step m h.1 hstep,
      history_step (Nat.le_max_left _ _) h.1 h.2 hstep⟩)
      ⟨good_restart s₀, history_restart (Nat.le_max_right _ _)⟩ hrun
  refine ⟨h.nodup, h.short, fun id hid => ?_, fun id r hr hgone => ?_⟩
  · obtain ⟨r, hr⟩ := h.known id hid
    exact ⟨r, hr, h.keyed id r hr⟩
  · obtain ⟨hlen, hle⟩ := h.recent id r hr hgone
    exact ⟨hlen, fun id' hid' r' hr' => hle r' (mem_listed.mpr ⟨id', hid', hr'⟩)⟩

/-- A time with three digits, and a task that is queued at it. -/
def sampleTime (n : Nat) : String := toString (100 + n)

def queueBuild (n : Nat) : List Move :=
  [.enqueue ⟨"build", [], none, []⟩, .insert 0 ("t" ++ sampleTime n) (sampleTime n) .saved]

/-- The dictionary is full, and one more task comes. -/
theorem sample_full : (moves (step sampleMcp) (queueBuild 0) (restart emptyServer)).any (fun s =>
    (taskStatus s "t100").isSome &&
      (moves (step sampleMcp) ((List.range 20).flatMap fun n => queueBuild (n + 1)) s).any fun s' =>
        (s'.objects.get "t100").isSome && decide ("t100" ∉ s'.tasks)) = true := by decide +kernel

theorem sample_most_recent : ∃ s r, moves (step sampleMcp)
      (queueBuild 0 ++ (List.range 20).flatMap fun n => queueBuild (n + 1))
      (restart emptyServer) = some s ∧ s.objects.get "t100" = some r ∧
    s.tasks.length = historyMax ∧ ∀ id' ∈ s.tasks, ∀ r', s.objects.get id' = some r' →
      r.startedAt ≤ r'.startedAt := by
  obtain ⟨s, hrun, hall⟩ := (Option.any_eq_true _ _).mp sample_full
  obtain ⟨s', hrun', hall'⟩ := (Option.any_eq_true _ _).mp (Bool.and_eq_true _ _ ▸ hall).2
  simp only [Bool.and_eq_true, decide_eq_true_eq, Option.isSome_iff_exists] at hall'
  obtain ⟨⟨r, hr⟩, hgone⟩ := hall'
  exact ⟨s', r, moves_append hrun hrun', hr,
    (history_most_recent (moves_append hrun hrun')).2.2.2 "t100" r hr hgone⟩

/-! ## From one state to a later one -/

def Move.isRestart : Move → Bool
  | .restart => true
  | _ => false

/-- A record goes on, and what has left the dictionary stays out of it. -/
structure Onward (s s' : ServerState) : Prop where
  record : ∀ id r, s.objects.get id = some r → ∃ r', s'.objects.get id = some r' ∧ Progressed r r'
  gone : ∀ id r, s.objects.get id = some r → id ∉ s.tasks → id ∉ s'.tasks

theorem Onward.refl (s : ServerState) : Onward s s :=
  ⟨fun _ r hr => ⟨r, hr, .refl r⟩, fun _ _ _ h => h⟩

theorem Onward.trans {s t u : ServerState} (h : Onward s t) (h' : Onward t u) : Onward s u where
  record id r hr := by
    obtain ⟨r', hr', hprogressed⟩ := h.record id r hr
    obtain ⟨r'', hr'', hprogressed'⟩ := h'.record id r' hr'
    exact ⟨r'', hr'', hprogressed.trans hprogressed'⟩
  gone id r hr hid := by
    obtain ⟨r', hr', -⟩ := h.record id r hr
    exact h'.gone id r' hr' (h.gone id r hr hid)

section Onwards
variable {cfg : McpConfig} {n : Nat} {s s' : ServerState} {m : Move}

theorem tasks_saveHistory {result : SaveResult}
    (hkeyed : ∀ id r, s.objects.get id = some r → r.taskId = id) :
    (s.saveHistory result).tasks ⊆ s.tasks := by
  intro id hid
  obtain ⟨r, hr, rfl⟩ := List.mem_map.mp hid
  obtain ⟨id, hid, hget⟩ := mem_listed.mp (mem_of_newest hr)
  rwa [hkeyed id r hget]

theorem onward_congr (hobjects : s'.objects = s.objects) (htasks : s'.tasks = s.tasks) :
    Onward s s' :=
  ⟨fun _ r hr => ⟨r, hobjects ▸ hr, .refl r⟩, fun _ _ _ h => htasks ▸ h⟩

theorem onward_insert {id now : String} {a : Accepted} {result : SaveResult} (h : History n s)
    (hfresh : s.objects.get id = none) : Onward s (insertTask s id a now result) := by
  have hne : ∀ j r, s.objects.get j = some r → j ≠ id := by
    rintro j r hr rfl
    rw [hfresh] at hr
    cases hr
  refine ⟨fun j r hr => ⟨r, ?_, .refl r⟩, fun j r hr hj hmem => ?_⟩
  · rw [insertTask_objects, Table.get_put, if_neg (hne j r hr), hr]
  · have huncut := @uncut_insert n s id a now h hfresh
    have hmem' := tasks_saveHistory huncut.keyed hmem
    rcases List.mem_append.mp hmem' with hmem' | hmem'
    · exact hj hmem'
    · exact hne j r hr (List.mem_singleton.mp hmem')

theorem onward_thread {id : String} {w w' : Worker} {r r' : TaskRecord} {o : Outcome}
    (h : History n s) (hr : s.objects.get id = some r)
    (heff : ThreadEffect s (threadStep s id w r o) id w r w' r') :
    Onward s (threadStep s id w r o) := by
  refine ⟨fun j rj hj => ?_, fun j rj hj hgone hmem => hgone ?_⟩
  · rw [heff.objects]
    split
    · next heq =>
      subst heq
      obtain rfl := Option.some.inj (hr.symm.trans hj)
      exact ⟨r', rfl, heff.later⟩
    · exact ⟨rj, hj, .refl rj⟩
  · obtain ⟨htasks, -⟩ | ⟨s₁, heq, htasks, hfile⟩ :=
      @threadStep_saves s id w r o
    · rwa [htasks] at hmem
    · have hobjects := heff.objects
      rw [heq] at hobjects hmem
      have h₁ : History n s₁ := history_record hr heff.later hobjects htasks hfile h
      rw [← htasks]
      exact @tasks_saveHistory s₁ o.save h₁.keyed j hmem

theorem onward_step (hgood : Good s) (h : History n s) (hm : m.isRestart = false)
    (hstep : step cfg s m = some s') : Onward s s' := by
  cases step_cases hstep with
  | accepted => exact onward_congr rfl rfl
  | refused => exact .refl s
  | @inserted i _ _ _ _ _ hfresh =>
    have h₁ : History n { s with accepted := s.accepted.eraseIdx i } := h.congr rfl rfl rfl
    have hfirst : Onward s { s with accepted := s.accepted.eraseIdx i } := onward_congr rfl rfl
    exact hfirst.trans (onward_insert h₁ hfresh.1)
  | threaded hw hr =>
    obtain ⟨w', r', heff⟩ := hgood.thread hw hr
    exact onward_thread h hr heff
  | died => exact onward_congr rfl rfl
  | restarted => cases hm

end Onwards

end Nightfall.Mcp
