import Mathlib.Data.String.Basic
import Nightfall.Core.Json
import Nightfall.Core.Moves
import Nightfall.Core.Recent
import Nightfall.Core.Table

/-!
# The task queue of the MCP server (`mcp_server.py`)

`ServerState` keeps the records of the tasks that were queued. Each task has a thread
that waits for the tasks it depends on and then runs the commands of its mapping. Calls
and threads run at once; a section under the lock and a line of the log are one step
each, and so is each look at the status of a dependency, which is outside the lock. A
record that `_save_history` takes out of the dictionary lives on in its thread.

What a command answers, the clock, a write that fails and an exception that ends a thread
are part of the move. `uuid.uuid4()` never gives an id twice. The proposals for
extensions, the environment of a command and `tail` are left out.

* `step`: what one call or thread does next; `restart` is a new process on the same disk.
* `commands_in_order`: a command runs only behind the successful end of everything its
  task depends on, in the order of the mapping, and none behind one that failed.
-/
namespace Nightfall.Mcp
open Nightfall.Core

/-! ## The server -/

/-- `completed` is read from old files only. -/
inductive TaskStatus where
  | queued | waiting | running | success | failed | completed
  deriving DecidableEq, Repr

/-- `status in ("success", "completed")` -/
def TaskStatus.done : TaskStatus → Bool
  | .success => true
  | .completed => true
  | _ => false

structure TaskRecord where
  taskId : String
  task : String
  status : TaskStatus
  exitCode : Option Int
  startedAt : String
  finishedAt : Option String
  cwd : String
  args : List Json
  dependsOn : List String

/-- `HISTORY_MAX` -/
def historyMax : Nat := 20

/-- What `history.json` holds; half a text is not read back. -/
inductive HistoryFile where
  | absent
  | torn
  | records (l : List TaskRecord)

/-- How `write_text` ends. -/
inductive SaveResult where
  | saved | notOpened | torn
  deriving DecidableEq, Repr

/-- A line of the log of a task. -/
inductive LogLine where
  /-- `[now] task=.. status=..` -/
  | header (now task : String) (status : TaskStatus)
  | failure (reason : String)
  /-- `[now] dependencies satisfied, running` -/
  | satisfied (now : String)
  /-- `$ cmd` -/
  | command (cmd : String)
  /-- `[warn] repo lock busy; continuing without exclusive lock` -/
  | lockBusy
  | output (text : String)
  /-- `error launching command: ..` -/
  | launchError
  /-- `command exited with code ..` -/
  | exited (code : Int)
  deriving DecidableEq, Repr

/-- Where a thread stands in `_run_task`. -/
inductive Phase where
  /-- before the first section under the lock -/
  | created
  /-- before the log is opened -/
  | opening
  /-- before the next look at the dependencies -/
  | looking
  /-- the first loop; the flag says whether the record was found -/
  | scanning (all rest : List (String × Bool))
  /-- the generator of `all_done` -/
  | confirming (rest : List (String × Bool))
  | failing (reason : String)
  | satisfied
  | commands (rest : List String)
  /-- a command runs -/
  | command (cmd : String) (rest : List String)
  | finishing (exitCode : Int)
  | ended
  /-- the thread ended with an exception -/
  | dead
  deriving DecidableEq, Repr

structure Worker where
  /-- `list(mapping)` -/
  commands : List String
  phase : Phase

/-- The arguments of `enqueue`. -/
structure TaskRequest where
  taskName : String
  args : List Json
  cwd : Option String
  dependsOn : List Json

/-- A call of `enqueue` past its checks. -/
structure Accepted where
  taskName : String
  args : List Json
  cwdPath : String
  dependsOn : List String
  commands : List String

/-- The `mappings` of the model that are lists of texts, and the workspace. -/
structure McpConfig where
  mappings : List (String × List String)
  workspaceRoot : String
  /-- `str((workspace_root / cwd).resolve())` -/
  resolve : String → String

structure ServerState where
  /-- the keys of `_tasks`, in order -/
  tasks : List String
  /-- every record of this process, in the dictionary or not -/
  objects : Table String TaskRecord
  accepted : List Accepted
  workers : Table String Worker
  logs : Table String (List LogLine)
  historyFile : HistoryFile

/-- What a step gets from outside. -/
structure Outcome where
  now : String
  save : SaveResult
  lockBusy : Bool
  output : List String
  launched : Bool
  exitCode : Int

inductive EnqueueError where
  | unknownMapping (taskName : String)
  | cwdOutside
  | dependencyNotString
  | dependencyNotFound (depId : String)
  deriving DecidableEq, Repr

namespace ServerState

def setRecord (s : ServerState) (id : String) (f : TaskRecord → TaskRecord) : ServerState :=
  { s with objects := s.objects.modify id f }

def setPhase (s : ServerState) (id : String) (phase : Phase) : ServerState :=
  { s with workers := s.workers.modify id fun w => { w with phase := phase } }

def write (s : ServerState) (id : String) (lines : List LogLine) : ServerState :=
  { s with logs := s.logs.put id ((s.logs.get id).getD [] ++ lines) }

/-- The records of the dictionary. -/
def listed (s : ServerState) : List TaskRecord := s.tasks.filterMap s.objects.get

/-- mirrors mcp_server.py:180-193 -/
def saveHistory (s : ServerState) (result : SaveResult) : ServerState :=
  let kept := newest historyMax TaskRecord.startedAt s.listed
  { s with
    tasks := kept.map TaskRecord.taskId
    historyFile := match result with
      | .saved => .records kept
      | .notOpened => s.historyFile
      | .torn => .torn }

end ServerState

/-- The first section under the lock of `enqueue`. -/
def checkDependencies (s : ServerState) : List Json → Except EnqueueError (List String)
  | [] => .ok []
  | .str depId :: rest =>
    if depId ∈ s.tasks then (checkDependencies s rest).map (depId :: ·)
    else .error (.dependencyNotFound depId)
  | _ :: _ => .error .dependencyNotString

/-- The checks of `enqueue`.
mirrors mcp_server.py:216-232 -/
def checkRequest (cfg : McpConfig) (s : ServerState) (req : TaskRequest) :
    Except EnqueueError Accepted :=
  match cfg.mappings.lookup req.taskName with
  | none => .error (.unknownMapping req.taskName)
  | some commands =>
    let cwdPath := (req.cwd.map cfg.resolve).getD cfg.workspaceRoot
    if ¬ cfg.workspaceRoot.toList <+: cwdPath.toList then .error .cwdOutside
    else (checkDependencies s req.dependsOn).map fun deps =>
      ⟨req.taskName, req.args, cwdPath, deps, commands⟩

/-- The new record, with its thread.
mirrors mcp_server.py:234-256 -/
def insertTask (s : ServerState) (id : String) (a : Accepted) (now : String)
    (result : SaveResult) : ServerState :=
  { s with
    tasks := s.tasks ++ [id]
    objects := s.objects.put id
      ⟨id, a.taskName, .queued, none, now, none, a.cwdPath, a.args, a.dependsOn⟩
    workers := s.workers.put id ⟨a.commands, .created⟩ }.saveHistory result

/-- What a command leaves in the log. -/
def commandLines (o : Outcome) : List LogLine :=
  (if o.lockBusy then [.lockBusy] else []) ++ o.output.map .output ++
    (if o.launched then [] else [.launchError])

/-- The code a command ends with. -/
def commandCode (o : Outcome) : Int := if o.launched then o.exitCode else 1

/-- The next step of the thread of a task.
mirrors mcp_server.py:258-352 -/
def threadStep (s : ServerState) (id : String) (w : Worker) (r : TaskRecord) (o : Outcome) :
    ServerState :=
  match w.phase with
  | .created =>
    if id ∈ s.tasks then
      (s.setRecord id fun r =>
        { r with status := if r.dependsOn = [] then .running else .waiting }).setPhase id .opening
    else s.setPhase id .dead
  | .opening =>
    { s with logs := s.logs.put id [.header o.now r.task r.status] }.setPhase id
      (if r.dependsOn = [] then .commands w.commands else .looking)
  | .looking =>
    let deps := r.dependsOn.map fun d => (d, decide (d ∈ s.tasks))
    s.setPhase id (.scanning deps deps)
  | .scanning _ ((d, false) :: _) => s.setPhase id (.failing ("dependency missing: " ++ d))
  | .scanning all ((d, true) :: rest) =>
    if (s.objects.get d).map TaskRecord.status = some .failed then
      s.setPhase id (.failing ("dependency failed: " ++ d))
    else s.setPhase id (.scanning all rest)
  | .scanning all [] => s.setPhase id (.confirming all)
  | .confirming ((d, _) :: rest) =>
    if (s.objects.get d).any fun r => r.status.done then s.setPhase id (.confirming rest)
    else s.setPhase id .looking
  | .confirming [] => s.setPhase id .satisfied
  | .failing reason =>
    (((s.write id [.failure reason]).setRecord id fun r =>
      { r with status := .failed, exitCode := some 1, finishedAt := some o.now }).saveHistory
        o.save).setPhase id .ended
  | .satisfied =>
    ((s.setRecord id fun r => { r with status := .running }).write id
      [.satisfied o.now]).setPhase id (.commands w.commands)
  | .commands [] => s.setPhase id (.finishing 0)
  | .commands (cmd :: rest) => (s.write id [.command cmd]).setPhase id (.command cmd rest)
  | .command _ rest =>
    if commandCode o = 0 then (s.write id (commandLines o)).setPhase id (.commands rest)
    else (s.write id (commandLines o ++ [.exited (commandCode o)])).setPhase id
      (.finishing (commandCode o))
  | .finishing code =>
    ((s.setRecord id fun r =>
      { r with
        status := if code = 0 then .success else .failed
        exitCode := some code
        finishedAt := some o.now }).saveHistory o.save).setPhase id .ended
  | .ended => s
  | .dead => s

/-- `self._tasks[r["taskId"]] = r` -/
def loadRecord (t : List String × Table String TaskRecord) (r : TaskRecord) :
    List String × Table String TaskRecord :=
  (if r.taskId ∈ t.1 then t.1 else t.1 ++ [r.taskId], t.2.put r.taskId r)

/-- mirrors mcp_server.py:158-168 -/
def loadHistory : HistoryFile → List String × Table String TaskRecord
  | .records l => l.foldl loadRecord ([], ∅)
  | .absent => ([], ∅)
  | .torn => ([], ∅)

/-- A new process; the threads of the old one are daemons. -/
def restart (s : ServerState) : ServerState where
  tasks := (loadHistory s.historyFile).1
  objects := (loadHistory s.historyFile).2
  accepted := []
  workers := ∅
  logs := s.logs
  historyFile := s.historyFile

inductive Move where
  /-- `enqueue` up to the end of its first section under the lock -/
  | enqueue (req : TaskRequest)
  /-- the rest of the `i`-th call that waits -/
  | insert (i : Nat) (id now : String) (result : SaveResult)
  | thread (id : String) (o : Outcome)
  /-- an exception in a thread -/
  | die (id : String)
  | restart

/-- `uuid.uuid4()` -/
def Fresh (s : ServerState) (id : String) : Prop :=
  s.objects.get id = none ∧ s.workers.get id = none ∧ s.logs.get id = none

instance (s : ServerState) (id : String) : Decidable (Fresh s id) :=
  inferInstanceAs (Decidable (_ = none ∧ _ = none ∧ _ = none))

def step (cfg : McpConfig) (s : ServerState) : Move → Option ServerState
  | .enqueue req =>
    match checkRequest cfg s req with
    | .ok a => some { s with accepted := s.accepted ++ [a] }
    | .error _ => some s
  | .insert i id now result =>
    match s.accepted[i]? with
    | none => none
    | some a =>
      if Fresh s id then
        some (insertTask { s with accepted := s.accepted.eraseIdx i } id a now result)
      else none
  | .thread id o =>
    match s.workers.get id, s.objects.get id with
    | some w, some r => some (threadStep s id w r o)
    | _, _ => none
  | .die id => if (s.workers.get id).isSome then some (s.setPhase id .dead) else none
  | .restart => some (restart s)

/-- What `task_status` finds under the lock. -/
def taskStatus (s : ServerState) (id : String) : Option TaskRecord :=
  if id ∈ s.tasks then s.objects.get id else none

/-! ## What a step leaves alone -/

def TaskStatus.rank : TaskStatus → Nat
  | .queued => 0
  | .waiting => 1
  | .running => 2
  | _ => 3

/-- A record at a later time: a status does not go back, and one of a task that has ended
stays as it is. -/
structure Progressed (r r' : TaskRecord) : Prop where
  taskId : r'.taskId = r.taskId
  task : r'.task = r.task
  startedAt : r'.startedAt = r.startedAt
  dependsOn : r'.dependsOn = r.dependsOn
  rank : r.status.rank ≤ r'.status.rank
  ended : r.status.rank = 3 → r' = r
  exitCode : r.exitCode ≠ none → r'.exitCode = r.exitCode
  finishedAt : r.finishedAt ≠ none → r'.finishedAt = r.finishedAt
  /-- the last two are set at the end -/
  goesOn : r'.status.rank < 3 → r'.exitCode = r.exitCode ∧ r'.finishedAt = r.finishedAt

theorem Progressed.refl (r : TaskRecord) : Progressed r r :=
  ⟨rfl, rfl, rfl, rfl, le_refl _, fun _ => rfl, fun _ => rfl, fun _ => rfl, fun _ => ⟨rfl, rfl⟩⟩

theorem Progressed.trans {r r' r'' : TaskRecord} (h : Progressed r r') (h' : Progressed r' r'') :
    Progressed r r'' where
  taskId := h'.taskId.trans h.taskId
  task := h'.task.trans h.task
  startedAt := h'.startedAt.trans h.startedAt
  dependsOn := h'.dependsOn.trans h.dependsOn
  rank := h.rank.trans h'.rank
  ended hr := by
    obtain rfl := h.ended hr
    exact h'.ended hr
  exitCode hr := (h'.exitCode (h.exitCode hr ▸ hr)).trans (h.exitCode hr)
  finishedAt hr := (h'.finishedAt (h.finishedAt hr ▸ hr)).trans (h.finishedAt hr)
  goesOn hr :=
    have hmid := h.goesOn (h'.rank.trans_lt hr)
    ⟨(h'.goesOn hr).1.trans hmid.1, (h'.goesOn hr).2.trans hmid.2⟩

/-- A task without an end shows no sign of one. -/
def TaskRecord.Unmarked (r : TaskRecord) : Prop :=
  r.status.rank < 3 → r.exitCode = none ∧ r.finishedAt = none

theorem Progressed.unmarked {r r' : TaskRecord} (h : Progressed r r') (hr : r.Unmarked) :
    r'.Unmarked := by
  intro hlt
  obtain ⟨hexit, hfinished⟩ := hr (h.rank.trans_lt hlt)
  exact ⟨(h.goesOn hlt).1.trans hexit, (h.goesOn hlt).2.trans hfinished⟩

theorem progressed_status {r : TaskRecord} {st st' : TaskStatus} (h : r.status = st)
    (hlt : st.rank < 3) (hle : st.rank ≤ st'.rank) : Progressed r { r with status := st' } := by
  subst h
  exact ⟨rfl, rfl, rfl, rfl, hle, fun h => absurd h (Nat.ne_of_lt hlt), fun _ => rfl, fun _ => rfl,
    fun _ => ⟨rfl, rfl⟩⟩

/-- The end of a task. -/
theorem progressed_ended {r : TaskRecord} {st st' : TaskStatus} {code : Int} {now : String}
    (hr : r.Unmarked) (h : r.status = st) (hlt : st.rank < 3) (hend : st'.rank = 3) :
    Progressed r { r with status := st', exitCode := some code, finishedAt := some now } := by
  subst h
  obtain ⟨hexit, hfinished⟩ := hr hlt
  refine ⟨rfl, rfl, rfl, rfl, ?_, fun h => absurd h (Nat.ne_of_lt hlt), fun h => absurd hexit h,
    fun h => absurd hfinished h, fun h => ?_⟩
  · rw [hend]
    exact hlt.le
  · rw [hend] at h
    exact absurd h (Nat.lt_irrefl 3)

theorem rank_of_done {st : TaskStatus} (h : st.done = true) : st.rank = 3 := by
  cases st <;> first | rfl | cases h

theorem Progressed.done {r r' : TaskRecord} (h : Progressed r r') (hd : r.status.done = true) :
    r'.status.done = true := by
  rw [h.ended (rank_of_done hd)]
  exact hd

/-- The status a thread leaves its record with. -/
def Phase.Allows (r : TaskRecord) : Phase → Prop
  | .created => r.status = .queued
  | .opening => r.status = if r.dependsOn = [] then .running else .waiting
  | .looking => r.status = .waiting
  | .scanning _ _ => r.status = .waiting
  | .confirming _ => r.status = .waiting
  | .failing _ => r.status = .waiting
  | .satisfied => r.status = .waiting
  | .commands _ => r.status = .running
  | .command _ _ => r.status = .running
  | .finishing _ => r.status = .running
  | .ended => r.status.rank = 3
  | .dead => True

def logOf (s : ServerState) (id : String) : List LogLine := (s.logs.get id).getD []

/-! ## The log of a task -/

def LogLine.cmd? : LogLine → Option String
  | .command cmd => some cmd
  | _ => none

/-- The commands that were started, in order. -/
def commandsOf (log : List LogLine) : List String := log.filterMap LogLine.cmd?

/-- No command ended with another code than 0. -/
def NoExit (log : List LogLine) : Prop := ∀ code, LogLine.exited code ∉ log

@[simp] theorem commandsOf_nil : commandsOf [] = [] := rfl

@[simp] theorem commandsOf_append (l l' : List LogLine) :
    commandsOf (l ++ l') = commandsOf l ++ commandsOf l' := List.filterMap_append

theorem commandsOf_commandLines (o : Outcome) : commandsOf (commandLines o) = [] := by
  rw [commandsOf, List.filterMap_eq_nil_iff]
  intro line hline
  simp only [commandLines, List.mem_append, List.mem_map] at hline
  obtain (hline | ⟨text, -, rfl⟩) | hline := hline
  · split at hline
    · rw [List.mem_singleton.mp hline]
      rfl
    · cases hline
  · rfl
  · split at hline
    · cases hline
    · rw [List.mem_singleton.mp hline]
      rfl

theorem noExit_nil : NoExit [] := fun _ => List.not_mem_nil

theorem noExit_append {l l' : List LogLine} (h : NoExit l) (h' : NoExit l') : NoExit (l ++ l') :=
  fun code hmem => (List.mem_append.mp hmem).elim (h code) (h' code)

theorem noExit_singleton {line : LogLine} (h : ∀ code, line ≠ .exited code) : NoExit [line] :=
  fun code hmem => h code (List.mem_singleton.mp hmem).symm

theorem noExit_commandLines (o : Outcome) : NoExit (commandLines o) := by
  intro code hmem
  simp only [commandLines, List.mem_append, List.mem_map] at hmem
  obtain (hmem | ⟨text, -, hmem⟩) | hmem := hmem
  · split at hmem
    · cases List.mem_singleton.mp hmem
    · cases hmem
  · cases hmem
  · split at hmem
    · cases hmem
    · cases List.mem_singleton.mp hmem

theorem NoExit.dropLast {l : List LogLine} (h : NoExit l) : NoExit l.dropLast :=
  fun code hmem => h code (List.dropLast_subset l hmem)

def DoneIn (s : ServerState) (d : String) : Prop :=
  ∃ r, s.objects.get d = some r ∧ r.status.done = true

def DepsDone (s : ServerState) (r : TaskRecord) : Prop := ∀ d ∈ r.dependsOn, DoneIn s d

/-- What the log of a task says about its commands. -/
structure Orderly (s : ServerState) (log : List LogLine) (commands : List String)
    (r : TaskRecord) : Prop where
  deps : commandsOf log ≠ [] → DepsDone s r
  inOrder : commandsOf log <+: commands
  exitLast : NoExit log.dropLast
  complete : r.status.done = true → DepsDone s r ∧ NoExit log ∧ commandsOf log = commands

/-- What is known where a thread stands. -/
def Phase.Facts (s : ServerState) (log : List LogLine) (commands : List String)
    (r : TaskRecord) : Phase → Prop
  | .created => log = []
  | .opening => log = []
  | .looking => commandsOf log = [] ∧ NoExit log
  | .scanning all _ => commandsOf log = [] ∧ NoExit log ∧ all.map Prod.fst = r.dependsOn
  | .confirming rest => commandsOf log = [] ∧ NoExit log ∧
      ∃ looked, r.dependsOn = looked ++ rest.map Prod.fst ∧ ∀ d ∈ looked, DoneIn s d
  | .failing _ => commandsOf log = [] ∧ NoExit log
  | .satisfied => commandsOf log = [] ∧ NoExit log ∧ DepsDone s r
  | .commands rest => NoExit log ∧ DepsDone s r ∧ commandsOf log ++ rest = commands
  | .command _ rest => NoExit log ∧ DepsDone s r ∧ commandsOf log ++ rest = commands
  | .finishing code => NoExit log.dropLast ∧ DepsDone s r ∧ commandsOf log <+: commands ∧
      (code = 0 → NoExit log ∧ commandsOf log = commands)
  | .ended => Orderly s log commands r
  | .dead => Orderly s log commands r

/-- Before the first command. -/
theorem orderly_silent {s : ServerState} {log : List LogLine} {commands : List String}
    {r : TaskRecord} (hcmds : commandsOf log = []) (hexit : NoExit log)
    (hst : r.status.done = false) : Orderly s log commands r where
  deps h := absurd hcmds h
  inOrder := hcmds ▸ List.nil_prefix
  exitLast := hexit.dropLast
  complete h := by rw [hst] at h; cases h

theorem orderly_of_facts {s : ServerState} {log : List LogLine} {commands : List String}
    {r : TaskRecord} {ph : Phase} (hallows : ph.Allows r) (h : ph.Facts s log commands r) :
    Orderly s log commands r := by
  cases ph with
  | created =>
    subst h
    exact orderly_silent rfl noExit_nil (by rw [hallows]; rfl)
  | opening =>
    subst h
    refine orderly_silent rfl noExit_nil ?_
    rw [hallows]
    split <;> rfl
  | looking => exact orderly_silent h.1 h.2 (by rw [hallows]; rfl)
  | scanning all rest => exact orderly_silent h.1 h.2.1 (by rw [hallows]; rfl)
  | confirming rest => exact orderly_silent h.1 h.2.1 (by rw [hallows]; rfl)
  | failing reason => exact orderly_silent h.1 h.2 (by rw [hallows]; rfl)
  | satisfied => exact orderly_silent h.1 h.2.1 (by rw [hallows]; rfl)
  | commands rest =>
    obtain ⟨hexit, hdeps, hcmds⟩ := h
    exact ⟨fun _ => hdeps, ⟨rest, hcmds⟩, hexit.dropLast, fun hd => by rw [hallows] at hd; cases hd⟩
  | command cmd rest =>
    obtain ⟨hexit, hdeps, hcmds⟩ := h
    exact ⟨fun _ => hdeps, ⟨rest, hcmds⟩, hexit.dropLast, fun hd => by rw [hallows] at hd; cases hd⟩
  | finishing code =>
    obtain ⟨hexit, hdeps, hcmds, -⟩ := h
    exact ⟨fun _ => hdeps, hcmds, hexit, fun hd => by rw [hallows] at hd; cases hd⟩
  | ended => exact h
  | dead => exact h

/-- What is done stays done: then the facts stay. -/
theorem Phase.Facts.mono {s s' : ServerState} {log : List LogLine} {commands : List String}
    {r : TaskRecord} {ph : Phase} (hdone : ∀ d, DoneIn s d → DoneIn s' d)
    (h : ph.Facts s log commands r) : ph.Facts s' log commands r := by
  have hdeps : DepsDone s r → DepsDone s' r := fun h d hd => hdone d (h d hd)
  have horderly : Orderly s log commands r → Orderly s' log commands r := fun h =>
    ⟨hdeps ∘ h.deps, h.inOrder, h.exitLast, fun hd => (h.complete hd).imp_left hdeps⟩
  cases ph with
  | confirming rest =>
    obtain ⟨hcmds, hexit, looked, heq, hlooked⟩ := h
    exact ⟨hcmds, hexit, looked, heq, fun d hd => hdone d (hlooked d hd)⟩
  | satisfied => exact ⟨h.1, h.2.1, hdeps h.2.2⟩
  | commands rest => exact ⟨h.1, hdeps h.2.1, h.2.2⟩
  | command cmd rest => exact ⟨h.1, hdeps h.2.1, h.2.2⟩
  | finishing code => exact ⟨h.1, hdeps h.2.1, h.2.2⟩
  | ended => exact horderly h
  | dead => exact horderly h
  | created => exact h
  | opening => exact h
  | looking => exact h
  | scanning all rest => exact h
  | failing reason => exact h

/-! ## One step of a thread -/

/-- A thread as it should be. -/
structure Consistent (s : ServerState) (id : String) (w : Worker) (r : TaskRecord) : Prop where
  allows : w.phase.Allows r
  facts : w.phase.Facts s (logOf s id) w.commands r
  unmarked : r.Unmarked

/-- What one step of the thread of `id` does to the server. -/
structure ThreadEffect (s s' : ServerState) (id : String) (w : Worker) (r : TaskRecord)
    (w' : Worker) (r' : TaskRecord) : Prop where
  objects : ∀ j, s'.objects.get j = if j = id then some r' else s.objects.get j
  workers : ∀ j, s'.workers.get j = if j = id then some w' else s.workers.get j
  logs : ∀ j, j ≠ id → s'.logs.get j = s.logs.get j
  accepted : s'.accepted = s.accepted
  commands : w'.commands = w.commands
  later : Progressed r r'
  consistent : Consistent s' id w' r'

section Effects
variable {s s' : ServerState} {id : String} {w : Worker} {r : TaskRecord} {o : Outcome}

theorem doneIn_of_objects {r' : TaskRecord} (hr : s.objects.get id = some r)
    (hprogressed : Progressed r r')
    (ho : ∀ j, s'.objects.get j = if j = id then some r' else s.objects.get j) {d : String}
    (h : DoneIn s d) : DoneIn s' d := by
  obtain ⟨rd, hget, hdone⟩ := h
  by_cases hd : d = id
  · subst hd
    obtain rfl := Option.some.inj (hr.symm.trans hget)
    exact ⟨r', by rw [ho, if_pos rfl], hprogressed.done hdone⟩
  · exact ⟨rd, by rw [ho, if_neg hd, hget], hdone⟩

theorem effect_of {r' : TaskRecord} {ph : Phase} {log : List LogLine}
    (hw : s.workers.get id = some w) (hr : s.objects.get id = some r) (hmark : r.Unmarked)
    (ho : ∀ j, s'.objects.get j = if j = id then some r' else s.objects.get j)
    (hws : s'.workers = s.workers.modify id fun w => { w with phase := ph })
    (hl : ∀ j, j ≠ id → s'.logs.get j = s.logs.get j) (hlog : logOf s' id = log)
    (ha : s'.accepted = s.accepted) (hprogressed : Progressed r r') (hallows : ph.Allows r')
    (hfacts : ph.Facts s log w.commands r') :
    ThreadEffect s s' id w r { w with phase := ph } r' where
  objects := ho
  workers j := by rw [hws, Table.get_modify, hw]; rfl
  logs := hl
  accepted := ha
  commands := rfl
  later := hprogressed
  consistent := ⟨hallows, hlog ▸ hfacts.mono fun _ => doneIn_of_objects hr hprogressed ho,
    hprogressed.unmarked hmark⟩

theorem objects_kept (hr : s.objects.get id = some r) (j : String) :
    s.objects.get j = if j = id then some r else s.objects.get j := by
  split
  · next h => rw [h, hr]
  · rfl

theorem objects_modify {f : TaskRecord → TaskRecord} (hr : s.objects.get id = some r) (j : String) :
    (s.objects.modify id f).get j = if j = id then some (f r) else s.objects.get j := by
  rw [Table.get_modify, hr]
  rfl

theorem logs_put {l : List LogLine} (j : String) (hj : j ≠ id) :
    (s.logs.put id l).get j = s.logs.get j := by rw [Table.get_put, if_neg hj]

theorem logOf_put {l : List LogLine} (h : s'.logs = s.logs.put id l) : logOf s' id = l := by
  rw [logOf, h, Table.get_put_self]
  rfl

/-- A step to another place in the code, and no more. -/
theorem effect_setPhase {ph : Phase} (hw : s.workers.get id = some w)
    (hr : s.objects.get id = some r) (hmark : r.Unmarked) (hallows : ph.Allows r)
    (hfacts : ph.Facts s (logOf s id) w.commands r) :
    ThreadEffect s (s.setPhase id ph) id w r { w with phase := ph } r :=
  effect_of hw hr hmark (objects_kept hr) rfl (fun _ _ => rfl) rfl rfl (.refl r) hallows hfacts

/-- A step that writes to the log. -/
theorem effect_write {ph : Phase} {lines : List LogLine} (hw : s.workers.get id = some w)
    (hr : s.objects.get id = some r) (hmark : r.Unmarked) (hallows : ph.Allows r)
    (hfacts : ph.Facts s (logOf s id ++ lines) w.commands r) :
    ThreadEffect s ((s.write id lines).setPhase id ph) id w r { w with phase := ph } r :=
  effect_of hw hr hmark (objects_kept hr) rfl logs_put (logOf_put rfl) rfl (.refl r) hallows hfacts

theorem effect_stay (hw : s.workers.get id = some w) (hr : s.objects.get id = some r)
    (hc : Consistent s id w r) : ThreadEffect s s id w r w r where
  objects := objects_kept hr
  workers j := by
    split
    · next h => rw [h, hw]
    · rfl
  logs _ _ := rfl
  accepted := rfl
  commands := rfl
  later := .refl r
  consistent := hc

/-- A step of a thread, by where it stands. -/
theorem threadStep_effect (hw : s.workers.get id = some w) (hr : s.objects.get id = some r)
    (hc : Consistent s id w r) :
    ∃ w' r', ThreadEffect s (threadStep s id w r o) id w r w' r' := by
  obtain ⟨hallows, hfacts, hmark⟩ := hc
  obtain ⟨commands, ph⟩ := w
  unfold threadStep
  cases ph with
  | created =>
    by_cases htask : id ∈ s.tasks
    · simp only [if_pos htask]
      exact ⟨_, _, effect_of hw hr hmark (objects_modify hr) rfl (fun _ _ => rfl) rfl rfl
        (progressed_status hallows (by decide) (Nat.zero_le _)) rfl hfacts⟩
    · simp only [if_neg htask]
      exact ⟨_, _, effect_setPhase hw hr hmark trivial (orderly_of_facts hallows hfacts)⟩
  | opening =>
    refine ⟨_, _,
      effect_of hw hr hmark (objects_kept hr) rfl logs_put (logOf_put rfl) rfl (.refl r) ?_ ?_⟩
    · have hst : r.status = if r.dependsOn = [] then .running else .waiting := hallows
      by_cases hdeps : r.dependsOn = []
      · simp only [if_pos hdeps] at hst ⊢
        exact hst
      · simp only [if_neg hdeps] at hst ⊢
        exact hst
    · have hexit : NoExit [.header o.now r.task r.status] :=
        noExit_singleton fun _ => LogLine.noConfusion
      by_cases hdeps : r.dependsOn = []
      · simp only [if_pos hdeps]
        refine ⟨hexit, fun d hd => ?_, rfl⟩
        rw [hdeps] at hd
        cases hd
      · simp only [if_neg hdeps]
        exact ⟨rfl, hexit⟩
  | looking =>
    refine ⟨_, _, effect_setPhase hw hr hmark hallows ⟨hfacts.1, hfacts.2, ?_⟩⟩
    rw [List.map_map]
    exact List.map_id _
  | scanning all rest =>
    obtain ⟨hcmds, hexit, hall⟩ := hfacts
    cases rest with
    | nil =>
      exact ⟨_, _, effect_setPhase hw hr hmark hallows
        ⟨hcmds, hexit, [], by simp [hall], by simp⟩⟩
    | cons dep rest =>
      obtain ⟨d, found⟩ := dep
      cases found with
      | false => exact ⟨_, _, effect_setPhase hw hr hmark hallows ⟨hcmds, hexit⟩⟩
      | true =>
        by_cases hfailed : (s.objects.get d).map TaskRecord.status = some .failed
        · simp only [if_pos hfailed]
          exact ⟨_, _, effect_setPhase hw hr hmark hallows ⟨hcmds, hexit⟩⟩
        · simp only [if_neg hfailed]
          exact ⟨_, _, effect_setPhase hw hr hmark hallows ⟨hcmds, hexit, hall⟩⟩
  | confirming rest =>
    obtain ⟨hcmds, hexit, looked, heq, hlooked⟩ := hfacts
    cases rest with
    | nil =>
      refine ⟨_, _, effect_setPhase hw hr hmark hallows ⟨hcmds, hexit, fun d hd => hlooked d ?_⟩⟩
      rwa [heq, List.map_nil, List.append_nil] at hd
    | cons dep rest =>
      obtain ⟨d, found⟩ := dep
      by_cases hdone : ((s.objects.get d).any fun r => r.status.done) = true
      · simp only [if_pos hdone]
        refine ⟨_, _, effect_setPhase hw hr hmark hallows ⟨hcmds, hexit, looked ++ [d], ?_, ?_⟩⟩
        · rw [heq, List.map_cons, List.append_assoc]
          rfl
        · intro d' hd'
          rcases List.mem_append.mp hd' with hd' | hd'
          · exact hlooked d' hd'
          · obtain rfl := List.mem_singleton.mp hd'
            obtain ⟨rd, hrd, hst⟩ := (Option.any_eq_true _ _).mp hdone
            exact ⟨rd, hrd, hst⟩
      · simp only [if_neg hdone]
        exact ⟨_, _, effect_setPhase hw hr hmark hallows ⟨hcmds, hexit⟩⟩
  | failing reason =>
    obtain ⟨hcmds, hexit⟩ := hfacts
    have hlines : commandsOf (logOf s id ++ [.failure reason]) = [] := by
      rw [commandsOf_append, show commandsOf (logOf s id) = [] from hcmds]
      rfl
    exact ⟨_, _, effect_of hw hr hmark (objects_modify hr) rfl logs_put (logOf_put rfl) rfl
      (progressed_ended hmark hallows (by decide) rfl) rfl
      (orderly_silent hlines
        (noExit_append hexit (noExit_singleton fun _ => LogLine.noConfusion)) rfl)⟩
  | satisfied =>
    obtain ⟨hcmds, hexit, hdeps⟩ := hfacts
    have hlines : commandsOf (logOf s id ++ [.satisfied o.now]) ++ commands = commands := by
      rw [commandsOf_append, show commandsOf (logOf s id) = [] from hcmds]
      rfl
    exact ⟨_, _, effect_of hw hr hmark (objects_modify hr) rfl logs_put (logOf_put rfl) rfl
      (progressed_status hallows (by decide) (show 1 ≤ 2 by decide)) rfl
      ⟨noExit_append hexit (noExit_singleton fun _ => LogLine.noConfusion), hdeps, hlines⟩⟩
  | commands rest =>
    obtain ⟨hexit, hdeps, hcmds⟩ := hfacts
    cases rest with
    | nil =>
      rw [List.append_nil] at hcmds
      exact ⟨_, _, effect_setPhase hw hr hmark hallows
        ⟨hexit.dropLast, hdeps, hcmds ▸ List.prefix_refl _, fun _ => ⟨hexit, hcmds⟩⟩⟩
    | cons cmd rest =>
      refine ⟨_, _, effect_write hw hr hmark hallows
        ⟨noExit_append hexit (noExit_singleton fun _ => LogLine.noConfusion), hdeps, ?_⟩⟩
      rw [commandsOf_append, List.append_assoc]
      exact hcmds
  | command cmd rest =>
    obtain ⟨hexit, hdeps, hcmds⟩ := hfacts
    by_cases hcode : commandCode o = 0
    · simp only [if_pos hcode]
      refine ⟨_, _, effect_write hw hr hmark hallows
        ⟨noExit_append hexit (noExit_commandLines o), hdeps, ?_⟩⟩
      rw [commandsOf_append, commandsOf_commandLines, List.append_nil]
      exact hcmds
    · simp only [if_neg hcode]
      refine ⟨_, _, effect_write hw hr hmark hallows ⟨?_, hdeps, ?_, fun h => absurd h hcode⟩⟩
      · rw [← List.append_assoc, List.dropLast_concat]
        exact noExit_append hexit (noExit_commandLines o)
      · rw [commandsOf_append, commandsOf_append, commandsOf_commandLines]
        exact ⟨rest, by rw [← hcmds]; simp [commandsOf, LogLine.cmd?]⟩
  | finishing code =>
    obtain ⟨hexit, hdeps, hcmds, hzero⟩ := hfacts
    refine ⟨_, _, effect_of hw hr hmark (objects_modify hr) rfl (fun _ _ => rfl) rfl rfl
      (progressed_ended hmark hallows (by decide) ?_) ?_
      ⟨fun _ => hdeps, hcmds, hexit, fun hdone => ?_⟩⟩
    · split <;> rfl
    · simp only [Phase.Allows]
      split <;> rfl
    · refine ⟨hdeps, hzero ?_⟩
      by_contra hcode
      simp only [if_neg hcode] at hdone
      cases hdone
  | ended => exact ⟨_, _, effect_stay hw hr ⟨hallows, hfacts, hmark⟩⟩
  | dead => exact ⟨_, _, effect_stay hw hr ⟨hallows, hfacts, hmark⟩⟩

end Effects

/-! ## Every run -/

/-- Every thread has its record and stands where it should. -/
def Good (s : ServerState) : Prop :=
  ∀ id w, s.workers.get id = some w → ∃ r, s.objects.get id = some r ∧ Consistent s id w r

section Steps
variable {cfg : McpConfig} {s s' : ServerState}

/-- A thread that a step leaves alone. -/
theorem consistent_kept {id : String} {w : Worker} {r : TaskRecord}
    (hdone : ∀ d, DoneIn s d → DoneIn s' d) (hlog : s'.logs.get id = s.logs.get id)
    (h : Consistent s id w r) : Consistent s' id w r := by
  refine ⟨h.allows, ?_, h.unmarked⟩
  rw [logOf, hlog]
  exact h.facts.mono hdone

theorem good_thread {id : String} {w w' : Worker} {r r' : TaskRecord}
    (heff : ThreadEffect s s' id w r w' r') (hr : s.objects.get id = some r) (h : Good s) :
    Good s' := by
  intro j v hv
  rw [heff.workers] at hv
  rw [heff.objects]
  by_cases hj : j = id
  · rw [if_pos hj] at hv ⊢
    obtain rfl := Option.some.inj hv
    exact ⟨r', rfl, hj ▸ heff.consistent⟩
  · rw [if_neg hj] at hv ⊢
    obtain ⟨rj, hrj, hc⟩ := h j v hv
    exact ⟨rj, hrj, consistent_kept (fun _ => doneIn_of_objects hr heff.later heff.objects)
      (heff.logs j hj) hc⟩

theorem good_die {id : String} (h : Good s) : Good (s.setPhase id .dead) := by
  intro j v hv
  rw [ServerState.setPhase, Table.get_modify] at hv
  by_cases hj : j = id
  · rw [if_pos hj] at hv
    obtain ⟨w, hw, rfl⟩ := Option.map_eq_some_iff.mp hv
    obtain ⟨r, hr, hc⟩ := h id w hw
    subst hj
    have hdead : Phase.dead.Facts s (logOf s j) w.commands r := orderly_of_facts hc.allows hc.facts
    exact ⟨r, hr, trivial, hdead.mono (s := s) fun _ h => h, hc.unmarked⟩
  · rw [if_neg hj] at hv
    obtain ⟨r, hr, hc⟩ := h j v hv
    exact ⟨r, hr, consistent_kept (s := s) (fun _ h => h) rfl hc⟩

/-- A step that leaves records, threads and logs alone. -/
theorem Good.congr (h : Good s) (hobjects : s'.objects = s.objects)
    (hworkers : s'.workers = s.workers) (hlogs : s'.logs = s.logs) : Good s' := by
  intro j v hv
  rw [hworkers] at hv
  obtain ⟨r, hr, hc⟩ := h j v hv
  refine ⟨r, hobjects ▸ hr, consistent_kept (fun d hd => ?_) (by rw [hlogs]) hc⟩
  obtain ⟨rd, hrd, hdone⟩ := hd
  exact ⟨rd, hobjects ▸ hrd, hdone⟩

theorem insertTask_objects (s : ServerState) (id now : String) (a : Accepted)
    (result : SaveResult) : (insertTask s id a now result).objects = s.objects.put id
      ⟨id, a.taskName, .queued, none, now, none, a.cwdPath, a.args, a.dependsOn⟩ := rfl

theorem insertTask_workers (s : ServerState) (id now : String) (a : Accepted)
    (result : SaveResult) :
    (insertTask s id a now result).workers = s.workers.put id ⟨a.commands, .created⟩ := rfl

theorem good_insert {id now : String} {a : Accepted} {result : SaveResult} (hfresh : Fresh s id)
    (h : Good s) : Good (insertTask s id a now result) := by
  have hobjects : ∀ j, j ≠ id →
      (insertTask s id a now result).objects.get j = s.objects.get j := fun j hj => by
    rw [insertTask_objects, Table.get_put, if_neg hj]
  have hdone : ∀ d, DoneIn s d → DoneIn (insertTask s id a now result) d := by
    rintro d ⟨rd, hrd, hst⟩
    refine ⟨rd, ?_, hst⟩
    rw [hobjects d fun hd => ?_, hrd]
    rw [hd, hfresh.1] at hrd
    cases hrd
  intro j v hv
  rw [insertTask_workers, Table.get_put] at hv
  by_cases hj : j = id
  · subst hj
    rw [if_pos rfl] at hv
    obtain rfl := Option.some.inj hv
    refine ⟨_, Table.get_put_self _ _ _, rfl, ?_, fun _ => ⟨rfl, rfl⟩⟩
    change (s.logs.get j).getD [] = []
    rw [hfresh.2.2]
    rfl
  · rw [if_neg hj] at hv
    obtain ⟨r, hr, hc⟩ := h j v hv
    exact ⟨r, (hobjects j hj).trans hr, consistent_kept hdone rfl hc⟩

/-- What a move does. -/
inductive Stepped (cfg : McpConfig) (s : ServerState) : Move → ServerState → Prop
  | accepted {req : TaskRequest} {a : Accepted} (ha : checkRequest cfg s req = .ok a) :
      Stepped cfg s (.enqueue req) { s with accepted := s.accepted ++ [a] }
  | refused {req : TaskRequest} {e : EnqueueError} (he : checkRequest cfg s req = .error e) :
      Stepped cfg s (.enqueue req) s
  | inserted {i : Nat} {id now : String} {result : SaveResult} {a : Accepted}
      (hi : s.accepted[i]? = some a) (hfresh : Fresh s id) :
      Stepped cfg s (.insert i id now result)
        (insertTask { s with accepted := s.accepted.eraseIdx i } id a now result)
  | threaded {id : String} {o : Outcome} {w : Worker} {r : TaskRecord}
      (hw : s.workers.get id = some w) (hr : s.objects.get id = some r) :
      Stepped cfg s (.thread id o) (threadStep s id w r o)
  | died {id : String} (hw : (s.workers.get id).isSome) :
      Stepped cfg s (.die id) (s.setPhase id .dead)
  | restarted : Stepped cfg s .restart (restart s)

theorem step_cases {m : Move} (hstep : step cfg s m = some s') : Stepped cfg s m s' := by
  cases m with
  | enqueue req =>
    simp only [step] at hstep
    split at hstep
    · next a ha =>
      obtain rfl := Option.some.inj hstep
      exact .accepted ha
    · next e he =>
      obtain rfl := Option.some.inj hstep
      exact .refused he
  | insert i id now result =>
    simp only [step] at hstep
    split at hstep
    · cases hstep
    · next a hi =>
      split at hstep
      · next hfresh =>
        obtain rfl := Option.some.inj hstep
        exact .inserted hi hfresh
      · cases hstep
  | thread id o =>
    simp only [step] at hstep
    split at hstep
    · next w r hw hr =>
      obtain rfl := Option.some.inj hstep
      exact .threaded hw hr
    · cases hstep
  | die id =>
    simp only [step] at hstep
    split at hstep
    · next hw =>
      obtain rfl := Option.some.inj hstep
      exact .died hw
    · cases hstep
  | restart =>
    obtain rfl := Option.some.inj hstep
    exact .restarted

theorem Good.thread {id : String} {o : Outcome} {w : Worker} {r : TaskRecord} (h : Good s)
    (hw : s.workers.get id = some w) (hr : s.objects.get id = some r) :
    ∃ w' r', ThreadEffect s (threadStep s id w r o) id w r w' r' := by
  obtain ⟨r₀, hr₀, hc⟩ := h id w hw
  obtain rfl := Option.some.inj (hr.symm.trans hr₀)
  exact threadStep_effect hw hr hc

theorem good_step (m : Move) (h : Good s) (hstep : step cfg s m = some s') : Good s' := by
  cases step_cases hstep with
  | accepted => exact h.congr rfl rfl rfl
  | refused => exact h
  | inserted _ hfresh => exact good_insert hfresh (h.congr rfl rfl rfl)
  | threaded hw hr =>
    obtain ⟨w', r', heff⟩ := h.thread hw hr
    exact good_thread heff hr h
  | died => exact good_die h
  | restarted => exact fun _ _ hw => by cases hw

end Steps

theorem good_restart (s : ServerState) : Good (restart s) := fun _ _ hw => by cases hw

/-- From the start of a process on, whatever calls, threads, failing writes, dying threads
and new processes follow: the commands of a task are started in the order of its mapping,
none behind one that ended with an error; a task that has succeeded has run all of
them; and a task that has started a command or has succeeded depends on tasks that have
succeeded, each of which, where this process has run it, has run all its commands. -/
theorem commands_in_order {cfg : McpConfig} {s₀ s : ServerState} {ms : List Move}
    (hrun : moves (step cfg) ms (restart s₀) = some s) {id : String} {w : Worker} {r : TaskRecord}
    (hw : s.workers.get id = some w) (hr : s.objects.get id = some r) :
    (commandsOf (logOf s id) <+: w.commands ∧ NoExit (logOf s id).dropLast) ∧
    (r.status = .success → NoExit (logOf s id) ∧ commandsOf (logOf s id) = w.commands) ∧
    (commandsOf (logOf s id) ≠ [] ∨ r.status = .success → ∀ d ∈ r.dependsOn,
      ∃ rd, s.objects.get d = some rd ∧ rd.status.done = true ∧
        ∀ wd, s.workers.get d = some wd →
          NoExit (logOf s d) ∧ commandsOf (logOf s d) = wd.commands) := by
  have hgood : Good s := moves_inv (fun _ m _ => good_step m) (good_restart s₀) hrun
  have horderly : ∀ {j v}, s.workers.get j = some v →
      ∃ rj, s.objects.get j = some rj ∧ Orderly s (logOf s j) v.commands rj := by
    intro j v hv
    obtain ⟨rj, hrj, hc⟩ := hgood j v hv
    exact ⟨rj, hrj, orderly_of_facts hc.allows hc.facts⟩
  obtain ⟨r₀, hr₀, ho⟩ := horderly hw
  obtain rfl := Option.some.inj (hr.symm.trans hr₀)
  refine ⟨⟨ho.inOrder, ho.exitLast⟩, fun hst => (ho.complete (by rw [hst]; rfl)).2, ?_⟩
  intro hstarted d hd
  have hdeps : DepsDone s r :=
    hstarted.elim ho.deps fun hst => (ho.complete (by rw [hst]; rfl)).1
  obtain ⟨rd, hrd, hdone⟩ := hdeps d hd
  refine ⟨rd, hrd, hdone, fun wd hwd => ?_⟩
  obtain ⟨rd', hrd', hod⟩ := horderly hwd
  obtain rfl := Option.some.inj (hrd.symm.trans hrd')
  exact (hod.complete hdone).2

def sampleMcp : McpConfig where
  mappings := [("build", ["make"]), ("test", ["pytest", "lint"])]
  workspaceRoot := "/ws"
  resolve := fun cwd => "/ws/" ++ cwd

def emptyServer : ServerState := ⟨[], ∅, [], ∅, ∅, .absent⟩

def sampleOutcome : Outcome := ⟨"10:05", .saved, false, [], true, 0⟩

/-- `test` waits for `build`, looks once too early, and has its first command running. -/
def sampleMoves : List Move :=
  [.enqueue ⟨"build", [], none, []⟩, .insert 0 "a" "10:00" .saved,
    .enqueue ⟨"test", [], none, [.str "a"]⟩, .insert 0 "b" "10:01" .saved] ++
  List.replicate 6 (.thread "b" sampleOutcome) ++
  List.replicate 6 (.thread "a" sampleOutcome) ++
  List.replicate 7 (.thread "b" sampleOutcome)

theorem sample_started : (moves (step sampleMcp) sampleMoves (restart emptyServer)).any (fun s =>
    (s.workers.get "b").isSome && (s.objects.get "b").isSome &&
      commandsOf (logOf s "b") = ["pytest"]) = true := by decide +kernel

theorem sample_behind_build : ∃ s w r, moves (step sampleMcp) sampleMoves (restart emptyServer) =
      some s ∧ s.workers.get "b" = some w ∧ s.objects.get "b" = some r ∧
    commandsOf (logOf s "b") = ["pytest"] ∧
    ∀ d ∈ r.dependsOn, ∃ rd, s.objects.get d = some rd ∧ rd.status.done = true ∧
      ∀ wd, s.workers.get d = some wd →
        NoExit (logOf s d) ∧ commandsOf (logOf s d) = wd.commands := by
  obtain ⟨s, hrun, hall⟩ := (Option.any_eq_true _ _).mp sample_started
  simp only [Bool.and_eq_true, decide_eq_true_eq, Option.isSome_iff_exists] at hall
  obtain ⟨⟨⟨w, hw⟩, r, hr⟩, hcmds⟩ := hall
  exact ⟨s, w, r, hrun, hw, hr, hcmds,
    (commands_in_order hrun hw hr).2.2 (.inl (by rw [hcmds]; exact List.cons_ne_nil _ _))⟩

end Nightfall.Mcp
