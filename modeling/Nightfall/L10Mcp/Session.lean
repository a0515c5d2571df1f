import Nightfall.L10Mcp.Framing
import Nightfall.L10Mcp.TaskHistory

/-!
# The stdio loop of the MCP server (`mcp_server.py`)

`main` reads a message, `_dispatch` answers it, `_call_tool` runs a tool; the threads of the
tasks run in between. A call of `mcp.exec` is two steps, the two sections under the lock
of `enqueue`. So is one of `mcp.status`: the record is looked up under the lock, and its
fields are read behind it, one after another, while its thread goes on. What the tools
beyond the tasks give (the text of a log, the context, a verification, the proposals) is
part of the step.

A write to stdout that fails, a thread that cannot be started and the extension arguments
of `mcp.exec` are left out.

* `dispatch_cases`: what one message can do.
* `conversing_run`: stdin, stdout and the answers in step, in every run.
* `session_answers`: one answer for each request, in order, as the client reads them.
* `status_told`: each field of what the client is told about a task only goes on.
-/
namespace Nightfall.Mcp
open Nightfall.Core Storage

/-! ## Messages -/

def strArgument : Json → Option String
  | .str s => some s
  | _ => none

def isNull : Json → Bool
  | .null => true
  | _ => false

/-- mirrors mcp_server.py:111-112 -/
def ok (id result : Json) : Payload := [("jsonrpc", .str "2.0"), ("id", id), ("result", result)]

/-- mirrors mcp_server.py:115-116 -/
def err (id : Json) (code : Int) (message : String) : Payload :=
  [("jsonrpc", .str "2.0"), ("id", id),
    ("error", .obj [("code", .num (toString code)), ("message", .str message)])]

/-- `json.dumps(payload, indent=2)` -/
def pretty (payload : Json) : String := String.ofList (Core.dumps (indented 2) 0 payload)

/-- mirrors mcp_server.py:707-711 -/
def toolResult (payload : Json) (isError : Bool) : Json :=
  .obj [("content", .arr [.obj [("type", .str "text"), ("text", .str (pretty payload))]]),
    ("isError", .bool isError)]

/-- An exception of a tool, with its text. -/
inductive ToolError where
  | value (text : String)
  | other (text : String)

/-- mirrors mcp_server.py:759-763 -/
def ToolError.answer (id : Json) : ToolError → Payload
  | .value text => err id (-32602) text
  | .other text => err id (-32603) text

/-! ## The tools -/

def stringType : Json := .obj [("type", .str "string")]

def described (type description : String) : Payload :=
  [("type", .str type), ("description", .str description)]

/-- An entry of the list; `required` is left out where there is none. -/
def tool (name description : String) (properties : Payload) (required : List String) : Json :=
  .obj [("name", .str name), ("description", .str description), ("inputSchema",
    .obj ([("type", .str "object"), ("properties", .obj properties)] ++
      if required = [] then [] else [("required", .arr (required.map .str))]))]

/-- mirrors mcp_server.py:634-704 -/
def toolList : List Json :=
  [tool "mcp.exec" "Queue a devctl task from .mcp/model.json mappings and return its taskId."
      [("task", .obj (described "string" "Mapping key from model.json")),
        ("args", .obj [("type", .str "array"), ("items", stringType),
          ("description", .str "Extra CLI args")]),
        ("env", .obj [("type", .str "object"), ("additionalProperties", stringType)]),
        ("cwd", .obj (described "string" "Working dir relative to workspace root")),
        ("dependsOn", .obj [("type", .str "array"), ("items", stringType),
          ("description", .str "taskIds to wait for")]),
        ("significantTask", .obj [("type", .str "boolean")]),
        ("extensionRecommendation", .obj [("type", .str "string")])] ["task"],
    tool "mcp.status" "Get task status by taskId." [("taskId", stringType)] ["taskId"],
    tool "mcp.log" "Get task log. Optional 'tail' limits to last N lines."
      [("taskId", stringType), ("tail", .obj [("type", .str "integer")])] ["taskId"],
    tool "mcp.context" "Return MCP model and runtime context." [] [],
    tool "mcp.verify" "Run verification commands from .mcp/model.json verifications."
      [("verify", stringType), ("target", stringType)] ["verify", "target"],
    tool "mcp.extensions.list" "List extension proposals backlog." [] [],
    tool "mcp.extensions.propose" "Add an extension proposal."
      [("recommendation", stringType), ("relatedTaskId", stringType), ("task", stringType)]
      ["recommendation"]]

def TaskStatus.text : TaskStatus → String
  | .queued => "queued"
  | .waiting => "waiting"
  | .running => "running"
  | .success => "success"
  | .failed => "failed"
  | .completed => "completed"

def orNull {α : Type} (f : α → Json) : Option α → Json
  | some a => f a
  | none => .null

/-- `{k: r.get(k) for k in ("taskId", "task", ..)}` -/
def statusRecord (r : TaskRecord) : Json :=
  .obj [("taskId", .str r.taskId), ("task", .str r.task), ("status", .str r.status.text),
    ("exitCode", orNull (fun n => .num (toString n)) r.exitCode),
    ("startedAt", .str r.startedAt), ("finishedAt", orNull .str r.finishedAt)]

/-- `{"error": "taskId not found"}` -/
def notFound : Json := .obj [("error", .str "taskId not found")]

/-- What the rest of the server gives the tools beyond the tasks. -/
structure Elsewhere where
  /-- `task_log`; `none` without a file -/
  log : Except ToolError (Option String)
  context : Except ToolError Json
  verify : Except ToolError Json
  extensions : List Json
  proposal : Except ToolError Json

inductive ToolOutcome where
  | result (value : Json)
  /-- `enqueue`, past its first section -/
  | queue (req : TaskRequest)
  /-- `task_status`, past the lock -/
  | look (taskId : String)
  | raised (e : ToolError)

def EnqueueError.text (py : Interp) : EnqueueError → String
  | .unknownMapping taskName => "Unknown task mapping: " ++ py.repr (.str taskName)
  | .cwdOutside => "cwd must be inside workspace root"
  | .dependencyNotString => "dependsOn entries must be strings"
  | .dependencyNotFound depId => "dependsOn task not found: " ++ py.repr (.str depId)

/-- `x if isinstance(x, dict) else {}` -/
def dictArgument : Json → Payload
  | .obj fields => fields
  | _ => []

/-- `x if isinstance(x, list) else None`, where `None` counts as empty -/
def listArgument : Json → List Json
  | .arr items => items
  | _ => []

def execRequest (a : Payload) (taskName : String) : TaskRequest :=
  ⟨taskName, listArgument (a.get "args"), strArgument (a.get "cwd"), listArgument (a.get "dependsOn")⟩

/-- The result of a tool that gives a payload. -/
def ToolOutcome.payload : Except ToolError Json → ToolOutcome
  | .ok payload => .result (toolResult payload false)
  | .error e => .raised e

/-- mirrors mcp_server.py:770-783 -/
def callExec (py : Interp) (cfg : McpConfig) (s : ServerState) (a : Payload) : ToolOutcome :=
  match strArgument (a.get "task") with
  | none => .raised (.value "mcp.exec: 'task' must be a string")
  | some taskName =>
    match checkRequest cfg s (execRequest a taskName) with
    | .ok _ => .queue (execRequest a taskName)
    | .error e => .raised (.value (e.text py))

/-- mirrors mcp_server.py:785-790 -/
def callStatus (s : ServerState) (a : Payload) : ToolOutcome :=
  match strArgument (a.get "taskId") with
  | none => .raised (.value "mcp.status: 'taskId' must be a string")
  | some taskId =>
    if (taskStatus s taskId).isSome then .look taskId else .result (toolResult notFound true)

/-- mirrors mcp_server.py:792-799 -/
def callLog (e : Elsewhere) (a : Payload) : ToolOutcome :=
  match strArgument (a.get "taskId") with
  | none => .raised (.value "mcp.log: 'taskId' must be a string")
  | some taskId =>
    match e.log with
    | .error x => .raised x
    | .ok none => .result (toolResult (.obj [("error", .str "log not found")]) true)
    | .ok (some text) =>
      .result (toolResult (.obj [("taskId", .str taskId), ("log", .str text)]) false)

/-- mirrors mcp_server.py:804-808 -/
def callVerify (e : Elsewhere) (a : Payload) : ToolOutcome :=
  if (strArgument (a.get "verify")).isNone ∨ (strArgument (a.get "target")).isNone then
    .raised (.value "mcp.verify: 'verify' and 'target' must be strings")
  else .payload e.verify

/-- mirrors mcp_server.py:815-825 -/
def callPropose (e : Elsewhere) (a : Payload) : ToolOutcome :=
  if (strArgument (a.get "recommendation")).all fun rec => pyStrip rec = "" then
    .raised (.value "mcp.extensions.propose: 'recommendation' must be a non-empty string")
  else .payload e.proposal

/-- mirrors mcp_server.py:766-827 -/
def callTool (py : Interp) (cfg : McpConfig) (s : ServerState) (params : Payload)
    (e : Elsewhere) : ToolOutcome :=
  let name := strArgument (params.get "name")
  let a := dictArgument (params.get "arguments")
  if name = some "mcp.exec" then callExec py cfg s a
  else if name = some "mcp.status" then callStatus s a
  else if name = some "mcp.log" then callLog e a
  else if name = some "mcp.context" then .payload e.context
  else if name = some "mcp.verify" then callVerify e a
  else if name = some "mcp.extensions.list" then
    .result (toolResult (.obj [("extensions", .arr e.extensions)]) false)
  else if name = some "mcp.extensions.propose" then callPropose e a
  else .raised (.value ("Unknown tool: " ++ py.repr (params.get "name")))

/-! ## One message -/

/-- `SUPPORTED_PROTOCOL_VERSIONS` -/
def supportedVersions : List String := ["2025-03-26", "2024-11-05"]

def negotiated (params : Payload) : String :=
  match strArgument (params.get "protocolVersion") with
  | some version => if version ∈ supportedVersions then version else "2025-03-26"
  | none => "2025-03-26"

def initializeResult (params : Payload) : Json :=
  .obj [("protocolVersion", .str (negotiated params)), ("capabilities", .obj [("tools", .obj [])]),
    ("serverInfo", .obj [("name", .str "nightfall-photo-ingress"), ("version", .str "2.0.0")])]

inductive Dispatch where
  | silent
  /-- `SystemExit` -/
  | exit
  | answer (reply : Payload)
  | queue (req : TaskRequest)
  | look (taskId : String)

/-- `msg.get("method", "")` -/
def methodOf (msg : Payload) : Json := (msg.lookup "method").getD (.str "")

def isExit (msg : Payload) : Bool := strArgument (methodOf msg) = some "exit"

/-- A message that is to be answered. -/
def isRequest (msg : Payload) : Bool :=
  !isNull (msg.get "id") && !isExit msg &&
    strArgument (methodOf msg) ≠ some "notifications/initialized"

/-- `f"Method not found: {method}"` -/
def methodNotFound (py : Interp) (msg : Payload) : String :=
  "Method not found: " ++ (strArgument (methodOf msg)).getD (py.str (methodOf msg))

def ToolOutcome.dispatch (id : Json) : ToolOutcome → Dispatch
  | .result value => .answer (ok id value)
  | .queue req => .queue req
  | .look taskId => .look taskId
  | .raised e => .answer (e.answer id)

/-- mirrors mcp_server.py:716-763 -/
def dispatch (py : Interp) (cfg : McpConfig) (s : ServerState) (msg : Payload) (e : Elsewhere) :
    Dispatch :=
  let method := strArgument (methodOf msg)
  let id := msg.get "id"
  let params := dictArgument (msg.get "params")
  if method = some "notifications/initialized" then .silent
  else if method = some "exit" then .exit
  else if isNull id then .silent
  else if method = some "initialize" then .answer (ok id (initializeResult params))
  else if method = some "ping" then .answer (ok id (.obj []))
  else if method = some "tools/list" then .answer (ok id (.obj [("tools", .arr toolList)]))
  else if method = some "tools/call" then (callTool py cfg s params e).dispatch id
  else if method = some "shutdown" then .answer (ok id .null)
  else .answer (err id (-32601) (methodNotFound py msg))

/-! ## The loop -/

inductive Loop where
  | reading
  /-- in `enqueue`, between its two sections under the lock -/
  | queueing (msg : Payload)
  /-- in `task_status`, behind the lock; `seen` is what the server has been since then -/
  | looking (msg : Payload) (taskId : String) (seen : List ServerState)
  | stopped

namespace Loop

def seen : Loop → List ServerState
  | .looking _ _ seen => seen
  | _ => []

/-- The server has gone on. -/
def sees (server : ServerState) : Loop → Loop
  | .looking msg taskId seen => .looking msg taskId (seen ++ [server])
  | loop => loop

end Loop

/-- A request with its answer, and the states of the server the answer is taken from. -/
structure Exchange where
  request : Payload
  seen : List ServerState
  reply : Payload

structure Session where
  server : ServerState
  /-- what has not been read yet -/
  stdin : Bytes
  stdout : Bytes
  loop : Loop
  /-- the messages so far, and those that were answered; nothing reads them -/
  heard : List Payload
  exchanges : List Exchange

inductive SessionMove where
  /-- the loop goes on with the next message -/
  | receive (e : Elsewhere)
  /-- the rest of a call of `mcp.exec` -/
  | queue (id now : String) (result : SaveResult)
  /-- the rest of a call of `mcp.status`, with the states in which `status`, `exitCode` and
  `finishedAt` are read -/
  | tell (i j k : Nat)
  | thread (id : String) (o : Outcome)
  | die (id : String)

namespace Session

/-- `_write` -/
def answer (s : Session) (msg : Payload) (seen : List ServerState) (reply : Payload) : Session :=
  { s with
    stdout := s.stdout ++ write (.obj reply)
    loop := .reading
    exchanges := s.exchanges ++ [⟨msg, seen, reply⟩] }

def hear (py : Interp) (cfg : McpConfig) (s : Session) (msg : Payload) (rest : Bytes)
    (e : Elsewhere) : Session :=
  let s' := { s with stdin := rest, heard := s.heard ++ [msg] }
  match dispatch py cfg s.server msg e with
  | .silent => s'
  | .exit => { s' with loop := .stopped }
  | .answer reply => s'.answer msg [s.server] reply
  | .queue req =>
    { s' with server := (Mcp.step cfg s.server (.enqueue req)).getD s.server, loop := .queueing msg }
  | .look taskId => { s' with loop := .looking msg taskId [s.server] }

/-- `_tool_result({"taskId": task_id, "status": "queued"})` -/
def queuedReply (msg : Payload) (id : String) : Payload :=
  ok (msg.get "id") (toolResult (.obj [("taskId", .str id), ("status", .str "queued")]) false)

def statusReply (msg : Payload) (told : Option TaskRecord) : Payload :=
  ok (msg.get "id") (toolResult ((told.map statusRecord).getD notFound) told.isNone)

/-- The record as it is read, field by field.
mirrors mcp_server.py:362-367 -/
def toldRecord (seen : List ServerState) (taskId : String) (i j k : Nat) : Option TaskRecord := do
  let r ← (← seen[i]?).objects.get taskId
  let r' ← (← seen[j]?).objects.get taskId
  let r'' ← (← seen[k]?).objects.get taskId
  return { r with exitCode := r'.exitCode, finishedAt := r''.finishedAt }

/-- The tasks go on. -/
def advance (s : Session) (server : ServerState) : Session :=
  { s with server := server, loop := s.loop.sees server }

/-- mirrors mcp_server.py:862-872 -/
def step (py : Interp) (cfg : McpConfig) (broken : Bool) (s : Session) : SessionMove → Option Session
  | .receive e =>
    match s.loop with
    | .reading =>
      match read py broken s.stdin with
      | .message msg rest => some (s.hear py cfg msg rest e)
      | .ended => some { s with loop := .stopped }
      | .raised => some { s with loop := .stopped }
      | .beyond => none
    | _ => none
  | .queue id now result =>
    match s.loop with
    | .queueing msg =>
      (Mcp.step cfg s.server (.insert 0 id now result)).map fun server =>
        { s with server := server }.answer msg [server] (queuedReply msg id)
    | _ => none
  | .tell i j k =>
    match s.loop with
    | .looking msg taskId seen =>
      (toldRecord seen taskId i j k).map fun r => s.answer msg seen (statusReply msg (some r))
    | _ => none
  | .thread id o => (Mcp.step cfg s.server (.thread id o)).map s.advance
  | .die id => (Mcp.step cfg s.server (.die id)).map s.advance

/-- A new process with `input` on its stdin. -/
def start (s₀ : ServerState) (input : Bytes) : Session := ⟨restart s₀, input, [], .reading, [], []⟩

/-- The request that waits for its answer. -/
def pending (s : Session) : List Payload :=
  match s.loop with
  | .queueing msg => [msg]
  | .looking msg _ _ => [msg]
  | _ => []

end Session

/-! ## Answers -/

section Plain
variable {py : Interp} {id result : Json}

theorem plain_int (n : Int) : PlainNumber py.canon (toString n) :=
  .inr (.inr (.inr ⟨isToken_int n, py.canon_int n⟩))

theorem plain_ok (hid : id.Plain py.canon) (hresult : result.Plain py.canon) :
    (Json.obj (ok id result)).Plain py.canon := by
  simp [ok, Json.Plain, PlainFields, hid, hresult]

theorem plain_err {code : Int} {message : String} (hid : id.Plain py.canon) :
    (Json.obj (err id code message)).Plain py.canon := by
  have hcode := @plain_int py code
  rw [Int.toString_eq_repr] at hcode
  simp [err, Json.Plain, PlainFields, hid, hcode]

theorem plain_toolResult {payload : Json} {isError : Bool} :
    (toolResult payload isError).Plain py.canon := by
  simp [toolResult, Json.Plain, PlainFields, PlainItems]

theorem plain_tool {name description : String} {properties : Payload} {required : List String}
    (h : (Json.obj properties).Plain py.canon) :
    (tool name description properties required).Plain py.canon := by
  have hrequired : (Json.arr (required.map .str)).Plain py.canon :=
    plainItems_iff.mpr fun v hv => by
      obtain ⟨s, -, rfl⟩ := List.mem_map.mp hv
      trivial
  simp only [Json.Plain] at h hrequired
  unfold tool
  split
  · simp [Json.Plain, PlainFields, h]
  · simp [Json.Plain, PlainFields, h, hrequired]

theorem plain_toolList : (Json.arr toolList).Plain py.canon := by
  refine plainItems_iff.mpr fun v hv => ?_
  simp only [toolList, List.mem_cons, List.not_mem_nil, or_false] at hv
  rcases hv with rfl | rfl | rfl | rfl | rfl | rfl | rfl <;> refine plain_tool ?_ <;>
    simp [Json.Plain, PlainFields, described, stringType]

theorem plain_statusRecord (r : TaskRecord) : (statusRecord r).Plain py.canon := by
  have hcode : ∀ n : Int, PlainNumber py.canon n.repr := fun n => by
    rw [← Int.toString_eq_repr]
    exact plain_int n
  cases hexit : r.exitCode <;> cases hfinished : r.finishedAt <;>
    simp [statusRecord, Json.Plain, PlainFields, orNull, hexit, hfinished, hcode]

theorem plain_told (told : Option TaskRecord) :
    ((told.map statusRecord).getD notFound).Plain py.canon := by
  cases told with
  | none => exact ⟨List.nodup_singleton _, trivial, trivial⟩
  | some r => exact plain_statusRecord r

theorem plain_initialize {params : Payload} : (initializeResult params).Plain py.canon := by
  simp [initializeResult, Json.Plain, PlainFields]

theorem plain_get {msg : Payload} (h : (Json.obj msg).Plain py.canon) (key : String) :
    (msg.get key).Plain py.canon := by
  have hfields := plainFields_iff.mp h.2
  rw [Payload.get]
  cases hlook : msg.lookup key with
  | none => trivial
  | some v =>
    obtain ⟨l₁, l₂, rfl, -⟩ := List.lookup_eq_some_iff.mp hlook
    exact hfields (key, v) (List.mem_append_right _ List.mem_cons_self)

end Plain

/-- The task whose status a request asks for. -/
def asksStatus (msg : Payload) : Option String :=
  let params := dictArgument (msg.get "params")
  if strArgument (methodOf msg) = some "tools/call" ∧
      strArgument (params.get "name") = some "mcp.status" then
    strArgument ((dictArgument (params.get "arguments")).get "taskId")
  else none

/-- The codes of `_dispatch`. -/
def errorCodes : List Int := [-32601, -32602, -32603]

/-- What is told about a task: that it is not there, or a record whose fields are those of
the task, each at some time since the look. -/
inductive Told (taskId : String) : List ServerState → Option TaskRecord → Prop where
  | notFound (s : ServerState) : taskStatus s taskId = none → Told taskId [s] none
  | record (s : ServerState) (seen : List ServerState) (r r' r'' : TaskRecord) :
      taskId ∈ s.tasks → (∃ t ∈ s :: seen, t.objects.get taskId = some r) →
      (∃ t ∈ s :: seen, t.objects.get taskId = some r') →
      (∃ t ∈ s :: seen, t.objects.get taskId = some r'') →
      Told taskId (s :: seen) (some { r with exitCode := r'.exitCode, finishedAt := r''.finishedAt })

/-- The reply is one to the request. -/
structure Answers (py : Interp) (x : Exchange) : Prop where
  shape : (∃ result, x.reply = ok (x.request.get "id") result) ∨
    ∃ code ∈ errorCodes, ∃ message, x.reply = err (x.request.get "id") code message
  plain : (Json.obj x.reply).Plain py.canon
  status : ∀ taskId, asksStatus x.request = some taskId →
    ∃ told, Told taskId x.seen told ∧ x.reply = Session.statusReply x.request told

/-- What a message can do. -/
inductive Dispatched (py : Interp) (s : ServerState) (msg : Payload) : Dispatch → Prop where
  | silent : isRequest msg = false → isExit msg = false → Dispatched py s msg .silent
  | exit : isExit msg = true → Dispatched py s msg .exit
  | answer (reply : Payload) : isRequest msg = true → Answers py ⟨msg, [s], reply⟩ →
      Dispatched py s msg (.answer reply)
  | queue (req : TaskRequest) : isRequest msg = true → asksStatus msg = none →
      Dispatched py s msg (.queue req)
  | look (taskId : String) : isRequest msg = true → asksStatus msg = some taskId →
      taskId ∈ s.tasks → Dispatched py s msg (.look taskId)

section Dispatch
variable {py : Interp} {cfg : McpConfig} {s : ServerState} {msg : Payload} {e : Elsewhere}

theorem dispatched_ok {result : Json} (hreq : isRequest msg = true)
    (hid : (msg.get "id").Plain py.canon) (hnone : asksStatus msg = none)
    (hresult : result.Plain py.canon) : Dispatched py s msg (.answer (ok (msg.get "id") result)) :=
  .answer _ hreq ⟨.inl ⟨result, rfl⟩, plain_ok hid hresult, fun _ h => by
    rw [hnone] at h
    cases h⟩

theorem dispatched_err {code : Int} {message : String} (hreq : isRequest msg = true)
    (hid : (msg.get "id").Plain py.canon) (hnone : asksStatus msg = none)
    (hcode : code ∈ errorCodes) :
    Dispatched py s msg (.answer (err (msg.get "id") code message)) :=
  .answer _ hreq ⟨.inr ⟨code, hcode, message, rfl⟩, plain_err hid, fun _ h => by
    rw [hnone] at h
    cases h⟩

/-- What a tool gives is written by `_tool_result`. -/
inductive ToolOutcome.Written : ToolOutcome → Prop where
  | result (payload : Json) (isError : Bool) : Written (.result (toolResult payload isError))
  | queue (req : TaskRequest) : Written (.queue req)
  | raised (x : ToolError) : Written (.raised x)

theorem dispatched_tool {o : ToolOutcome} (hreq : isRequest msg = true)
    (hid : (msg.get "id").Plain py.canon) (hnone : asksStatus msg = none) (h : o.Written) :
    Dispatched py s msg (o.dispatch (msg.get "id")) := by
  cases h with
  | result payload isError => exact dispatched_ok hreq hid hnone plain_toolResult
  | queue req => exact .queue req hreq hnone
  | raised x =>
    cases x with
    | value text => exact dispatched_err hreq hid hnone (by decide)
    | other text => exact dispatched_err hreq hid hnone (by decide)

theorem written_payload (result : Except ToolError Json) : (ToolOutcome.payload result).Written := by
  cases result with
  | ok payload => exact .result payload false
  | error x => exact .raised x

theorem written_exec (a : Payload) : (callExec py cfg s a).Written := by
  unfold callExec
  split
  · exact .raised _
  · split
    · exact .queue _
    · exact .raised _

theorem written_log (a : Payload) : (callLog e a).Written := by
  unfold callLog
  split
  · exact .raised _
  · split
    · exact .raised _
    · exact .result _ _
    · exact .result _ _

theorem written_verify (a : Payload) : (callVerify e a).Written := by
  unfold callVerify
  split
  · exact .raised _
  · exact written_payload _

theorem written_propose (a : Payload) : (callPropose e a).Written := by
  unfold callPropose
  split
  · exact .raised _
  · exact written_payload _

/-- Every tool but `mcp.status`. -/
theorem written_callTool {params : Payload}
    (hname : strArgument (params.get "name") ≠ some "mcp.status") :
    (callTool py cfg s params e).Written := by
  simp only [callTool, if_neg hname]
  split
  · exact written_exec _
  split
  · exact written_log _
  split
  · exact written_payload _
  split
  · exact written_verify _
  split
  · exact .result _ _
  split
  · exact written_propose _
  · exact .raised _

theorem dispatched_callTool (hreq : isRequest msg = true) (hid : (msg.get "id").Plain py.canon)
    (hmethod : strArgument (methodOf msg) = some "tools/call") :
    Dispatched py s msg
      ((callTool py cfg s (dictArgument (msg.get "params")) e).dispatch (msg.get "id")) := by
  by_cases hname : strArgument ((dictArgument (msg.get "params")).get "name") = some "mcp.status"
  · have hasks : asksStatus msg = strArgument ((dictArgument
        ((dictArgument (msg.get "params")).get "arguments")).get "taskId") := by
      rw [asksStatus, if_pos ⟨hmethod, hname⟩]
    have hcall : callTool py cfg s (dictArgument (msg.get "params")) e =
        callStatus s (dictArgument ((dictArgument (msg.get "params")).get "arguments")) := by
      simp [callTool, hname]
    rw [hcall, callStatus]
    cases htask : strArgument ((dictArgument
        ((dictArgument (msg.get "params")).get "arguments")).get "taskId") with
    | none =>
      rw [htask] at hasks
      exact dispatched_tool hreq hid hasks (.raised _)
    | some taskId =>
      rw [htask] at hasks
      dsimp only
      split
      · next hsome =>
        refine .look taskId hreq hasks ?_
        by_contra hnot
        rw [taskStatus, if_neg hnot] at hsome
        cases hsome
      · next hnone =>
        refine .answer _ hreq ⟨.inl ⟨_, rfl⟩, plain_ok hid plain_toolResult, fun other hother => ?_⟩
        rw [hasks] at hother
        obtain rfl := Option.some.inj hother
        exact ⟨none, .notFound s (by simpa using hnone), rfl⟩
  · refine dispatched_tool hreq hid ?_ (written_callTool hname)
    rw [asksStatus, if_neg fun h => hname h.2]

theorem dispatch_cases (hplain : (Json.obj msg).Plain py.canon) :
    Dispatched py s msg (dispatch py cfg s msg e) := by
  have hid := plain_get hplain "id"
  rw [dispatch]
  split
  · next h => exact .silent (by simp [isRequest, h]) (by simp [isExit, h])
  split
  · next h => exact .exit (by simp [isExit, h])
  next hinit hexit =>
  split
  · next h => exact .silent (by simp [isRequest, h]) (by simp [isExit, hexit])
  next hnull =>
  have hreq : isRequest msg = true := by simp [isRequest, isExit, hinit, hexit, hnull]
  have hnone : strArgument (methodOf msg) ≠ some "tools/call" → asksStatus msg = none := fun h => by
    rw [asksStatus, if_neg fun hand => h hand.1]
  split
  · next h => exact dispatched_ok hreq hid (hnone (by simp [h])) plain_initialize
  split
  · next h => exact dispatched_ok hreq hid (hnone (by simp [h])) ⟨List.nodup_nil, trivial⟩
  split
  · next h =>
    refine dispatched_ok hreq hid (hnone (by simp [h])) ?_
    exact ⟨List.nodup_singleton _, plain_toolList, trivial⟩
  split
  · next h => exact dispatched_callTool hreq hid h
  next hcall =>
  split
  · exact dispatched_ok hreq hid (hnone hcall) trivial
  · exact dispatched_err hreq hid (hnone hcall) (by decide)

end Dispatch

/-! ## Runs -/

/-- The messages up to the first `exit`. -/
def upToExit : List Payload → List Payload
  | [] => []
  | msg :: msgs => if isExit msg = true then [msg] else msg :: upToExit msgs

/-- What the loop has still to read. -/
def Session.ahead (py : Interp) (broken : Bool) (s : Session) : List Payload :=
  match s.loop with
  | .stopped => []
  | _ => upToExit (messages py broken s.stdin)

/-- The server behind those the answers are taken from. -/
structure Serving (n : Nat) (servers : List ServerState) (server : ServerState) : Prop where
  good : Good server
  history : History n server
  onward : (servers ++ [server]).Pairwise Onward

/-- A request that is being answered. -/
inductive Loop.Sound (py : Interp) : Loop → Prop where
  | reading : Sound py .reading
  | queueing (msg : Payload) : isRequest msg = true → asksStatus msg = none →
      (msg.get "id").Plain py.canon → Sound py (.queueing msg)
  | looking (msg : Payload) (taskId : String) (server : ServerState) (seen : List ServerState) :
      isRequest msg = true → asksStatus msg = some taskId → (msg.get "id").Plain py.canon →
      taskId ∈ server.tasks → Sound py (.looking msg taskId (server :: seen))
  | stopped : Sound py .stopped

/-- The states of the server the answers are taken from, in order. -/
def Session.seen (s : Session) : List ServerState :=
  s.exchanges.flatMap Exchange.seen ++ s.loop.seen

/-- What was read, what was answered and what was written are in step. -/
structure Conversing (py : Interp) (broken : Bool) (input : Bytes) (n : Nat) (s : Session) :
    Prop where
  heard : upToExit (messages py broken input) = s.heard ++ s.ahead py broken
  stdout : s.stdout = s.exchanges.flatMap fun x => write (.obj x.reply)
  asked : s.exchanges.map Exchange.request ++ s.pending = s.heard.filter isRequest
  sound : s.loop.Sound py
  answers : ∀ x ∈ s.exchanges, Answers py x
  serving : Serving n s.seen s.server

section Runs
variable {py : Interp} {cfg : McpConfig} {broken : Bool} {input : Bytes} {n : Nat}

theorem plain_of_read {bs rest : Bytes} {msg : Payload}
    (h : read py broken bs = .message msg rest) : (Json.obj msg).Plain py.canon := by
  obtain ⟨fs, f, -, hmsg⟩ := frames_of_read h
  obtain ⟨text, -, hloads⟩ := parseBody_eq_message (Frame.message_eq_some.mp hmsg).2
  exact plain_of_loads py.canonical hloads

theorem serving_step {servers : List ServerState} {server server' : ServerState} {m : Move}
    (hn : historyMax ≤ n) (hm : m.isRestart = false) (h : Serving n servers server)
    (hstep : step cfg server m = some server') : Serving n servers server' where
  good := good_step m h.good hstep
  history := history_step hn h.good h.history hstep
  onward := by
    have hon := onward_step h.good h.history hm hstep
    have honward := h.onward
    rw [List.pairwise_append] at honward ⊢
    refine ⟨honward.1, List.pairwise_singleton _ _, fun a ha b hb => ?_⟩
    obtain rfl := List.mem_singleton.mp hb
    exact (honward.2.2 a ha server List.mem_cons_self).trans hon

theorem serving_answer {servers : List ServerState} {server : ServerState}
    (h : Serving n servers server) : Serving n (servers ++ [server]) server where
  good := h.good
  history := h.history
  onward := by
    have honward := h.onward
    rw [List.pairwise_append]
    refine ⟨honward, List.pairwise_singleton _ _, fun a ha b hb => ?_⟩
    obtain rfl := List.mem_singleton.mp hb
    rcases List.mem_append.mp ha with ha | ha
    · exact (List.pairwise_append.mp honward).2.2 a ha _ List.mem_cons_self
    · obtain rfl := List.mem_singleton.mp ha
      exact .refl _

variable {s s' : Session}

theorem sound_sees {server : ServerState} {loop : Loop} (h : loop.Sound py) :
    (loop.sees server).Sound py := by
  cases h with
  | looking msg taskId first seen hreq hasks hid hmem =>
    exact .looking msg taskId first (seen ++ [server]) hreq hasks hid hmem
  | reading => exact .reading
  | queueing msg hreq hnone hid => exact .queueing msg hreq hnone hid
  | stopped => exact .stopped

theorem serving_sees {servers : List ServerState} {server : ServerState} {loop : Loop}
    (h : Serving n (servers ++ loop.seen) server) :
    Serving n (servers ++ (loop.sees server).seen) server := by
  cases loop with
  | looking msg taskId seen =>
    have := serving_answer h
    rwa [List.append_assoc] at this
  | _ => exact h

/-- The tasks go on. -/
theorem conversing_advance {server : ServerState} (hserving : Serving n s.seen server)
    (h : Conversing py broken input n s) : Conversing py broken input n (s.advance server) where
  heard := by
    have hahead : (s.advance server).ahead py broken = s.ahead py broken := by
      simp only [Session.ahead, Session.advance]
      cases s.loop <;> rfl
    rw [hahead]
    exact h.heard
  stdout := h.stdout
  asked := by
    have hpending : (s.advance server).pending = s.pending := by
      simp only [Session.pending, Session.advance]
      cases s.loop <;> rfl
    rw [hpending]
    exact h.asked
  sound := sound_sees h.sound
  answers := h.answers
  serving := serving_sees hserving

/-- The answer to the last request that was heard. -/
theorem conversing_answer {msg reply : Payload} {seen : List ServerState}
    (hanswer : Answers py ⟨msg, seen, reply⟩)
    (hheard : upToExit (messages py broken input) =
      s.heard ++ upToExit (messages py broken s.stdin))
    (hstdout : s.stdout = s.exchanges.flatMap fun x => write (.obj x.reply))
    (hasked : s.exchanges.map Exchange.request ++ [msg] = s.heard.filter isRequest)
    (hanswers : ∀ x ∈ s.exchanges, Answers py x)
    (hserving : Serving n (s.exchanges.flatMap Exchange.seen ++ seen) s.server) :
    Conversing py broken input n (s.answer msg seen reply) where
  heard := hheard
  stdout := by
    simp only [Session.answer, List.flatMap_append, hstdout, List.flatMap_cons, List.flatMap_nil,
      List.append_nil]
  asked := by
    simp only [Session.answer, Session.pending, List.map_append, List.map_cons, List.map_nil,
      List.append_nil, hasked]
  sound := .reading
  answers x hx := by
    rcases List.mem_append.mp hx with hx | hx
    · exact hanswers x hx
    · obtain rfl := List.mem_singleton.mp hx
      exact hanswer
  serving := by
    simpa only [Session.seen, Session.answer, Loop.seen, List.flatMap_append, List.flatMap_cons,
      List.flatMap_nil, List.append_nil] using hserving

theorem not_exit_of_request {msg : Payload} (h : isRequest msg = true) : isExit msg = false := by
  simp only [isRequest, Bool.and_eq_true, Bool.not_eq_true'] at h
  exact h.1.2

/-- The loop hears a message. -/
theorem conversing_hear (hn : historyMax ≤ n) {msg : Payload} {rest : Bytes} {e : Elsewhere}
    (hloop : s.loop = .reading) (hread : read py broken s.stdin = .message msg rest)
    (h : Conversing py broken input n s) :
    Conversing py broken input n (s.hear py cfg msg rest e) := by
  have hplain := plain_of_read hread
  have hpending : s.pending = [] := by rw [Session.pending, hloop]
  have hahead : s.ahead py broken = upToExit (msg :: messages py broken rest) := by
    rw [Session.ahead, hloop, messages_eq, hread]
    rfl
  have hheard := h.heard
  rw [hahead, upToExit] at hheard
  have hasked := h.asked
  rw [hpending, List.append_nil] at hasked
  have hserving : Serving n (s.exchanges.flatMap Exchange.seen) s.server := by
    have hseen := h.serving
    rw [Session.seen, hloop] at hseen
    exact List.append_nil (s.exchanges.flatMap Exchange.seen) ▸ hseen
  have hserving' : ∀ loop : Loop, loop.seen = [] →
      Serving n (s.exchanges.flatMap Exchange.seen ++ loop.seen) s.server := fun loop hnil => by
    rwa [hnil, List.append_nil]
  have hdispatched := @dispatch_cases py cfg s.server msg e hplain
  rw [Session.hear]
  generalize dispatch py cfg s.server msg e = d at hdispatched
  cases hdispatched with
  | silent hreq hexit =>
    rw [if_neg (by simp [hexit])] at hheard
    refine ⟨?_, h.stdout, ?_, hloop ▸ .reading, h.answers, h.serving⟩
    · simp only [Session.ahead, hloop, hheard, List.append_assoc, List.singleton_append]
    · simp only [Session.pending, hloop, List.filter_append, hasked, List.append_nil]
      simp [hreq]
  | exit hexit =>
    rw [if_pos hexit] at hheard
    have hreq : isRequest msg = false := by simp [isRequest, hexit]
    refine ⟨?_, h.stdout, ?_, .stopped, h.answers, hserving' .stopped rfl⟩
    · simp only [Session.ahead, List.append_nil, hheard]
    · simp only [Session.pending, List.filter_append, hasked, List.append_nil]
      simp [hreq]
  | answer reply hreq hanswer =>
    rw [if_neg (by simp [not_exit_of_request hreq])] at hheard
    refine conversing_answer hanswer ?_ h.stdout ?_ h.answers (serving_answer hserving)
    · simp only [hheard, List.append_assoc, List.singleton_append]
    · simp only [List.filter_append, hasked]
      simp [hreq]
  | queue req hreq hnone =>
    rw [if_neg (by simp [not_exit_of_request hreq])] at hheard
    have hqueued : Serving n (s.exchanges.flatMap Exchange.seen ++ [])
        ((step cfg s.server (.enqueue req)).getD s.server) := by
      rw [List.append_nil]
      cases hstep : step cfg s.server (.enqueue req) with
      | none => exact hserving
      | some server => exact serving_step hn rfl hserving hstep
    refine ⟨?_, h.stdout, ?_, .queueing msg hreq hnone (plain_get hplain "id"), h.answers, hqueued⟩
    · simp only [Session.ahead, hheard, List.append_assoc, List.singleton_append]
    · simp only [Session.pending, List.filter_append, hasked]
      simp [hreq]
  | look taskId hreq hasks hmem =>
    rw [if_neg (by simp [not_exit_of_request hreq])] at hheard
    refine ⟨?_, h.stdout, ?_, .looking msg taskId s.server [] hreq hasks (plain_get hplain "id") hmem,
      h.answers, serving_answer hserving⟩
    · simp only [Session.ahead, hheard, List.append_assoc, List.singleton_append]
    · simp only [Session.pending, List.filter_append, hasked]
      simp [hreq]

/-- What is read of a record since the look. -/
theorem told_of_toldRecord {taskId : String} {server : ServerState} {seen : List ServerState}
    {i j k : Nat} {told : TaskRecord} (hmem : taskId ∈ server.tasks)
    (h : Session.toldRecord (server :: seen) taskId i j k = some told) :
    Told taskId (server :: seen) (some told) := by
  simp only [Session.toldRecord, Option.bind_eq_bind, Option.bind_eq_some_iff, Option.pure_def,
    Option.some.injEq] at h
  obtain ⟨s₁, hi, r, hr, s₂, hj, r', hr', s₃, hk, r'', hr'', rfl⟩ := h
  exact .record server seen r r' r'' hmem ⟨s₁, List.mem_of_getElem? hi, hr⟩
    ⟨s₂, List.mem_of_getElem? hj, hr'⟩ ⟨s₃, List.mem_of_getElem? hk, hr''⟩

theorem conversing_step (hn : historyMax ≤ n) {m : SessionMove}
    (h : Conversing py broken input n s) (hstep : s.step py cfg broken m = some s') :
    Conversing py broken input n s' := by
  cases m with
  | receive e =>
    simp only [Session.step] at hstep
    split at hstep
    · next hloop =>
      have hpending : s.pending = [] := by rw [Session.pending, hloop]
      have hended : ∀ {result}, read py broken s.stdin = result →
          result.messages py broken = [] →
          Conversing py broken input n { s with loop := .stopped } := by
        rintro _ rfl hnil
        have hahead : s.ahead py broken = [] := by
          rw [Session.ahead, hloop, messages_eq, hnil]
          rfl
        have hheard := h.heard
        have hasked := h.asked
        have hserving := h.serving
        rw [hahead] at hheard
        rw [hpending] at hasked
        rw [Session.seen, hloop] at hserving
        exact ⟨hheard, h.stdout, hasked, .stopped, h.answers, hserving⟩
      split at hstep
      · next msg rest hread =>
        obtain rfl := Option.some.inj hstep
        exact conversing_hear hn hloop hread h
      · next hread =>
        obtain rfl := Option.some.inj hstep
        exact hended hread rfl
      · next hread =>
        obtain rfl := Option.some.inj hstep
        exact hended hread rfl
      · cases hstep
    · cases hstep
  | queue id now result =>
    simp only [Session.step] at hstep
    split at hstep
    · next msg hloop =>
      obtain ⟨server, hserver, rfl⟩ := Option.map_eq_some_iff.mp hstep
      have hpending : s.pending = [msg] := by rw [Session.pending, hloop]
      have hsound := h.sound
      have hheard := h.heard
      have hasked := h.asked
      have hserving := h.serving
      rw [hloop] at hsound
      rw [Session.ahead, hloop] at hheard
      rw [hpending] at hasked
      rw [Session.seen, hloop] at hserving
      replace hserving : Serving n (s.exchanges.flatMap Exchange.seen) s.server :=
        List.append_nil (s.exchanges.flatMap Exchange.seen) ▸ hserving
      obtain ⟨-, hnone, hid⟩ : isRequest msg = true ∧ asksStatus msg = none ∧
          (msg.get "id").Plain py.canon := by
        cases hsound with
        | queueing msg hreq hnone hid => exact ⟨hreq, hnone, hid⟩
      refine conversing_answer ⟨.inl ⟨_, rfl⟩, plain_ok hid plain_toolResult, fun _ hasks => ?_⟩
        hheard h.stdout hasked h.answers (serving_answer (serving_step hn rfl hserving hserver))
      dsimp only at hasks
      rw [hnone] at hasks
      cases hasks
    · cases hstep
  | tell i j k =>
    simp only [Session.step] at hstep
    split at hstep
    · next msg taskId seen hloop =>
      obtain ⟨told, htold, rfl⟩ := Option.map_eq_some_iff.mp hstep
      have hpending : s.pending = [msg] := by rw [Session.pending, hloop]
      have hsound := h.sound
      have hheard := h.heard
      have hasked := h.asked
      have hserving := h.serving
      rw [hloop] at hsound
      rw [Session.ahead, hloop] at hheard
      rw [hpending] at hasked
      rw [Session.seen, hloop] at hserving
      cases hsound with
      | looking msg taskId server seen hreq hasks hid hmem =>
        refine conversing_answer
          ⟨.inl ⟨_, rfl⟩, plain_ok hid plain_toolResult, fun other hother => ?_⟩ hheard h.stdout
          hasked h.answers hserving
        rw [hasks] at hother
        obtain rfl := Option.some.inj hother
        exact ⟨some told, told_of_toldRecord hmem htold, rfl⟩
    · cases hstep
  | thread id o =>
    obtain ⟨server, hserver, rfl⟩ := Option.map_eq_some_iff.mp hstep
    exact conversing_advance (serving_step hn rfl h.serving hserver) h
  | die id =>
    obtain ⟨server, hserver, rfl⟩ := Option.map_eq_some_iff.mp hstep
    exact conversing_advance (serving_step hn rfl h.serving hserver) h

theorem conversing_run {s₀ : ServerState} {ms : List SessionMove}
    (hrun : moves (Session.step py cfg broken) ms (.start s₀ input) = some s) :
    Conversing py broken input (max historyMax (restart s₀).tasks.length) s := by
  refine moves_inv (fun _ _ _ => conversing_step (Nat.le_max_left _ _)) ?_ hrun
  exact ⟨rfl, rfl, rfl, .reading, fun _ hx => absurd hx List.not_mem_nil,
    ⟨good_restart s₀, history_restart (Nat.le_max_right _ _), List.pairwise_singleton _ _⟩⟩

end Runs

/-! ## What the client sees -/

/-- A response to the request: its id, and either a result or an error. -/
structure Responds (request reply : Payload) : Prop where
  jsonrpc : reply.lookup "jsonrpc" = some (.str "2.0")
  id : reply.get "id" = request.get "id"
  outcome : reply.has "result" = !reply.has "error"

theorem responds_of_answers {py : Interp} {x : Exchange} (h : Answers py x) :
    Responds x.request x.reply := by
  rcases h.shape with ⟨result, heq⟩ | ⟨code, -, message, heq⟩
  · rw [heq]
    exact ⟨rfl, rfl, rfl⟩
  · rw [heq]
    exact ⟨rfl, rfl, rfl⟩

/-- In every run on any input: the loop hears the messages of the input, in order, up to the
first `exit`, and all of them when it stops. Each request that was heard has one answer, in
order, the last one perhaps still to come; the answers are what the client reads from stdout,
and each is a response to its request. -/
theorem session_answers {py client : Interp} {cfg : McpConfig} {broken broken' : Bool}
    {s₀ : ServerState} {input : Bytes} {ms : List SessionMove} {s : Session}
    (hrun : moves (Session.step py cfg broken) ms (.start s₀ input) = some s)
    (hcanon : client.canon = py.canon) (hfit : ∀ x ∈ s.exchanges, Fits client x.reply) :
    s.heard <+: upToExit (messages py broken input) ∧
    (s.loop = .stopped → s.heard = upToExit (messages py broken input)) ∧
    s.exchanges.map Exchange.request ++ s.pending = s.heard.filter isRequest ∧
    messages client broken' s.stdout = s.exchanges.map Exchange.reply ∧
    ∀ x ∈ s.exchanges, Responds x.request x.reply := by
  have h := conversing_run hrun
  refine ⟨⟨_, h.heard.symm⟩, fun hstopped => ?_, h.asked, ?_,
    fun x hx => responds_of_answers (h.answers x hx)⟩
  · rw [h.heard, Session.ahead, hstopped, List.append_nil]
  · have hwritten := @messages_written client broken' (s.exchanges.map Exchange.reply)
      (fun obj hobj => by
        obtain ⟨x, hx, rfl⟩ := List.mem_map.mp hobj
        exact ⟨hfit x hx, hcanon ▸ (h.answers x hx).plain⟩) []
    rw [List.append_nil, List.flatMap_map] at hwritten
    rw [h.stdout, hwritten]
    exact List.append_nil _

/-! A new process with one task in its history: a client pings and asks for the task. -/

def builtRecord : TaskRecord :=
  ⟨"t1", "build", .success, some 0, "10:00", some "10:05", "/ws", [], []⟩

def builtServer : ServerState := { emptyServer with historyFile := .records [builtRecord] }

def askStatus : Payload :=
  [("id", .num "2"), ("method", .str "tools/call"), ("params", .obj [("name", .str "mcp.status"),
    ("arguments", .obj [("taskId", .str "t1")])])]

def nothingElse : Elsewhere := ⟨.ok none, .ok .null, .ok .null, [], .ok .null⟩

def asking : Session := .start builtServer (write (.obj ping) ++ write (.obj askStatus))

def pinged : Session := asking.hear sampleInterp sampleMcp ping (write (.obj askStatus)) nothingElse

def pong : Payload := ok (.num "1") (.obj [])

theorem step_receive {py : Interp} {cfg : McpConfig} {broken : Bool} {s : Session} {msg : Payload}
    {rest : Bytes} {e : Elsewhere} (hloop : s.loop = .reading)
    (hread : read py broken s.stdin = .message msg rest) :
    s.step py cfg broken (.receive e) = some (s.hear py cfg msg rest e) := by
  simp only [Session.step, hloop, hread]

theorem asking_ping :
    asking.step sampleInterp sampleMcp false (.receive nothingElse) = some pinged :=
  step_receive rfl (read_written fits_ping plain_ping _)

/-- Behind the first request. -/
theorem pinged_answered : pinged.heard <+: upToExit (messages sampleInterp false asking.stdin) ∧
    messages sampleInterp false pinged.stdout = [pong] := by
  have hrun : moves (Session.step sampleInterp sampleMcp false) [.receive nothingElse] asking =
      some pinged := moves_cons.mpr ⟨_, asking_ping, rfl⟩
  have hpong : pinged.exchanges.map Exchange.reply = [pong] := rfl
  have hfits : Fits sampleInterp pong := ⟨by decide +kernel, rfl, rfl⟩
  obtain ⟨hheard, -, -, hread, -⟩ := @session_answers sampleInterp sampleInterp sampleMcp false
    false _ _ _ _ hrun rfl fun x hx => by
      have hreply : x.reply ∈ [pong] := hpong ▸ List.mem_map_of_mem hx
      rw [List.mem_singleton.mp hreply]
      exact hfits
  exact ⟨hheard, hread⟩

/-- The payload in the text of a result, as the client reads it. -/
def shownPayload (canon : String → String) (reply : Payload) : Option Json :=
  match (dictArgument (reply.get "result")).get "content" with
  | .arr [content] =>
    (strArgument ((dictArgument content).get "text")).bind fun text => loads canon text.toList
  | _ => none

theorem shown_toolResult {canon : String → String} {id payload : Json} {isError : Bool}
    (h : payload.Plain canon) : shownPayload canon (ok id (toolResult payload isError)) =
      some payload := by
  have hloads := @loads_dumps canon (indented 2) (blank_indented 2) 0 payload [] [] h
    (fun _ hc => absurd hc List.not_mem_nil) (fun _ hc => absurd hc List.not_mem_nil)
  rw [List.nil_append, List.append_nil] at hloads
  have htext : shownPayload canon (ok id (toolResult payload isError)) =
      loads canon (pretty payload).toList := rfl
  rw [htext, pretty, String.toList_ofList, hloads]

/-- What is told later about a task: it is the same task, each field has only gone on, and
those that belong to its end have stayed. -/
structure Further (r r' : TaskRecord) : Prop where
  taskId : r'.taskId = r.taskId
  task : r'.task = r.task
  startedAt : r'.startedAt = r.startedAt
  rank : r.status.rank ≤ r'.status.rank
  status : r.status.rank = 3 → r'.status = r.status
  exitCode : r.exitCode ≠ none → r'.exitCode = r.exitCode
  finishedAt : r.finishedAt ≠ none → r'.finishedAt = r.finishedAt

section Told
variable {id : String}

/-- Every state of the one answer comes before every state of the other. -/
def Before (x y : List ServerState × Option TaskRecord) : Prop :=
  ∀ s ∈ x.1, ∀ t ∈ y.1, Onward s t

theorem progressed_of_onward {s t : ServerState} {r r' : TaskRecord} (h : Onward s t)
    (hr : s.objects.get id = some r) (hr' : t.objects.get id = some r') : Progressed r r' := by
  obtain ⟨r₁, hr₁, hprogressed⟩ := h.record id r hr
  obtain rfl := Option.some.inj (hr₁.symm.trans hr')
  exact hprogressed

/-- Field by field, a later answer is one about later records. -/
theorem further_of_before {x y : List ServerState × Option TaskRecord} {r r' : TaskRecord}
    (hx : Told id x.1 (some r)) (hy : Told id y.1 (some r')) (h : Before x y) : Further r r' := by
  obtain ⟨xs, xo⟩ := x
  obtain ⟨ys, yo⟩ := y
  cases hx with
  | record s seen a b c _ ha hb hc =>
    cases hy with
    | record s' seen' a' b' c' _ ha' hb' hc' =>
      obtain ⟨t, ht, ha⟩ := ha
      obtain ⟨t', ht', ha'⟩ := ha'
      obtain ⟨u, hu, hb⟩ := hb
      obtain ⟨u', hu', hb'⟩ := hb'
      obtain ⟨v, hv, hc⟩ := hc
      obtain ⟨v', hv', hc'⟩ := hc'
      have hstatus := progressed_of_onward (h t ht t' ht') ha ha'
      have hexit := progressed_of_onward (h u hu u' hu') hb hb'
      have hfinished := progressed_of_onward (h v hv v' hv') hc hc'
      exact ⟨hstatus.taskId, hstatus.task, hstatus.startedAt, hstatus.rank,
        fun hend => show a'.status = a.status by rw [hstatus.ended hend], hexit.exitCode,
        hfinished.finishedAt⟩

theorem Told.ne_nil {seen : List ServerState} {told : Option TaskRecord} (h : Told id seen told) :
    ∃ s, s ∈ seen := by
  cases h with
  | notFound s _ => exact ⟨s, List.mem_cons_self⟩
  | record s seen _ _ _ _ _ _ _ => exact ⟨s, List.mem_cons_self⟩

/-- What has left the dictionary is not found any more. -/
theorem told_gone {s : ServerState} {l : List (List ServerState × Option TaskRecord)}
    {r : TaskRecord} (hl : ∀ x ∈ l, ∀ t ∈ x.1, Onward s t) (htold : ∀ x ∈ l, Told id x.1 x.2)
    (hr : s.objects.get id = some r) (hid : id ∉ s.tasks) :
    l.map (·.2) = List.replicate l.length none := by
  rw [List.eq_replicate_iff, List.length_map]
  refine ⟨rfl, fun o ho => ?_⟩
  obtain ⟨⟨seen, told⟩, hx, rfl⟩ := List.mem_map.mp ho
  cases htold _ hx with
  | notFound t _ => rfl
  | record t rest _ _ _ hmem _ _ _ =>
    exact absurd hmem ((hl _ hx t List.mem_cons_self).gone id r hr hid)

/-- Once the task is there: records, each further on than the last, and then none. -/
theorem told_known : ∀ {l : List (List ServerState × Option TaskRecord)}, l.Pairwise Before →
    (∀ x ∈ l, Told id x.1 x.2) → (∀ x ∈ l, ∃ s ∈ x.1, ∃ r, s.objects.get id = some r) →
    ∃ (rs : List TaskRecord) (b : Nat),
      l.map (·.2) = rs.map some ++ List.replicate b none ∧ rs.Pairwise Further
  | [], _, _, _ => ⟨[], 0, rfl, .nil⟩
  | (seen, told) :: l, hl, htold, hknown => by
    obtain ⟨hx, hrest⟩ := List.pairwise_cons.mp hl
    obtain ⟨hfirst, htold'⟩ := List.forall_mem_cons.mp htold
    obtain ⟨⟨t, ht, r, hr⟩, hknown'⟩ := List.forall_mem_cons.mp hknown
    cases told with
    | none =>
      refine ⟨[], l.length + 1, ?_, .nil⟩
      cases hfirst with
      | notFound s hnone =>
        obtain rfl := List.mem_singleton.mp ht
        have hid : id ∉ t.tasks := fun hmem => by
          rw [taskStatus, if_pos hmem, hr] at hnone
          cases hnone
        rw [List.map_cons, told_gone (fun y hy => hx y hy t ht) htold' hr hid]
        rfl
    | some r =>
      obtain ⟨rs, b, hmap, hfurther⟩ := told_known hrest htold' hknown'
      refine ⟨r :: rs, b, by rw [List.map_cons, hmap]; rfl,
        List.pairwise_cons.mpr ⟨fun r' hr' => ?_, hfurther⟩⟩
      have hmem : some r' ∈ l.map (·.2) := by
        rw [hmap]
        exact List.mem_append_left _ (List.mem_map_of_mem hr')
      obtain ⟨y, hy, hr'⟩ := List.mem_map.mp hmem
      exact further_of_before hfirst (hr' ▸ htold' y hy) (hx y hy)

theorem told (id : String) {l : List (List ServerState × Option TaskRecord)}
    (hl : l.Pairwise Before) (htold : ∀ x ∈ l, Told id x.1 x.2) :
    ∃ (a : Nat) (rs : List TaskRecord) (b : Nat), l.map (·.2) =
      List.replicate a none ++ rs.map some ++ List.replicate b none ∧ rs.Pairwise Further := by
  induction l with
  | nil => exact ⟨0, [], 0, rfl, .nil⟩
  | cons x l ih =>
    obtain ⟨hx, hrest⟩ := List.pairwise_cons.mp hl
    obtain ⟨hfirst, htold'⟩ := List.forall_mem_cons.mp htold
    by_cases hknown : ∃ s ∈ x.1, ∃ r, s.objects.get id = some r
    · have hall : ∀ y ∈ x :: l, ∃ s ∈ y.1, ∃ r, s.objects.get id = some r := by
        refine List.forall_mem_cons.mpr ⟨hknown, fun y hy => ?_⟩
        obtain ⟨s, hs, r, hr⟩ := hknown
        obtain ⟨t, ht⟩ := (htold' y hy).ne_nil
        obtain ⟨r', hr', -⟩ := (hx y hy s hs t ht).record id r hr
        exact ⟨t, ht, r', hr'⟩
      obtain ⟨rs, b, hmap, hfurther⟩ := told_known hl htold hall
      exact ⟨0, rs, b, hmap, hfurther⟩
    · obtain ⟨a, rs, b, hmap, hfurther⟩ := ih hrest htold'
      have hnone : x.2 = none := by
        obtain ⟨seen, o⟩ := x
        cases hfirst with
        | notFound s _ => rfl
        | record s rest r _ _ _ hr _ _ =>
          obtain ⟨t, ht, hr⟩ := hr
          exact absurd ⟨t, ht, r, hr⟩ hknown
      refine ⟨a + 1, rs, b, ?_, hfurther⟩
      rw [List.map_cons, hmap, hnone]
      rfl

end Told

/-- In every run: to the requests for the status of a task the client reads, in order, that it
is not known, then records of which each field is further on than in the one before, then, for
good, that it is not known. -/
theorem status_told {py : Interp} {cfg : McpConfig} {broken : Bool} {s₀ : ServerState}
    {input : Bytes} {ms : List SessionMove} {s : Session}
    (hrun : moves (Session.step py cfg broken) ms (.start s₀ input) = some s) (id : String) :
    ∃ (a : Nat) (rs : List TaskRecord) (b : Nat),
      (s.exchanges.filter fun x => asksStatus x.request = some id).map
        (fun x => shownPayload py.canon x.reply) =
        (List.replicate a notFound ++ rs.map statusRecord ++ List.replicate b notFound).map some ∧
      rs.Pairwise Further := by
  have h := conversing_run hrun
  let asked := s.exchanges.filter fun x => asksStatus x.request = some id
  have hanswered : ∀ x ∈ asked, ∃ o, Told id x.seen o ∧
      x.reply = Session.statusReply x.request o := by
    intro x hx
    obtain ⟨hx, hasks⟩ := List.mem_filter.mp hx
    exact (h.answers x hx).status id (by simpa using hasks)
  choose! answered htold hreply using hanswered
  have hbefore : (asked.map fun x => (x.seen, answered x)).Pairwise Before := by
    have honward := (List.pairwise_append.mp (List.pairwise_append.mp h.serving.onward).1).1
    exact List.pairwise_map.mpr ((List.pairwise_flatMap.mp honward).2.sublist List.filter_sublist)
  obtain ⟨a, rs, b, hmap, hfurther⟩ := told id hbefore fun x hx => by
    obtain ⟨y, hy, rfl⟩ := List.mem_map.mp hx
    exact htold y hy
  refine ⟨a, rs, b, ?_, hfurther⟩
  have hshown : ∀ x ∈ asked, shownPayload py.canon x.reply =
      some (((answered x).map statusRecord).getD notFound) := fun x hx => by
    rw [hreply x hx]
    exact shown_toolResult (plain_told _)
  have hall := congrArg
    (List.map fun o : Option TaskRecord => some ((o.map statusRecord).getD notFound)) hmap
  rw [List.map_map, List.map_map] at hall
  rw [List.map_congr_left hshown]
  refine hall.trans ?_
  simp only [List.map_append, List.map_replicate, List.map_map]
  rfl

/-- Behind the look. -/
def looked : Session := pinged.hear sampleInterp sampleMcp askStatus [] nothingElse

def asked : Session :=
  { looked.answer askStatus [looked.server] (Session.statusReply askStatus (some builtRecord)) with
    loop := .stopped }

theorem plain_askStatus : (Json.obj askStatus).Plain sampleInterp.canon := by
  have htwo : PlainNumber id "2" := .inr (.inr (.inr ⟨isToken_int 2, rfl⟩))
  simp [askStatus, Json.Plain, PlainFields, sampleInterp, htwo]

theorem fits_askStatus : Fits sampleInterp askStatus := ⟨by decide +kernel, rfl, rfl⟩

theorem asking_run : moves (Session.step sampleInterp sampleMcp false)
    [.receive nothingElse, .receive nothingElse, .tell 0 0 0, .receive nothingElse] asking =
      some asked := by
  have hask : pinged.step sampleInterp sampleMcp false (.receive nothingElse) = some looked := by
    refine step_receive rfl ?_
    have hstdin : pinged.stdin = write (.obj askStatus) ++ [] := by
      rw [List.append_nil]
      rfl
    rw [hstdin]
    exact read_written fits_askStatus plain_askStatus []
  have htold : Session.toldRecord [looked.server] "t1" 0 0 0 = some builtRecord := rfl
  have htell : looked.step sampleInterp sampleMcp false (.tell 0 0 0) =
      some (looked.answer askStatus [looked.server]
        (Session.statusReply askStatus (some builtRecord))) := by
    have hdispatch : dispatch sampleInterp sampleMcp pinged.server askStatus nothingElse =
        .look "t1" := rfl
    have hloop : looked.loop = .looking askStatus "t1" [looked.server] := by
      rw [looked, Session.hear, hdispatch]
    simp only [Session.step, hloop, htold, Option.map_some]
  have hend : (looked.answer askStatus [looked.server] (Session.statusReply askStatus
      (some builtRecord))).step sampleInterp sampleMcp false (.receive nothingElse) =
        some asked := rfl
  exact moves_cons.mpr ⟨_, asking_ping, moves_cons.mpr ⟨_, hask, moves_cons.mpr ⟨_, htell,
    moves_cons.mpr ⟨_, hend, rfl⟩⟩⟩⟩

/-- Behind both, and the end of the input. -/
theorem asked_told : (asked.exchanges.map fun x => asksStatus x.request) = [none, some "t1"] ∧
    ∃ (a : Nat) (rs : List TaskRecord) (b : Nat),
      (asked.exchanges.filter fun x => asksStatus x.request = some "t1").map
        (fun x => shownPayload id x.reply) =
        (List.replicate a notFound ++ rs.map statusRecord ++ List.replicate b notFound).map some ∧
      rs.Pairwise Further :=
  ⟨rfl, status_told asking_run "t1"⟩

end Nightfall.Mcp
