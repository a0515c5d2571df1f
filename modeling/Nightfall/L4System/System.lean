import Nightfall.L3Flows.Specs

/-!
# Sequential runs

The commands one process runs after another, what may happen outside between
them (the operator's files, the block rules), and the events of a whole run;
then the same with the web service's triage calls among them.
-/
namespace Nightfall
open Nightfall.Core Storage Prog

inductive Command where
  | processBatch (eng : Engine) (bp : BatchParams) (cs : List StagedCandidate)
  | acceptSha256 (sha : String) (reason : Option String) (actor : String)
  | rejectSha256 (sha : String) (reason : Option String) (actor : String)
  | processTrash
  | purgeSha256 (sha : String) (reason : Option String) (actor : String)

/-- The command with its result dropped. -/
def Command.flow (env : Env) (cfg : CoreConfig) : Command → Flow Unit
  | .processBatch eng bp cs => do let _ ← Nightfall.processBatch env eng bp cs
  | .acceptSha256 sha reason actor => do let _ ← Nightfall.acceptSha256 env cfg sha reason actor
  | .rejectSha256 sha reason actor => do let _ ← Nightfall.rejectSha256 env cfg sha reason actor
  | .processTrash => do let _ ← Nightfall.processTrash env cfg
  | .purgeSha256 sha reason actor => do let _ ← Nightfall.purgeSha256 cfg sha reason actor

/-- One entry of a run: a command, or a change made outside between commands. -/
inductive Action where
  | command (c : Command)
  | outside (fs : Table Path Bytes) (rules : List BlockRule)

def Action.after (env : Env) (cfg : CoreConfig) (w : World) : Action → World
  | .command c => ((c.flow env cfg).run (handle env) w).2
  | .outside fs rules => { w with fs := fs, reg := { w.reg with blockedRules := rules } }

def Action.events (env : Env) (cfg : CoreConfig) (w : World) : Action → List (Event Ops World)
  | .command c => (c.flow env cfg).trace (handle env) w
  | .outside _ _ => []

/-- The world after a run. -/
def after (env : Env) (cfg : CoreConfig) : List Action → World → World
  | [], w => w
  | a :: as, w => after env cfg as (a.after env cfg w)

/-- Every step executed in a run. -/
def events (env : Env) (cfg : CoreConfig) : List Action → World → List (Event Ops World)
  | [], _ => []
  | a :: as, w => a.events env cfg w ++ events env cfg as (a.after env cfg w)

/-- A fact about every step of every command is a fact about every step of
every run. -/
theorem events_of_command {env : Env} {cfg : CoreConfig} {G : Op → World → World → Prop}
    (h : ∀ (c : Command) (w : World), (c.flow env cfg).Along (handle env) G w fun _ _ => True) :
    ∀ (as : List Action) (w : World), ∀ e ∈ events env cfg as w, G e.op e.pre e.post
  | [], _, e, he => by cases he
  | a :: as, w, e, he => by
    rcases List.mem_append.mp he with he | he
    · cases a with
      | command c => exact along_trace (h c w) e he
      | outside fs rules => cases he
    · exact events_of_command h as _ e he

theorem post_of_mem_events {env : Env} {cfg : CoreConfig} :
    ∀ (as : List Action) (w : World), ∀ e ∈ events env cfg as w, e.post = (handle env e.op e.pre).2
  | [], _, e, he => by cases he
  | a :: as, w, e, he => by
    rcases List.mem_append.mp he with he | he
    · cases a with
      | command c => exact trace_post e he
      | outside fs rules => cases he
    · exact post_of_mem_events as _ e he

/-! ## Both control planes -/

/-- One entry of a run in which the web service and the maintenance command
take part. -/
inductive Call where
  | action (a : Action)
  | triage (a : TriageAction) (item key : String) (reason : Option String) (actor : String)
  | pruneAuthFailures (keepLatest : Int)

/-- `prune_auth_failure_audit_backlog`. -/
def pruneAuthFailureAuditBacklog (keepLatest : Int) : Flow Unit :=
  transact (.pruneAuthFailureAuditBacklog keepLatest)

def Call.after (env : Env) (cfg : CoreConfig) (w : World) : Call → World
  | .action a => a.after env cfg w
  | .triage a item key reason actor =>
    ((triageExecute a item key reason actor).run (handle env) w).2
  | .pruneAuthFailures keep => ((pruneAuthFailureAuditBacklog keep).run (handle env) w).2

def afterCalls (env : Env) (cfg : CoreConfig) : List Call → World → World
  | [], w => w
  | c :: cs, w => afterCalls env cfg cs (c.after env cfg w)

/-! ## A small concrete machine

Two one-byte files `a` and `b`, one modification time and the default
templates; the runs that show a property failing start from it. -/

def shaA : String := "ca978112ca1bbdcafac231b39a23dc4da786eff8147c4e72b9807785afee48bb"

def shaB : String := "3e23e8160039594a33894f6564e1b1348bbd7a0088d42c4acb73eeaed59c009d"

def shaEmpty : String := "e3b0c44298fc1c149afbf4c8996fb92427ae41e4649b934ca495991b7852b855"

def sampleEnv : Env where
  sha256 b := if b = [97] then shaA else if b = [98] then shaB else shaEmpty
  sha256Text _ := shaEmpty
  fromisoformat s :=
    if s = "2024-01-02T03:04:05+00:00" then some ⟨2024, 1, 1704164645000000⟩ else none
  fnmatch name pattern := name == pattern
  reSearch _ _ := some false
  device _ := 0
  lineBytes _ := 200
  clock _ := ⟨"2024-06-01T00:00:00+00:00", ⟨2024, 6, 1717200000000000⟩⟩
  uuid n := toString n ++ "23456789abcd4ef08123456789abcde"

theorem sampleEnv_isSha (b : Bytes) : IsSha (sampleEnv.sha256 b) := by
  simp only [sampleEnv]
  split
  · unfold IsSha; decide +kernel
  · split <;> (unfold IsSha; decide +kernel)

/-- The template of the default configuration. -/
def sampleTemplate : String := "{yyyy}/{mm}/{original}"

def sampleConfig : CoreConfig where
  pendingPath := ["lib", "pending"]
  acceptedPath := ["lib", "accepted"]
  rejectedPath := ["lib", "rejected"]
  trashPath := ["lib", "trash"]
  storageTemplate := sampleTemplate
  acceptedStorageTemplate := sampleTemplate
  storage_named := by decide +kernel
  accepted_named := by decide +kernel
  distinct := by decide +kernel

def sampleParams : IngestParams :=
  ⟨["lib", "pending"], sampleTemplate, true, true, .allow, none, 10000⟩

def sampleCandidate (onedriveId : String) (staging : Path) : StagedCandidate :=
  ⟨"alice", onedriveId, "IMG.JPG", "/Camera/IMG.JPG", "2024-01-02T03:04:05Z", none, staging⟩

/-- A machine with the given files and registry. -/
def sampleWorld (files : List (Path × Bytes)) (reg : Registry) : World :=
  ⟨files.foldl (fun fs f => fs.put f.1 f.2) ∅, reg, Journal.empty, 0, 0⟩

/-- The row of one file. -/
def sampleRow (status : Status) (path : Option Path) : FileRecord :=
  ⟨1, status, some "IMG.JPG", path, "2024-05-01T00:00:00+00:00", "2024-05-01T00:00:00+00:00"⟩

def sampleBatch : BatchParams :=
  ⟨["lib", "pending"], sampleTemplate, true, 1, true, "allow", none, true, 10000, none⟩

/-- A photo arrives in staging, is ingested, accepted and then rejected. -/
def sampleActions : List Action :=
  [.outside (Table.put ∅ ["staging", "x"] [97]) [],
    .command (.processBatch ⟨none⟩ sampleBatch [sampleCandidate "id1" ["staging", "x"]]),
    .command (.acceptSha256 shaA none "cli"),
    .command (.rejectSha256 shaA none "cli")]

/-- The world after one photo was ingested. -/
def standingWorld : World :=
  after sampleEnv sampleConfig (sampleActions.take 2) (sampleWorld [] Registry.empty)

def standingRow : FileRecord :=
  ⟨1, .pending, some "IMG.JPG", some ["lib", "pending", "2024", "01", "IMG.JPG"],
    "2024-06-01T00:00:00+00:00", "2024-06-01T00:00:00+00:00"⟩

end Nightfall
