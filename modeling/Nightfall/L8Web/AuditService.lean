import Nightfall.Core.Json
import Nightfall.Core.Paging
import Nightfall.L2Registry.Registry

/-!
# Pages of the audit log (`api/services/audit_service.py`)

A page is a query for rows older than the cursor, newest first. The rows of the
table stand in the order of their ids, which are its rowids, so
`ORDER BY id DESC` is `reverse`. Rows may be appended, and files renamed, between
two requests.

* `getAuditLog_ok`: what one request answers.
* `audit_pages_exact`: the pages of a chain of requests are the matching rows of
  the log at the first request, newest first.
-/
namespace Nightfall.Web
open Nightfall.Core Storage

/-- A row of `audit_log` as the service selects it. -/
structure AuditLogRow where
  id : Nat
  sha256 : Option String
  accountName : Option String
  action : String
  reason : Option String
  detailsJson : Option String
  actor : String
  ts : String
  deriving DecidableEq, Repr

structure AuditEvent where
  id : Nat
  sha256 : Option String
  accountName : Option String
  clientIp : Option String
  action : String
  description : String
  reason : Option String
  filename : Option String
  details : Payload
  actor : String
  ts : String

structure AuditPage where
  events : List AuditEvent
  cursor : Option String
  hasMore : Bool

/-- `.get` on something that is no dictionary. -/
inductive ApiError where
  | attribute
  deriving DecidableEq, Repr

/-- What the service takes from Python's library. -/
structure PyText where
  /-- `str.capitalize` -/
  capitalize : String → String
  /-- `json.loads`, `none` for `JSONDecodeError` -/
  loads : String → Option Json
  /-- `bool(value)` of the number with this text -/
  numTruthy : String → Bool

/-! ## One event -/

def actionDescriptions : List (String × String) :=
  [("pending", "File queued for triage"),
    ("accepted", "File accepted"),
    ("rejected", "File rejected"),
    ("discard_rejected", "Rejected file discarded"),
    ("triage_accept_requested", "Accept requested"),
    ("triage_accept_applied", "Accept applied"),
    ("triage_reject_requested", "Reject requested"),
    ("triage_reject_applied", "Reject applied"),
    ("triage_defer_requested", "Defer requested"),
    ("triage_defer_applied", "Defer applied"),
    ("auth_failure", "Authentication failed")]

/-- mirrors api/services/audit_service.py:135-138 -/
def describeAction (py : PyText) (action : String) : String :=
  match actionDescriptions.lookup action with
  | some text => text
  | none => py.capitalize (pyStrip (String.ofList
      (action.toList.map fun c => if c = '_' then ' ' else c)))

/-- `bool(value)`. -/
def isTruthy (py : PyText) : Json → Bool
  | .null => false
  | .bool b => b
  | .num text => py.numTruthy text
  | .str s => s != ""
  | .arr items => !items.isEmpty
  | .obj fields => !fields.isEmpty

/-- `details.get(a) or details.get(b)`, when it is a text that is not blank. -/
def firstText (py : PyText) (details : Payload) (a b : String) : Option String :=
  let value := if isTruthy py (details.get a) then details.get a else details.get b
  match value with
  | .str s => if pyStrip s = "" then none else some s
  | _ => none

/-- `PurePosixPath(path).name`. -/
def posixName (path : String) : String :=
  let parts := (path.toList.splitOn '/').filter fun part => part ≠ [] ∧ part ≠ ['.']
  String.ofList (parts.getLast?.getD [])

/-- mirrors api/services/audit_service.py:141-158 -/
def deriveFilename (py : PyText) (details : Payload) (sha256 : Option String)
    (filenameBySha : String → Option String) : Option String :=
  match firstText py details "filename" "original_filename" with
  | some name => some (pyStrip name)
  | none =>
    let fromPath := (firstText py details "path" "path_hint").map fun p => pyStrip (posixName p)
    match fromPath.filter (· ≠ "") with
    | some name => some name
    | none => (sha256.filter (· ≠ "")).bind filenameBySha

/-- mirrors api/services/audit_service.py:160-175 -/
def filenameMapForSha (files : Table String FileRecord) (shaValues : List String) (sha : String) :
    Option String :=
  if shaValues.contains sha then
    ((files.get sha).bind (·.originalFilename)).filter fun name => pyStrip name ≠ ""
  else none

/-- `json.loads(row[5])`, or no details when there is no text or it does not parse. -/
def detailsOf (py : PyText) (row : AuditLogRow) : Except ApiError Payload :=
  match row.detailsJson.filter (· ≠ "") with
  | none => .ok []
  | some text =>
    match py.loads text with
    | none => .ok []
    | some (.obj fields) => .ok fields
    | some _ => .error .attribute

def stringOf : Json → Option String
  | .str s => some s
  | _ => none

/-- mirrors api/services/audit_service.py:80-107 -/
def auditEvent (py : PyText) (filenameBySha : String → Option String) (row : AuditLogRow) :
    Except ApiError AuditEvent :=
  match detailsOf py row with
  | .error e => .error e
  | .ok details => .ok {
      id := row.id
      sha256 := row.sha256
      accountName := row.accountName
      clientIp := stringOf (details.get "client_ip")
      action := row.action
      description := describeAction py row.action
      reason := row.reason
      filename := deriveFilename py details row.sha256 filenameBySha
      details := details
      actor := row.actor
      ts := row.ts }

def auditEvents (py : PyText) (filenameBySha : String → Option String) :
    List AuditLogRow → Except ApiError (List AuditEvent)
  | [] => .ok []
  | row :: rows =>
    match auditEvent py filenameBySha row with
    | .error e => .error e
    | .ok event =>
      match auditEvents py filenameBySha rows with
      | .error e => .error e
      | .ok events => .ok (event :: events)

/-! ## One page -/

def digitsValue (ds : List Char) : Option Nat :=
  if ds ≠ [] ∧ ds.all Char.isDigit then some (Nat.ofDigitChars 10 ds 0) else none

/-- `int(text)`, `none` for `ValueError`; underscores between digits and digits
outside ASCII, which Python also reads, aside. -/
def pyInt (text : String) : Option Int :=
  match stripBy isPySpace text.toList with
  | '-' :: ds => (digitsValue ds).map fun n => -(n : Int)
  | '+' :: ds => (digitsValue ds).map fun n => (n : Int)
  | ds => (digitsValue ds).map fun n => (n : Int)

/-- The id a page goes on behind; `0` for none. -/
def cursorId (afterCursor : Option String) : Int :=
  match afterCursor.filter (· ≠ "") with
  | none => 0
  | some text => (pyInt text).getD 0

/-- `action = ?`, unless there is no filter. -/
def actionMatches (actionFilter : Option String) (row : AuditLogRow) : Bool :=
  match actionFilter with
  | none => true
  | some action => action == "" || row.action == action

/-- `id < ?`, unless there is no cursor. -/
def isOlder (cursor : Int) (row : AuditLogRow) : Bool :=
  cursor == 0 || decide ((row.id : Int) < cursor)

/-- The rows a request selects, newest first. -/
def selectedRows (log : List AuditLogRow) (cursor : Int) (actionFilter : Option String) :
    List AuditLogRow :=
  (log.filter fun row => isOlder cursor row && actionMatches actionFilter row).reverse

/-- The page made of the rows fetched. -/
def auditPage (py : PyText) (files : Table String FileRecord) (rows : List AuditLogRow)
    (hasMore : Bool) : Except ApiError AuditPage :=
  let shaValues := (rows.filterMap (·.sha256)).filter (· ≠ "")
  match auditEvents py (filenameMapForSha files shaValues) rows with
  | .error e => .error e
  | .ok events => .ok {
      events := events
      cursor := if hasMore then events.getLast?.map fun e => toString e.id else none
      hasMore := hasMore }

/-- mirrors api/services/audit_service.py:34-110 -/
def getAuditLog (py : PyText) (log : List AuditLogRow) (files : Table String FileRecord)
    (limit : Nat) (afterCursor actionFilter : Option String) : Except ApiError AuditPage :=
  let fetched := probe limit (selectedRows log (cursorId afterCursor) actionFilter)
  auditPage py files fetched.1 fetched.2

/-! ## What an event says of its row -/

/-- The columns a row and its event share. -/
structure AuditColumns where
  id : Nat
  sha256 : Option String
  accountName : Option String
  action : String
  reason : Option String
  actor : String
  ts : String
  deriving DecidableEq, Repr

def AuditLogRow.columns (row : AuditLogRow) : AuditColumns :=
  ⟨row.id, row.sha256, row.accountName, row.action, row.reason, row.actor, row.ts⟩

def AuditEvent.columns (e : AuditEvent) : AuditColumns :=
  ⟨e.id, e.sha256, e.accountName, e.action, e.reason, e.actor, e.ts⟩

/-- The details are absent, do not parse, or are an object, as every writer of
the table stores them. -/
def Readable (py : PyText) (row : AuditLogRow) : Prop :=
  ∀ text ∈ row.detailsJson, ∀ v ∈ py.loads text, ∃ fields, v = .obj fields

section
variable {py : PyText}

theorem auditEvent_ok (names : String → Option String) {row : AuditLogRow} (h : Readable py row) :
    ∃ e, auditEvent py names row = .ok e ∧ e.columns = row.columns := by
  have hd : ∃ details, detailsOf py row = .ok details := by
    unfold detailsOf
    cases ht : row.detailsJson.filter (· ≠ "") with
    | none => exact ⟨[], rfl⟩
    | some text =>
      have hmem : text ∈ row.detailsJson := (Option.filter_eq_some_iff.mp ht).1
      cases hv : py.loads text with
      | none => exact ⟨[], by simp [hv]⟩
      | some v =>
        obtain ⟨fields, rfl⟩ := h text hmem v hv
        exact ⟨fields, by simp [hv]⟩
  obtain ⟨details, hd⟩ := hd
  exact ⟨_, by simp only [auditEvent, hd]; rfl, rfl⟩

theorem auditEvents_ok (names : String → Option String) :
    ∀ {rows : List AuditLogRow}, (∀ row ∈ rows, Readable py row) →
    ∃ events, auditEvents py names rows = .ok events ∧
      events.map AuditEvent.columns = rows.map AuditLogRow.columns
  | [], _ => ⟨[], rfl, rfl⟩
  | row :: rows, h => by
    obtain ⟨e, he, hcols⟩ := auditEvent_ok names (h row (by simp))
    obtain ⟨events, hes, hmap⟩ :=
      auditEvents_ok names fun row hrow => h row (List.mem_cons_of_mem _ hrow)
    exact ⟨e :: events, by simp [auditEvents, he, hes], by simp [hcols, hmap]⟩

theorem auditPage_ok (files : Table String FileRecord) {rows : List AuditLogRow} (hasMore : Bool)
    (h : ∀ row ∈ rows, Readable py row) :
    ∃ page, auditPage py files rows hasMore = .ok page ∧
      page.events.map AuditEvent.columns = rows.map AuditLogRow.columns ∧
      page.hasMore = hasMore ∧
      (hasMore = true → page.cursor = rows.getLast?.map fun row => toString row.id) := by
  obtain ⟨events, hevents, hcols⟩ := auditEvents_ok
    (filenameMapForSha files ((rows.filterMap (·.sha256)).filter (· ≠ ""))) h
  refine ⟨⟨events, if hasMore then events.getLast?.map fun e => toString e.id else none, hasMore⟩,
    by simp only [auditPage, hevents], hcols, rfl, fun hmore => ?_⟩
  have hlast := congrArg (fun cs => cs.getLast?.map fun c : AuditColumns => toString c.id) hcols
  simpa [hmore, List.getLast?_map, Option.map_map, Function.comp_def, AuditEvent.columns,
    AuditLogRow.columns] using hlast

/-- A page holds the newest `limit` of the selected rows, says whether that is
all of them, and names the last row it holds when it is not. -/
theorem getAuditLog_ok {log : List AuditLogRow} (files : Table String FileRecord) (limit : Nat)
    (afterCursor actionFilter : Option String) (h : ∀ row ∈ log, Readable py row)
    {rows : List AuditLogRow} (hrows : selectedRows log (cursorId afterCursor) actionFilter = rows) :
    ∃ page, getAuditLog py log files limit afterCursor actionFilter = .ok page ∧
      page.events.map AuditEvent.columns = (rows.take limit).map AuditLogRow.columns ∧
      page.hasMore = decide (limit < rows.length) ∧
      (limit < rows.length →
        page.cursor = (rows.take limit).getLast?.map fun row => toString row.id) := by
  have hsub : ∀ row ∈ rows.take limit, Readable py row := fun row hrow => by
    have hin := List.mem_of_mem_take hrow
    rw [← hrows] at hin
    exact h row (List.mem_of_mem_filter (List.mem_reverse.mp hin))
  obtain ⟨page, hpage, hcols, hmore, hcursor⟩ :=
    auditPage_ok files (decide (limit < rows.length)) hsub
  exact ⟨page, by rw [getAuditLog, hrows, probe_eq]; exact hpage, hcols, hmore,
    fun hlt => hcursor (by simpa using hlt)⟩

end

/-! ## The cursor -/

theorem not_isPySpace_of_isDigit {c : Char} (h : c.isDigit = true) : isPySpace c = false := by
  simp only [Char.isDigit, Bool.and_eq_true, decide_eq_true_eq] at h
  have h1 : 48 ≤ c.toNat := h.1
  have h2 : c.toNat ≤ 57 := h.2
  simp only [isPySpace, Bool.or_eq_false_iff, Bool.and_eq_false_iff, decide_eq_false_iff_not,
    beq_eq_false_iff_ne]
  omega

/-- `int(str(n)) = n`. -/
theorem pyInt_toString (n : Nat) : pyInt (toString n) = some (n : Int) := by
  have hdigits : ∀ c ∈ Nat.toDigits 10 n, c.isDigit = true := fun c hc =>
    Nat.isDigit_of_mem_toDigits (by decide) (by decide) hc
  have hvalue : digitsValue (Nat.toDigits 10 n) = some n := by
    have hall : (Nat.toDigits 10 n).all Char.isDigit = true := List.all_eq_true.mpr hdigits
    simp [digitsValue, hall, Nat.toDigits_ne_nil]
  have hstrip : stripBy isPySpace (toString n).toList = Nat.toDigits 10 n := by
    rw [Nat.toString_eq_repr, Nat.toList_repr]
    exact stripBy_eq_self fun c hc => not_isPySpace_of_isDigit (hdigits c hc)
  unfold pyInt
  rw [hstrip]
  split
  · next heq => simpa using hdigits '-' (by simp [heq])
  · next heq => simpa using hdigits '+' (by simp [heq])
  · rw [hvalue]; rfl

theorem cursorId_toString (n : Nat) : cursorId (some (toString n)) = n := by
  have hn := pyInt_toString n
  rw [Nat.toString_eq_repr] at hn ⊢
  simp [cursorId, Option.filter, hn]

/-! ## A chain of requests -/

/-- The log as the requests find it: rows are only appended, with ids that
increase from 1 on. -/
structure Growing (logs : Nat → List AuditLogRow) : Prop where
  grows : ∀ n, logs n <+: logs (n + 1)
  ordered : ∀ n, (logs n).Pairwise fun a b => a.id < b.id
  positive : ∀ n, ∀ row ∈ logs n, 1 ≤ row.id

theorem Growing.from_first {logs : Nat → List AuditLogRow} (h : Growing logs) :
    ∀ n, logs 0 <+: logs n
  | 0 => List.prefix_rfl
  | n + 1 => (h.from_first n).trans (h.grows n)

/-- Request `n` with this cursor answers with the page. -/
def AnswersAudit (py : PyText) (logs : Nat → List AuditLogRow)
    (files : Nat → Table String FileRecord) (limit : Nat) (actionFilter : Option String) (n : Nat)
    (cursor : Option String) (page : AuditPage) : Prop :=
  getAuditLog py (logs n) (files n) limit cursor actionFilter = .ok page

/-- The matching rows of a log, newest first. -/
def matching (log : List AuditLogRow) (actionFilter : Option String) : List AuditLogRow :=
  (log.filter (actionMatches actionFilter)).reverse

section
variable {py : PyText} {logs : Nat → List AuditLogRow} {limit : Nat} {actionFilter : Option String}

theorem selectedRows_none (log : List AuditLogRow) (actionFilter : Option String) :
    selectedRows log (cursorId none) actionFilter = matching log actionFilter := by
  simp [selectedRows, cursorId, isOlder, matching]

/-- Behind a row of the first log, later appends are out of sight. -/
theorem selectedRows_behind (h : Growing logs) (n : Nat) {row : AuditLogRow} (hrow : row ∈ logs 0) :
    selectedRows (logs n) row.id actionFilter =
      (matching (logs 0) actionFilter).filter fun b => decide (b.id < row.id) := by
  obtain ⟨added, hadded⟩ := h.from_first n
  have hpos : ¬ row.id = 0 := by
    have := h.positive 0 row hrow
    omega
  have hnew : added.filter (fun b => isOlder row.id b && actionMatches actionFilter b) = [] := by
    refine List.filter_eq_nil_iff.mpr fun b hb => ?_
    have hord := h.ordered n
    rw [← hadded] at hord
    have hlt := (List.pairwise_append.mp hord).2.2 row hrow b hb
    simp only [isOlder, Bool.and_eq_true, Bool.or_eq_true, beq_iff_eq, decide_eq_true_eq]
    omega
  have hold : ∀ b : AuditLogRow, isOlder row.id b = decide (b.id < row.id) := fun b => by
    simp [isOlder, hpos]
  rw [selectedRows, ← hadded, List.filter_append, hnew, List.append_nil, matching,
    List.filter_reverse, List.filter_filter]
  simp only [hold]

/-- The rows still to come are the end of the first log's matching rows that the
cursor cuts off. -/
def Pending (logs : Nat → List AuditLogRow) (actionFilter : Option String) (n : Nat)
    (cursor : Option String) (l : List AuditColumns) : Prop :=
  ∃ rows, l = rows.map AuditLogRow.columns ∧ rows <:+ matching (logs 0) actionFilter ∧
    selectedRows (logs n) (cursorId cursor) actionFilter = rows

theorem exact_audit (files : Nat → Table String FileRecord) (actionFilter : Option String)
    (h : Growing logs) (hread : ∀ n, ∀ row ∈ logs n, Readable py row) (hlimit : 1 ≤ limit) :
    Exact (AnswersAudit py logs files limit actionFilter) AuditPage.hasMore AuditPage.cursor
      (fun p => p.events.map AuditEvent.columns) (Pending logs actionFilter) where
  answered n c l := by
    rintro ⟨rows, rfl, -, hrows⟩
    obtain ⟨page, hpage, -⟩ := getAuditLog_ok (files n) limit c actionFilter (hread n) hrows
    exact ⟨page, hpage⟩
  last n c l p := by
    rintro ⟨rows, rfl, -, hrows⟩ hp hmore
    obtain ⟨page, hpage, hcols, hm, -⟩ :=
      getAuditLog_ok (files n) limit c actionFilter (hread n) hrows
    obtain rfl : page = p := Except.ok.inj (hpage.symm.trans hp)
    rw [hm, decide_eq_false_iff_not] at hmore
    rw [hcols, List.take_of_length_le (by omega)]
  step n c l p := by
    rintro ⟨rows, rfl, hsuffix, hrows⟩ hp hmore
    obtain ⟨page, hpage, hcols, hm, hcursor⟩ :=
      getAuditLog_ok (files n) limit c actionFilter (hread n) hrows
    obtain rfl : page = p := Except.ok.inj (hpage.symm.trans hp)
    rw [hm, decide_eq_true_eq] at hmore
    have htake : rows.take limit ≠ [] := by
      simp only [ne_eq, List.take_eq_nil_iff, not_or]
      exact ⟨by omega, List.ne_nil_of_length_pos (by omega)⟩
    -- the last row `a` of the page is where the next one goes on
    obtain ⟨xs, a, hxs⟩ := (List.eq_nil_or_concat' _).resolve_left htake
    obtain ⟨older, hall⟩ := hsuffix
    have hcut : xs ++ a :: rows.drop limit = rows := by
      rw [List.append_cons, ← hxs, List.take_append_drop]
    have hsplit : older ++ xs ++ a :: rows.drop limit = matching (logs 0) actionFilter := by
      rw [List.append_assoc, hcut, hall]
    have ha : a ∈ logs 0 := by
      have hmem : a ∈ matching (logs 0) actionFilter := by rw [← hsplit]; simp
      exact List.mem_of_mem_filter (List.mem_reverse.mp hmem)
    refine ⟨(rows.drop limit).map AuditLogRow.columns, ?_, ?_, rows.drop limit, rfl, ?_, ?_⟩
    · rw [hcols, ← List.map_append, List.take_append_drop]
    · simp only [List.length_map, List.length_drop]
      omega
    · rw [← hall]
      exact (List.drop_suffix limit rows).trans (List.suffix_append _ _)
    · have hord : (matching (logs 0) actionFilter).Pairwise fun x y => y.id < x.id :=
        List.pairwise_reverse.mpr ((h.ordered 0).filter _)
      rw [hcursor hmore, hxs, List.getLast?_concat, Option.map_some, cursorId_toString,
        selectedRows_behind h _ ha]
      rw [← hsplit] at hord ⊢
      exact filter_behind (r := fun x y : AuditLogRow => y.id < x.id) (by omega) hord

/-- For every log, filter and limit, with rows appended and files changed
between the requests: the chain of requests ends, and its pages hold the matching
rows the log had at the first request, each once and newest first. -/
theorem audit_pages_exact (py : PyText) (logs : Nat → List AuditLogRow)
    (files : Nat → Table String FileRecord) (limit : Nat) (actionFilter : Option String)
    (h : Growing logs) (hread : ∀ n, ∀ row ∈ logs n, Readable py row) (hlimit : 1 ≤ limit) :
    (∃ pages, Follows (AnswersAudit py logs files limit actionFilter) AuditPage.hasMore
      AuditPage.cursor 0 none pages) ∧
    ∀ pages, Follows (AnswersAudit py logs files limit actionFilter) AuditPage.hasMore
        AuditPage.cursor 0 none pages →
      (pages.flatMap (·.events)).map AuditEvent.columns =
          (matching (logs 0) actionFilter).map AuditLogRow.columns ∧
        (pages.flatMap (·.events)).Pairwise fun a b => b.id < a.id := by
  have hexact := exact_audit files actionFilter h hread hlimit
  have hfirst : Pending logs actionFilter 0 none
      ((matching (logs 0) actionFilter).map AuditLogRow.columns) :=
    ⟨_, rfl, List.suffix_rfl, selectedRows_none _ _⟩
  refine ⟨hexact.ends _ le_rfl hfirst, fun pages hpages => ?_⟩
  have hcols : (pages.flatMap (·.events)).map AuditEvent.columns =
      (matching (logs 0) actionFilter).map AuditLogRow.columns := by
    rw [List.map_flatMap]
    exact hexact.items_eq hpages hfirst
  refine ⟨hcols, ?_⟩
  have hord : ((matching (logs 0) actionFilter).map AuditLogRow.columns).Pairwise
      fun a b => b.id < a.id :=
    List.pairwise_map.mpr (List.pairwise_reverse.mpr ((h.ordered 0).filter _))
  rw [← hcols] at hord
  exact List.pairwise_map.mp hord

end

/-- Two rows at first; a third one is appended behind the first page. -/
def threeRows (n : Nat) : List AuditLogRow :=
  let row (id : Nat) : AuditLogRow := ⟨id, none, none, "pending", none, none, "cli", "t"⟩
  if n = 0 then [row 1, row 2] else [row 1, row 2, row 3]

def plainText : PyText := ⟨id, fun _ => none, fun _ => true⟩

theorem audit_pages_of_threeRows :
    (∃ pages, Follows (AnswersAudit plainText threeRows (fun _ => ∅) 1 (some "pending"))
      AuditPage.hasMore AuditPage.cursor 0 none pages) ∧
    ∀ pages, Follows (AnswersAudit plainText threeRows (fun _ => ∅) 1 (some "pending"))
        AuditPage.hasMore AuditPage.cursor 0 none pages →
      (pages.flatMap (·.events)).map AuditEvent.columns =
          (matching (threeRows 0) (some "pending")).map AuditLogRow.columns ∧
        (pages.flatMap (·.events)).Pairwise fun a b => b.id < a.id := by
  have hcases : ∀ n, threeRows n = threeRows 0 ∨ threeRows n = threeRows 1 := fun n => by
    cases n with
    | zero => exact .inl rfl
    | succ n => exact .inr rfl
  refine audit_pages_exact plainText threeRows (fun _ => ∅) 1 (some "pending") ⟨?_, ?_, ?_⟩ ?_ le_rfl
  · intro n
    cases n with
    | zero => decide
    | succ n => exact List.prefix_rfl
  · intro n
    rcases hcases n with h | h <;> rw [h] <;> decide
  · intro n
    rcases hcases n with h | h <;> rw [h] <;> decide
  · intro n row _ text _ v hv
    cases hv

end Nightfall.Web
