import Nightfall.Core.KeyedList
import Nightfall.Core.Linearize
import Nightfall.L2Registry.Registry

/-!
# The blocklist service (`api/services/blocklist_service.py`)

`BlocklistService` creates, changes and deletes the rules that ingest consults. A call
looks its idempotency key up, a PATCH or DELETE then reads the rule, and one transaction
writes the rule and stores the response under the key. Processes share the database, so
other calls, triage calls (which store keys in the same table) and ingest runs (which
read the enabled rules) come in between.

* `BlockedRules`, `BlocklistDb`: the two tables, with their constraints.
* `effects_in_order`: whatever the interleaving, each call takes effect in its last step.
* `blocklist_once`: a key changes the rules at most once, all responses to it are the one
  stored with that change, and a call that raises changed nothing.
* `blocklist_serializable`: when no call finds its key or its rule changed between two
  of its steps, the calls have run one after the other.
* `lost_update`: two PATCHes of one rule that read it at the same time.
-/
namespace Nightfall.Web
open Nightfall.Core

/-! ## The tables -/

/-- A row of `blocked_rules`.
mirrors api/schemas/blocklist.py:10-19 -/
structure BlockRule extends Nightfall.BlockRule where
  reason : Option String
  createdAt : String
  updatedAt : String
  deriving DecidableEq, Repr

/-- The primary key. -/
def BlockRule.rowid (r : BlockRule) : Nat := r.id

/-- mirrors api/schemas/blocklist.py:28-34 -/
structure BlockRuleCreate where
  pattern : String
  ruleType : RuleType
  reason : Option String
  enabled : Bool

/-- mirrors api/schemas/blocklist.py:37-43 -/
structure BlockRuleUpdate where
  pattern : Option String
  ruleType : Option RuleType
  reason : Option String
  enabled : Option Bool

/-- `blocked_rules` in rowid order; `seq` is the largest id ever given.
mirrors src/nightfall_photo_ingress/domain/registry.py:1141-1149 -/
structure BlockedRules where
  rows : List BlockRule
  seq : Nat
  ordered : rows.Pairwise (·.id < ·.id)
  bounded : ∀ r ∈ rows, r.id ≤ seq
  unique : (rows.map (·.pattern)).Nodup

namespace BlockedRules

theorem ext {t u : BlockedRules} (hrows : t.rows = u.rows) (hseq : t.seq = u.seq) : t = u := by
  cases t
  cases u
  cases hrows
  cases hseq
  rfl

def empty : BlockedRules := ⟨[], 0, .nil, fun _ h => absurd h List.not_mem_nil, List.nodup_nil⟩

/-- `SELECT ... WHERE id = ?`. -/
def get (t : BlockedRules) (id : Nat) : Option BlockRule := atKey BlockRule.rowid t.rows id

theorem get_some {t : BlockedRules} {id : Nat} {r : BlockRule} (h : t.get id = some r) :
    r.id = id ∧ id ≤ t.seq := by
  have hid : r.rowid = id := key_of_atKey h
  exact ⟨hid, hid ▸ t.bounded r (mem_of_atKey h)⟩

/-- `SELECT rule_type, pattern ... WHERE enabled = 1 ORDER BY id`. -/
def enabled (t : BlockedRules) : List (RuleType × String) :=
  (t.rows.filter (·.enabled)).map fun r => (r.ruleType, r.pattern)

theorem ordered_append {rows : List BlockRule} {seq : Nat} {r : BlockRule} (hid : r.id = seq + 1)
    (ho : rows.Pairwise (·.id < ·.id)) (hb : ∀ r ∈ rows, r.id ≤ seq) :
    (rows ++ [r]).Pairwise (·.id < ·.id) := by
  refine List.pairwise_append.mpr ⟨ho, List.pairwise_singleton _ _, fun x hx y hy => ?_⟩
  obtain rfl := List.mem_singleton.mp hy
  have := hb x hx
  omega

theorem bounded_append {rows : List BlockRule} {seq : Nat} {r : BlockRule} (hid : r.id = seq + 1)
    (hb : ∀ r ∈ rows, r.id ≤ seq) : ∀ x ∈ rows ++ [r], x.id ≤ seq + 1 := by
  intro x hx
  rcases List.mem_append.mp hx with hx | hx
  · exact Nat.le_succ_of_le (hb x hx)
  · obtain rfl := List.mem_singleton.mp hx
    omega

theorem unique_append {rows : List BlockRule} {r : BlockRule}
    (hu : (rows.map (·.pattern)).Nodup) (hnew : r.pattern ∉ rows.map (·.pattern)) :
    ((rows ++ [r]).map (·.pattern)).Nodup := by
  rw [List.map_append, List.nodup_append]
  refine ⟨hu, List.nodup_singleton _, fun a ha b hb => ?_⟩
  obtain rfl := List.mem_singleton.mp hb
  rintro rfl
  exact hnew ha

/-- The row an `INSERT` makes. -/
def newRow (t : BlockedRules) (payload : BlockRuleCreate) (now : String) : BlockRule :=
  ⟨⟨t.seq + 1, payload.ruleType, payload.pattern, payload.enabled⟩, payload.reason, now, now⟩

/-- `INSERT`: refused when the pattern is there. -/
def insert (t : BlockedRules) (payload : BlockRuleCreate) (now : String) :
    Option (BlockRule × BlockedRules) :=
  if h : payload.pattern ∈ t.rows.map (·.pattern) then none
  else some (t.newRow payload now,
    ⟨t.rows ++ [t.newRow payload now], t.seq + 1, ordered_append rfl t.ordered t.bounded,
      bounded_append rfl t.bounded, unique_append t.unique h⟩)

/-- Ids go up, so the id of a new row is free. -/
theorem get_insert {t t' : BlockedRules} {payload : BlockRuleCreate} {now : String} {r : BlockRule}
    (h : t.insert payload now = some (r, t')) : r.id = t.seq + 1 ∧ t'.seq = t.seq + 1 ∧
      ∀ id, t'.get id = if id = t.seq + 1 then some r else t.get id := by
  unfold insert at h
  split at h
  · cases h
  · simp only [Option.some.injEq, Prod.mk.injEq] at h
    obtain ⟨rfl, rfl⟩ := h
    refine ⟨rfl, rfl, fun id => ?_⟩
    show atKey BlockRule.rowid (t.rows ++ [t.newRow payload now]) id = _
    have hrow : (t.newRow payload now).rowid = t.seq + 1 := rfl
    rw [atKey_append, hrow]
    by_cases hid : id = t.seq + 1
    · have hnone : t.get id = none := by
        cases hget : t.get id with
        | none => rfl
        | some r' =>
          have := (get_some hget).2
          omega
      rw [get] at hnone
      rw [hnone, if_pos hid, if_pos hid.symm]
      rfl
    · rw [if_neg hid, if_neg (Ne.symm hid), Option.or_none, get]

/-- The columns `UPDATE` sets. -/
structure Columns where
  pattern : String
  ruleType : RuleType
  reason : Option String
  enabled : Bool

def Columns.write (c : Columns) (now : String) (r : BlockRule) : BlockRule :=
  ⟨⟨r.id, c.ruleType, c.pattern, c.enabled⟩, c.reason, r.createdAt, now⟩

@[simp] theorem write_id (c : Columns) (now : String) (r : BlockRule) : (c.write now r).id = r.id :=
  rfl

/-- The rows after the `UPDATE` of one. -/
def updated (rows : List BlockRule) (id : Nat) (c : Columns) (now : String) : List BlockRule :=
  rows.map fun r => if r.id = id then c.write now r else r

theorem ids_updated (rows : List BlockRule) (id : Nat) (c : Columns) (now : String) :
    (updated rows id c now).map (·.id) = rows.map (·.id) := by
  rw [updated, List.map_map]
  refine List.map_congr_left fun r _ => ?_
  simp only [Function.comp_apply]
  split <;> rfl

theorem ordered_updated {rows : List BlockRule} (id : Nat) (c : Columns) (now : String)
    (h : rows.Pairwise (·.id < ·.id)) : (updated rows id c now).Pairwise (·.id < ·.id) := by
  have hids : (rows.map (·.id)).Pairwise (· < ·) := List.pairwise_map.mpr h
  rw [← ids_updated rows id c now] at hids
  exact List.pairwise_map.mp hids

theorem bounded_updated {rows : List BlockRule} {seq : Nat} (id : Nat) (c : Columns) (now : String)
    (h : ∀ r ∈ rows, r.id ≤ seq) : ∀ r ∈ updated rows id c now, r.id ≤ seq := by
  intro r hr
  have hid : r.id ∈ rows.map (·.id) := by
    rw [← ids_updated rows id c now]
    exact List.mem_map_of_mem hr
  obtain ⟨r', hr', heq⟩ := List.mem_map.mp hid
  rw [← heq]
  exact h r' hr'

/-- `UPDATE ... WHERE id = ?`: refused when another row has the pattern. -/
def update (t : BlockedRules) (id : Nat) (c : Columns) (now : String) : Option BlockedRules :=
  if h : ((updated t.rows id c now).map (·.pattern)).Nodup then
    some ⟨updated t.rows id c now, t.seq, ordered_updated id c now t.ordered,
      bounded_updated id c now t.bounded, h⟩
  else none

theorem get_update {t t' : BlockedRules} {id : Nat} {c : Columns} {now : String}
    (h : t.update id c now = some t') : t'.seq = t.seq ∧
      ∀ id', t'.get id' = if id' = id then (t.get id).map (c.write now) else t.get id' := by
  unfold update at h
  split at h
  · obtain rfl := Option.some.inj h
    exact ⟨rfl, fun id' => atKey_modify fun r => write_id c now r⟩
  · cases h

theorem bounded_filter {rows : List BlockRule} {seq : Nat} (id : Nat)
    (h : ∀ r ∈ rows, r.id ≤ seq) : ∀ r ∈ rows.filter (·.id ≠ id), r.id ≤ seq :=
  fun r hr => h r (List.mem_of_mem_filter hr)

/-- `DELETE ... WHERE id = ?`. -/
def delete (t : BlockedRules) (id : Nat) : BlockedRules :=
  ⟨t.rows.filter (·.id ≠ id), t.seq, t.ordered.filter _, bounded_filter id t.bounded,
    t.unique.sublist (List.filter_sublist.map _)⟩

theorem get_delete (t : BlockedRules) (id id' : Nat) :
    (t.delete id).get id' = if id' = id then none else t.get id' :=
  atKey_filter_ne

end BlockedRules

/-- Who stored a response: the `action` column of `ui_action_idempotency`. -/
inductive StoredAction where
  | blocklistCreate
  | blocklistUpdate
  | blocklistDelete
  | triage (a : TriageAction)
  deriving DecidableEq, Repr

inductive ResponseBody where
  | rule (r : BlockRule)
  | deletion (id : Nat) (deleted : Bool)
  | triage (itemId : String) (state : Status)
  deriving DecidableEq, Repr

/-- A row of `ui_action_idempotency`. -/
structure StoredResponse where
  action : StoredAction
  itemId : String
  responseStatus : Nat
  responseBody : ResponseBody
  deriving DecidableEq, Repr

structure BlocklistDb where
  rules : BlockedRules
  keys : Table String StoredResponse

/-! ## The service -/

inductive BlocklistError where
  /-- `ValueError`, answered with 409 -/
  | value (msg : String)
  /-- a stored body that is not of the class asked for; also a `ValueError` -/
  | validation
  /-- `LookupError`, answered with 404 -/
  | lookup (msg : String)
  | assertion
  | integrity
  | operational (msg : String)
  deriving DecidableEq, Repr

inductive BlocklistTx where
  | create (payload : BlockRuleCreate) (key now : String)
  | update (ruleId : Nat) (next : BlockedRules.Columns) (key now : String)
  | delete (ruleId : Nat) (key : String)
  | triage (a : TriageAction) (itemId key : String)

abbrev Response := Nat × ResponseBody

namespace BlocklistDb

/-- mirrors api/services/blocklist_service.py:202-235 -/
def persistIdempotency (db : BlocklistDb) (key : String) (row : StoredResponse) :
    Option (Table String StoredResponse) :=
  if db.keys.get key = none then some (db.keys.put key row) else none

/-- The end of a transaction whose new rules are there: the response is stored, or the
transaction is rolled back with `taken`. -/
def answered (db : BlocklistDb) (rules : BlockedRules) (key : String) (row : StoredResponse)
    (taken : BlocklistError) : Except BlocklistError (Response × BlocklistDb) :=
  match db.persistIdempotency key row with
  | some keys => .ok ((row.responseStatus, row.responseBody), ⟨rules, keys⟩)
  | none => .error taken

/-- From `BEGIN` to `COMMIT`; an error is a rollback. -/
def apply (db : BlocklistDb) : BlocklistTx → Except BlocklistError (Response × BlocklistDb)
  | .create payload key now =>
    match db.rules.insert payload now with
    | none => .error (.value "Blocklist pattern already exists or rule_type invalid")
    | some (r, rules) =>
      db.answered rules key ⟨.blocklistCreate, payload.pattern, 201, .rule r⟩
        (.value "Blocklist pattern already exists or rule_type invalid")
  | .update ruleId next key now =>
    match db.rules.update ruleId next now with
    | none => .error (.value "Blocklist update violates uniqueness or rule_type constraints")
    | some rules =>
      match rules.get ruleId with
      | none => .error .assertion
      | some r =>
        db.answered rules key ⟨.blocklistUpdate, toString ruleId, 200, .rule r⟩
          (.value "Blocklist update violates uniqueness or rule_type constraints")
  | .delete ruleId key =>
    db.answered (db.rules.delete ruleId) key
      ⟨.blocklistDelete, toString ruleId, 200, .deletion ruleId true⟩ .integrity
  | .triage a itemId key =>
    db.answered db.rules key ⟨.triage a, itemId, 200, .triage itemId a.state⟩ .integrity

end BlocklistDb

inductive BlocklistOp where
  | replayed (key : String)
  | find (ruleId : Nat)
  | now
  | commit (t : BlocklistTx)
  | enabledRules

@[reducible] def BlocklistOps : Sig where
  Op := BlocklistOp
  Res
    | .replayed _ => Option StoredResponse
    | .find _ => Option BlockRule
    | .now => String
    | .commit _ => Except BlocklistError Response
    | .enabledRules => List (RuleType × String)

structure BlocklistState where
  db : BlocklistDb
  ticks : Nat

def BlocklistState.handle (clock : Nat → String) : Handler BlocklistOps BlocklistState
  | .replayed key, s => (s.db.keys.get key, s)
  | .find ruleId, s => (s.db.rules.get ruleId, s)
  | .now, s => (clock s.ticks, { s with ticks := s.ticks + 1 })
  | .commit t, s =>
    match s.db.apply t with
    | .ok (response, db) => (.ok response, { s with db := db })
    | .error e => (.error e, s)
  | .enabledRules, s => (s.db.rules.enabled, s)

/-- What a party ends with. -/
inductive BlocklistReply where
  | response (status : Nat) (body : ResponseBody)
  | rules (l : List (RuleType × String))
  deriving DecidableEq, Repr

abbrev BlocklistFlow := Prog BlocklistOps BlocklistError BlocklistReply

inductive BlocklistRequest where
  | create (payload : BlockRuleCreate)
  | update (ruleId : Nat) (payload : BlockRuleUpdate)
  | delete (ruleId : Nat)

/-- The columns a PATCH leaves out are those of the row it read. -/
def BlockRuleUpdate.next (payload : BlockRuleUpdate) (current : BlockRule) :
    BlockedRules.Columns where
  pattern := payload.pattern.getD current.pattern
  ruleType := payload.ruleType.getD current.ruleType
  reason := payload.reason.orElse fun _ => current.reason
  enabled := payload.enabled.getD current.enabled

/-- A call of the service. `fault` is what SQLite raises in its transaction, such as a
locked database. -/
structure BlocklistCall where
  request : BlocklistRequest
  key : String
  fault : Option String

namespace BlocklistCall

def action (c : BlocklistCall) : StoredAction :=
  match c.request with
  | .create _ => .blocklistCreate
  | .update _ _ => .blocklistUpdate
  | .delete _ => .blocklistDelete

def itemId (c : BlocklistCall) : String :=
  match c.request with
  | .create payload => payload.pattern
  | .update ruleId _ => toString ruleId
  | .delete ruleId => toString ruleId

/-- `model(**body)`: a body without the fields of the class is refused. -/
def model (c : BlocklistCall) (body : ResponseBody) : Option ResponseBody :=
  match c.request, body with
  | .create _, .rule r => some (.rule r)
  | .update _ _, .rule r => some (.rule r)
  | .delete _, .deletion id deleted => some (.deletion id deleted)
  | _, _ => none

/-- mirrors api/services/blocklist_service.py:184-200 -/
def replayIfPresent (c : BlocklistCall) (perform : BlocklistFlow) : BlocklistFlow :=
  .op (.replayed c.key) fun
    | none => perform
    | some row =>
      if row.action ≠ c.action ∨ row.itemId ≠ c.itemId then
        .err (.value "Idempotency key reuse conflict")
      else match c.model row.responseBody with
        | none => .err .validation
        | some body => .ret (.response row.responseStatus body)

/-- The transaction; one that raises is rolled back. -/
def commit (c : BlocklistCall) (t : BlocklistTx) : BlocklistFlow :=
  match c.fault with
  | some msg => .err (.operational msg)
  | none => .op (.commit t) fun
    | .ok response => .ret (.response response.1 response.2)
    | .error e => .err e

/-- mirrors api/services/blocklist_service.py:40-88 -/
def createRule (c : BlocklistCall) (payload : BlockRuleCreate) : BlocklistFlow :=
  c.replayIfPresent (.op .now fun now => c.commit (.create payload c.key now))

/-- mirrors api/services/blocklist_service.py:90-151 -/
def updateRule (c : BlocklistCall) (ruleId : Nat) (payload : BlockRuleUpdate) : BlocklistFlow :=
  c.replayIfPresent <| .op (.find ruleId) fun
    | none => .err (.lookup "Block rule not found")
    | some current => .op .now fun now =>
      c.commit (.update ruleId (payload.next current) c.key now)

/-- mirrors api/services/blocklist_service.py:153-182 -/
def deleteRule (c : BlocklistCall) (ruleId : Nat) : BlocklistFlow :=
  c.replayIfPresent <| .op (.find ruleId) fun
    | none => .err (.lookup "Block rule not found")
    | some _ => c.commit (.delete ruleId c.key)

def flow (c : BlocklistCall) : BlocklistFlow :=
  match c.request with
  | .create payload => c.createRule payload
  | .update ruleId payload => c.updateRule ruleId payload
  | .delete ruleId => c.deleteRule ruleId

/-- The row a call looks at besides its key. -/
def ruleId? (c : BlocklistCall) : Option Nat :=
  match c.request with
  | .create _ => none
  | .update ruleId _ => some ruleId
  | .delete ruleId => some ruleId

/-- What a call has looked at before its last step. -/
def view (c : BlocklistCall) (db : BlocklistDb) : Option StoredResponse × Option BlockRule :=
  (db.keys.get c.key, c.ruleId?.bind db.rules.get)

end BlocklistCall

/-- Who works on the two tables. -/
inductive BlocklistParty where
  | call (c : BlocklistCall)
  /-- a decision of the triage service, which stores its response -/
  | triage (a : TriageAction) (itemId key : String)
  /-- `_match_block_rule` of an ingest run -/
  | ingest

def BlocklistParty.flow : BlocklistParty → BlocklistFlow
  | .call c => c.flow
  | .triage a itemId key => .op (.commit (.triage a itemId key)) fun
    | .ok response => .ret (.response response.1 response.2)
    | .error e => .err e
  | .ingest => .op .enabledRules fun rules => .ret (.rules rules)

/-- The parties before their first step. -/
def blocklistPool {ι : Type} (parties : ι → BlocklistParty) :
    Pool ι BlocklistOps BlocklistError fun _ => BlocklistReply :=
  fun i => (parties i).flow

/-! ## The effect of a call -/

/-- What the transaction of a call does to the rules, and the response it makes. -/
inductive BlocklistCall.Writes : BlocklistRequest → BlockedRules → Response → BlockedRules → Prop
  | create {payload : BlockRuleCreate} {now : String} {t t' : BlockedRules} {r : BlockRule}
      (h : t.insert payload now = some (r, t')) : Writes (.create payload) t (201, .rule r) t'
  /-- `base` is the row as the call read it, at some time before. -/
  | update {ruleId : Nat} {payload : BlockRuleUpdate} {base r : BlockRule} {now : String}
      {t t' : BlockedRules} (h : t.update ruleId (payload.next base) now = some t')
      (hr : t'.get ruleId = some r) : Writes (.update ruleId payload) t (200, .rule r) t'
  | delete {ruleId : Nat} {t : BlockedRules} :
      Writes (.delete ruleId) t (200, .deletion ruleId true) (t.delete ruleId)

/-- How a party can end, on the tables it finds at its last step. -/
inductive BlocklistEffect : BlocklistParty → BlocklistDb → Except BlocklistError BlocklistReply →
    BlocklistDb → Prop
  /-- The response stored under the key is given again. -/
  | replayed {c : BlocklistCall} {db : BlocklistDb} {row : StoredResponse} {body : ResponseBody}
      (hrow : db.keys.get c.key = some row) (hsame : row.action = c.action ∧ row.itemId = c.itemId)
      (hbody : c.model row.responseBody = some body) :
      BlocklistEffect (.call c) db (.ok (.response row.responseStatus body)) db
  | refused {p : BlocklistParty} {db : BlocklistDb} {e : BlocklistError} :
      BlocklistEffect p db (.error e) db
  /-- The rules are written and the response is stored under a free key. -/
  | committed {c : BlocklistCall} {db : BlocklistDb} {rules : BlockedRules} {response : Response}
      (hfree : db.keys.get c.key = none)
      (hwrites : BlocklistCall.Writes c.request db.rules response rules) :
      BlocklistEffect (.call c) db (.ok (.response response.1 response.2))
        ⟨rules, db.keys.put c.key ⟨c.action, c.itemId, response.1, response.2⟩⟩
  | triage {a : TriageAction} {itemId key : String} {db : BlocklistDb}
      (hfree : db.keys.get key = none) :
      BlocklistEffect (.triage a itemId key) db (.ok (.response 200 (.triage itemId a.state)))
        ⟨db.rules, db.keys.put key ⟨.triage a, itemId, 200, .triage itemId a.state⟩⟩
  | ingest {db : BlocklistDb} : BlocklistEffect .ingest db (.ok (.rules db.rules.enabled)) db

/-- The transactions a call can come to. -/
inductive BlocklistCall.Makes (c : BlocklistCall) : BlocklistTx → Prop
  | create {payload : BlockRuleCreate} {now : String} (h : c.request = .create payload) :
      Makes c (.create payload c.key now)
  | update {ruleId : Nat} {payload : BlockRuleUpdate} {base : BlockRule} {now : String}
      (h : c.request = .update ruleId payload) :
      Makes c (.update ruleId (payload.next base) c.key now)
  | delete {ruleId : Nat} (h : c.request = .delete ruleId) : Makes c (.delete ruleId c.key)

section Effects
variable {clock : Nat → String} {db db' : BlocklistDb} {c : BlocklistCall} {response : Response}

theorem answered_ok {rules : BlockedRules} {key : String} {row : StoredResponse}
    {taken : BlocklistError} (h : db.answered rules key row taken = .ok (response, db')) :
    db.keys.get key = none ∧ response = (row.responseStatus, row.responseBody) ∧
      db' = ⟨rules, db.keys.put key row⟩ := by
  unfold BlocklistDb.answered BlocklistDb.persistIdempotency at h
  by_cases hfree : db.keys.get key = none
  · rw [if_pos hfree] at h
    cases h
    exact ⟨hfree, rfl, rfl⟩
  · rw [if_neg hfree] at h
    cases h

/-- A transaction that commits stores the response of its call under a free key. -/
theorem effect_of_apply {t : BlocklistTx} (ht : c.Makes t) (h : db.apply t = .ok (response, db')) :
    BlocklistEffect (.call c) db (.ok (.response response.1 response.2)) db' := by
  have hcommit : ∀ {rules : BlockedRules} {row : StoredResponse} {taken : BlocklistError},
      row.action = c.action → row.itemId = c.itemId →
      BlocklistCall.Writes c.request db.rules (row.responseStatus, row.responseBody) rules →
      db.answered rules c.key row taken = .ok (response, db') →
      BlocklistEffect (.call c) db (.ok (.response response.1 response.2)) db' := by
    rintro rules ⟨action, itemId, status, body⟩ taken rfl rfl hwrites hanswered
    obtain ⟨hfree, rfl, rfl⟩ := answered_ok hanswered
    exact .committed hfree hwrites
  cases ht with
  | @create payload now hreq =>
    simp only [BlocklistDb.apply] at h
    split at h
    · cases h
    · next r rules hins =>
      refine hcommit ?_ ?_ ?_ h
      · simp only [BlocklistCall.action, hreq]
      · simp only [BlocklistCall.itemId, hreq]
      · rw [hreq]
        exact .create hins
  | @update ruleId payload base now hreq =>
    simp only [BlocklistDb.apply] at h
    split at h
    · cases h
    · next rules hupd =>
      split at h
      · cases h
      · next r hr =>
        refine hcommit ?_ ?_ ?_ h
        · simp only [BlocklistCall.action, hreq]
        · simp only [BlocklistCall.itemId, hreq]
        · rw [hreq]
          exact .update hupd hr
  | @delete ruleId hreq =>
    refine hcommit ?_ ?_ ?_ h
    · simp only [BlocklistCall.action, hreq]
    · simp only [BlocklistCall.itemId, hreq]
    · rw [hreq]
      exact .delete

theorem handle_commit_ok {s : BlocklistState} {t : BlocklistTx}
    (h : s.db.apply t = .ok (response, db')) :
    BlocklistState.handle clock (.commit t) s = (.ok response, { s with db := db' }) := by
  simp only [BlocklistState.handle, h]

theorem handle_commit_error {s : BlocklistState} {t : BlocklistTx} {e : BlocklistError}
    (h : s.db.apply t = .error e) :
    BlocklistState.handle clock (.commit t) s = (.error e, s) := by
  simp only [BlocklistState.handle, h]

/-- Whatever the others do, a party takes effect in its last step. -/
abbrev TakesEffect (clock : Nat → String) (p : BlocklistParty) (q : BlocklistFlow)
    (h : List (Event BlocklistOps BlocklistState)) : Prop :=
  LastStep (BlocklistState.handle clock) (·.db) (fun _ _ _ => True) (BlocklistEffect p) q h

theorem takesEffect_commit {t : BlocklistTx} (ht : c.Makes t)
    (h : List (Event BlocklistOps BlocklistState)) :
    TakesEffect clock (.call c) (c.commit t) h := by
  unfold BlocklistCall.commit
  cases c.fault with
  | some msg => trivial
  | none =>
    intro s _
    cases happly : s.db.apply t with
    | error e =>
      rw [handle_commit_error happly]
      refine ⟨fun h => ?_, fun r hr => ?_, trivial⟩
      · cases h
      · cases hr
        exact .refused
    | ok res =>
      obtain ⟨response, db'⟩ := res
      rw [handle_commit_ok happly]
      refine ⟨fun h => ?_, fun r hr => ?_, trivial⟩
      · cases h
      · cases hr
        exact effect_of_apply ht happly

/-- A step that answers from the tables and lets the call go on. -/
theorem takesEffect_look {p : BlocklistParty} {o : BlocklistOp}
    {k : BlocklistOps.Res o → BlocklistFlow} {h : List (Event BlocklistOps BlocklistState)}
    (hquiet : ∀ s, (BlocklistState.handle clock o s).2.db = s.db)
    (hend : ∀ s r, (k (BlocklistState.handle clock o s).1).result = some r →
      BlocklistEffect p s.db r s.db)
    (hrest : ∀ s h, TakesEffect clock p (k (BlocklistState.handle clock o s).1) h) :
    TakesEffect clock p (.op o k) h := by
  intro s _
  refine ⟨fun _ => hquiet s, fun r hr => ?_, hrest s _⟩
  show BlocklistEffect p s.db r (BlocklistState.handle clock o s).2.db
  rw [hquiet s]
  exact hend s r hr

theorem takesEffect_now {p : BlocklistParty} {k : String → BlocklistFlow}
    {h : List (Event BlocklistOps BlocklistState)}
    (hend : ∀ now r db, (k now).result = some r → BlocklistEffect p db r db)
    (hrest : ∀ now h, TakesEffect clock p (k now) h) :
    TakesEffect clock p (.op .now k) h :=
  takesEffect_look (fun _ => rfl) (fun _ _ hr => hend _ _ _ hr) fun _ h => hrest _ h

/-- A call without a response to come raises. -/
theorem refused_of_commit {p : BlocklistParty} {t : BlocklistTx}
    {r : Except BlocklistError BlocklistReply} (h : (c.commit t).result = some r) :
    BlocklistEffect p db r db := by
  unfold BlocklistCall.commit at h
  cases hf : c.fault with
  | none =>
    rw [hf] at h
    cases h
  | some msg =>
    rw [hf] at h
    cases h
    exact .refused

theorem takesEffect_replayIfPresent {q : BlocklistFlow}
    (hend : ∀ r db, q.result = some r → BlocklistEffect (.call c) db r db)
    (hq : ∀ h, TakesEffect clock (.call c) q h) :
    TakesEffect clock (.call c) (c.replayIfPresent q) [] := by
  refine takesEffect_look (fun _ => rfl) (fun s r hr => ?_) fun s h => ?_
  · simp only [BlocklistState.handle] at hr
    cases hrow : s.db.keys.get c.key with
    | none =>
      rw [hrow] at hr
      exact hend r s.db hr
    | some row =>
      simp only [hrow] at hr
      split at hr
      · cases hr
        exact .refused
      · next hsame =>
        rw [not_or, not_not, not_not] at hsame
        split at hr
        · cases hr
          exact .refused
        · next body hbody =>
          cases hr
          exact .replayed hrow hsame hbody
  · simp only [BlocklistState.handle]
    cases hrow : s.db.keys.get c.key with
    | none => exact hq h
    | some row =>
      simp only
      split
      · trivial
      · split <;> trivial

theorem takesEffect_flow (clock : Nat → String) (p : BlocklistParty) :
    TakesEffect clock p p.flow [] := by
  cases p with
  | call c =>
    simp only [BlocklistParty.flow, BlocklistCall.flow]
    cases hreq : c.request with
    | create payload =>
      refine takesEffect_replayIfPresent (fun r db hr => by cases hr) fun h => ?_
      exact takesEffect_now (fun _ _ _ hr => refused_of_commit hr)
        fun _ h => takesEffect_commit (.create hreq) h
    | update ruleId payload =>
      refine takesEffect_replayIfPresent (fun r db hr => by cases hr) fun h => ?_
      refine takesEffect_look (fun _ => rfl) (fun s r hr => ?_) fun s h => ?_
      · simp only [BlocklistState.handle] at hr
        cases hrow : s.db.rules.get ruleId with
        | none =>
          rw [hrow] at hr
          cases hr
          exact .refused
        | some current =>
          rw [hrow] at hr
          cases hr
      · simp only [BlocklistState.handle]
        cases s.db.rules.get ruleId with
        | none => trivial
        | some current =>
          exact takesEffect_now (fun _ _ _ hr => refused_of_commit hr)
            fun _ h => takesEffect_commit (.update hreq) h
    | delete ruleId =>
      refine takesEffect_replayIfPresent (fun r db hr => by cases hr) fun h => ?_
      refine takesEffect_look (fun _ => rfl) (fun s r hr => ?_) fun s h => ?_
      · simp only [BlocklistState.handle] at hr
        cases hrow : s.db.rules.get ruleId with
        | none =>
          rw [hrow] at hr
          cases hr
          exact .refused
        | some current =>
          rw [hrow] at hr
          exact refused_of_commit hr
      · simp only [BlocklistState.handle]
        cases s.db.rules.get ruleId with
        | none => trivial
        | some current => exact takesEffect_commit (.delete hreq) h
  | triage a itemId key =>
    intro s _
    cases happly : s.db.apply (.triage a itemId key) with
    | error e =>
      rw [handle_commit_error happly]
      refine ⟨fun h => ?_, fun r hr => ?_, trivial⟩
      · cases h
      · cases hr
        exact .refused
    | ok res =>
      obtain ⟨response, db'⟩ := res
      rw [handle_commit_ok happly]
      refine ⟨fun h => ?_, fun r hr => ?_, trivial⟩
      · cases h
      · cases hr
        obtain ⟨hfree, rfl, rfl⟩ := answered_ok happly
        exact .triage hfree
  | ingest =>
    exact takesEffect_look (fun _ => rfl) (fun s r hr => by cases hr; exact .ingest)
      fun _ _ => trivial

end Effects

/-! ## Every interleaving -/

/-- The key a party stores its response under. -/
def BlocklistParty.key? : BlocklistParty → Option String
  | .call c => some c.key
  | .triage _ _ key => some key
  | .ingest => none

section Runs
variable {ι : Type} [DecidableEq ι] {clock : Nat → String} {parties : ι → BlocklistParty}
  {P' : Pool ι BlocklistOps BlocklistError fun _ => BlocklistReply} {s s' : BlocklistState}
  {t : List (ι × Event BlocklistOps BlocklistState)}

/-- The calls that have ended are the endings of the run. -/
theorem mem_endings_blocklist
    (hrun : Run (BlocklistState.handle clock) (blocklistPool parties) s t P' s') {i : ι}
    {r : Except BlocklistError BlocklistReply} :
    (i, r) ∈ endings (BlocklistState.handle clock) (blocklistPool parties) t ↔
      (P' i).result = some r := by
  rw [mem_endings hrun]
  refine and_iff_right ?_
  simp only [blocklistPool]
  cases parties i with
  | call c =>
    simp only [BlocklistParty.flow, BlocklistCall.flow]
    split <;> rfl
  | triage => rfl
  | ingest => rfl

theorem effects_in_order
    (hrun : Run (BlocklistState.handle clock) (blocklistPool parties) s t P' s') :
    SerialRun (fun i => BlocklistEffect (parties i)) s.db
      (endings (BlocklistState.handle clock) (blocklistPool parties) t) s'.db :=
  serial_run hrun (h := fun _ => []) (fun i => takesEffect_flow clock (parties i))
    (meet_of_forall fun _ _ _ _ => trivial)

/-- A stored response stays. -/
theorem keys_kept {p : BlocklistParty} {db db' : BlocklistDb}
    {r : Except BlocklistError BlocklistReply} (h : BlocklistEffect p db r db') {key : String}
    {row : StoredResponse} (hrow : db.keys.get key = some row) :
    db'.keys.get key = some row := by
  cases h with
  | replayed => exact hrow
  | refused => exact hrow
  | ingest => exact hrow
  | committed hfree | triage hfree =>
    rw [Table.get_put, if_neg, hrow]
    rintro rfl
    rw [hfree] at hrow
    cases hrow

/-- A party that changes the tables takes its key, which was free. -/
theorem key_taken {p : BlocklistParty} {db db' : BlocklistDb}
    {r : Except BlocklistError BlocklistReply} (h : BlocklistEffect p db r db') (hne : db' ≠ db) :
    ∃ key, p.key? = some key ∧ db.keys.get key = none ∧ db'.keys.get key ≠ none := by
  cases h with
  | replayed => exact absurd rfl hne
  | refused => exact absurd rfl hne
  | ingest => exact absurd rfl hne
  | committed hfree | triage hfree => exact ⟨_, rfl, hfree, by simp⟩

theorem model_eq {c : BlocklistCall} {b b' : ResponseBody} (h : c.model b = some b') : b' = b := by
  unfold BlocklistCall.model at h
  split at h
  · cases h
    rfl
  · cases h
    rfl
  · cases h
    rfl
  · cases h

theorem db_of_error {p : BlocklistParty} {db db' : BlocklistDb} {e : BlocklistError}
    (h : BlocklistEffect p db (.error e) db') : db' = db := by
  cases h
  rfl

/-- A response is stored under the key of its call as long as the database stands. -/
theorem response_stored {i : ι} {c : BlocklistCall} {status : Nat} {body : ResponseBody}
    (hrun : Run (BlocklistState.handle clock) (blocklistPool parties) s t P' s')
    (hi : parties i = .call c) (hr : (P' i).result = some (.ok (.response status body))) :
    s'.db.keys.get c.key = some ⟨c.action, c.itemId, status, body⟩ := by
  refine (effects_in_order hrun).brought ((mem_endings_blocklist hrun).mpr hr)
    (fun _ _ _ _ h hrow => keys_kept h hrow) fun a b h => ?_
  rw [hi] at h
  cases h with
  | @replayed _ _ row _ hrow hsame hbody =>
    obtain rfl := model_eq hbody
    rw [hrow, ← hsame.1, ← hsame.2]
  | committed => simp

/-- In every interleaving of calls, triage calls and ingest runs: a key changes the
tables at most once; whoever gets a response to a key gets the one stored under it, with
the action and the item of its own call; and a call that raises changed nothing. -/
theorem blocklist_once
    (hrun : Run (BlocklistState.handle clock) (blocklistPool parties) s t P' s') :
    (t.Pairwise fun x y => (parties x.1).key? = (parties y.1).key? →
      ¬ (x.2.post.db ≠ x.2.pre.db ∧ y.2.post.db ≠ y.2.pre.db)) ∧
    (∀ i c status body, parties i = .call c →
      (P' i).result = some (.ok (.response status body)) →
      s'.db.keys.get c.key = some ⟨c.action, c.itemId, status, body⟩) ∧
    ∀ i e, (P' i).result = some (.error e) → ∀ x ∈ own i t, x.post.db = x.pre.db := by
  have hflow : ∀ i, TakesEffect clock (parties i) (blocklistPool parties i) [] :=
    fun i => takesEffect_flow clock (parties i)
  have hsteps := steps_of_run hrun hflow (meet_of_forall fun _ _ _ _ => trivial)
  refine ⟨?_, fun i c status body hi hr => response_stored hrun hi hr, fun i e hr x hx => ?_⟩
  · refine pairwise_claim (fun i => (parties i).key?)
      (fun k s => ∃ key, k = some key ∧ s.db.keys.get key ≠ none)
      (fun x => x.post.db ≠ x.pre.db) hrun ?_ ?_
    · rintro x hx _ ⟨key, rfl, hkey⟩
      refine ⟨key, rfl, ?_⟩
      rcases hsteps x hx with hsame | ⟨r, -, heff⟩
      · rwa [hsame]
      · obtain ⟨row, hrow⟩ := Option.ne_none_iff_exists'.mp hkey
        rw [keys_kept heff hrow]
        exact Option.some_ne_none row
    · intro x hx hchange
      obtain ⟨r, -, heff⟩ := (hsteps x hx).resolve_left hchange
      obtain ⟨key, hkey, hfree, htaken⟩ := key_taken heff hchange
      refine ⟨?_, key, hkey, htaken⟩
      rintro ⟨key', hkey', hnot⟩
      rw [hkey] at hkey'
      cases hkey'
      exact hnot hfree
  · rcases hsteps (i, x) (mem_own.mp hx) with hsame | ⟨r, hres, heff⟩
    · exact hsame
    · rw [hr] at hres
      obtain rfl := Option.some.inj hres
      exact db_of_error heff

end Runs

/-- Two rules, and no key. -/
def twoRules : BlocklistState :=
  let inserted := do
    let (_, rules) ← BlockedRules.empty.insert ⟨"*.tmp", .filename, none, true⟩ "t0"
    rules.insert ⟨"*.part", .filename, none, true⟩ "t0"
  ⟨⟨inserted.elim .empty (·.2), ∅⟩, 0⟩

/-- A PATCH that turns a rule off. -/
def turnOff (ruleId : Nat) (key : String) : BlocklistParty :=
  .call ⟨.update ruleId ⟨none, none, none, some false⟩, key, none⟩

abbrev PatchRun := List (Bool × Event BlocklistOps BlocklistState) ×
  Pool Bool BlocklistOps BlocklistError (fun _ => BlocklistReply) × BlocklistState

/-- The steps of two PATCHes, one of each in turn. -/
def patchRun (parties : Bool → BlocklistParty) : PatchRun :=
  exec (BlocklistState.handle fun _ => "t1") [false, true, false, true, false, true, false, true]
    (blocklistPool parties) twoRules

/-- One PATCH sent twice. -/
def sentTwice : Bool → BlocklistParty := fun _ => turnOff 1 "key-retry"

theorem sentTwice_once :
    ((patchRun sentTwice).1.Pairwise fun x y => (sentTwice x.1).key? = (sentTwice y.1).key? →
      ¬ (x.2.post.db ≠ x.2.pre.db ∧ y.2.post.db ≠ y.2.pre.db)) ∧
    (∀ i c status body, sentTwice i = .call c →
      ((patchRun sentTwice).2.1 i).result = some (.ok (.response status body)) →
      (patchRun sentTwice).2.2.db.keys.get c.key = some ⟨c.action, c.itemId, status, body⟩) ∧
    ∀ i e, ((patchRun sentTwice).2.1 i).result = some (.error e) →
      ∀ x ∈ own i (patchRun sentTwice).1, x.post.db = x.pre.db :=
  blocklist_once (exec_run _ _ _ _)

/-- Both find the key free; the one that comes second to the table is refused. -/
example : ((patchRun sentTwice).2.1 false).result =
      some (.ok (.response 200 (.rule ⟨⟨1, .filename, "*.tmp", false⟩, none, "t0", "t1"⟩))) ∧
    ((patchRun sentTwice).2.1 true).result = some (.error
      (.value "Blocklist update violates uniqueness or rule_type constraints")) := by
  decide +kernel

/-! ## Calls that are not disturbed -/

/-- The party by itself, from its first step to its last, at some time. -/
def Alone (clock : Nat → String) (p : BlocklistParty) (db : BlocklistDb)
    (r : Except BlocklistError BlocklistReply) (db' : BlocklistDb) : Prop :=
  ∃ n m, p.flow.run (BlocklistState.handle clock) ⟨db, n⟩ = (r, ⟨db', m⟩)

/-- Neither the key of a call nor its rule differs from what the call has seen. -/
def Undisturbed (p : BlocklistParty) (h : List (Event BlocklistOps BlocklistState))
    (_ : BlocklistOp) (s : BlocklistState) : Prop :=
  match p with
  | .call c => ∀ e ∈ h, c.view e.pre.db = c.view s.db
  | _ => True

instance (p : BlocklistParty) (h : List (Event BlocklistOps BlocklistState)) (o : BlocklistOp)
    (s : BlocklistState) : Decidable (Undisturbed p h o s) :=
  match p with
  | .call c => inferInstanceAs (Decidable (∀ e ∈ h, c.view e.pre.db = c.view s.db))
  | .triage _ _ _ => inferInstanceAs (Decidable True)
  | .ingest => inferInstanceAs (Decidable True)

section Alone
variable {clock : Nat → String} {c : BlocklistCall} {s : BlocklistState}

/-- A call passes a free key. -/
theorem run_replayIfPresent {q : BlocklistFlow} (hfree : s.db.keys.get c.key = none) :
    (c.replayIfPresent q).run (BlocklistState.handle clock) s =
      q.run (BlocklistState.handle clock) s := by
  simp only [BlocklistCall.replayIfPresent, Prog.run_op, BlocklistState.handle, hfree]

/-- The program up to here, run alone on the tables of `s` at the time `n`, comes to `q`. -/
abbrev ComesTo (clock : Nat → String) (c : BlocklistCall) (q : BlocklistFlow) (db : BlocklistDb)
    (n m : Nat) : Prop :=
  c.flow.run (BlocklistState.handle clock) ⟨db, n⟩ = q.run (BlocklistState.handle clock) ⟨db, m⟩

/-- A transaction takes effect as it does for the call alone: the tables it finds lead
the call here. -/
theorem serial_commit {t : BlocklistTx} {h : List (Event BlocklistOps BlocklistState)}
    (hcomes : ∀ s : BlocklistState, (∀ e ∈ h, c.view e.pre.db = c.view s.db) →
      ∃ n m, ComesTo clock c (c.commit t) s.db n m) :
    LastStep (BlocklistState.handle clock) (·.db) (Undisturbed (.call c))
      (Alone clock (.call c)) (c.commit t) h := by
  cases hfault : c.fault with
  | some msg =>
    simp only [BlocklistCall.commit, hfault]
    trivial
  | none =>
    simp only [BlocklistCall.commit, hfault]
    intro s hs
    obtain ⟨n, m, hn⟩ := hcomes s hs
    simp only [ComesTo, BlocklistCall.commit, hfault, Prog.run_op] at hn
    cases happly : s.db.apply t with
    | error e =>
      rw [handle_commit_error (s := s) happly]
      rw [handle_commit_error (s := ⟨s.db, m⟩) happly] at hn
      refine ⟨fun h => ?_, fun r hr => ?_, trivial⟩
      · cases h
      · cases hr
        exact ⟨n, m, hn⟩
    | ok res =>
      obtain ⟨response, db'⟩ := res
      rw [handle_commit_ok (s := s) happly]
      rw [handle_commit_ok (s := ⟨s.db, m⟩) happly] at hn
      refine ⟨fun h => ?_, fun r hr => ?_, trivial⟩
      · cases h
      · cases hr
        exact ⟨n, m, hn⟩

/-- The reading of the clock before a transaction. -/
theorem serial_now {t : String → BlocklistTx} {h : List (Event BlocklistOps BlocklistState)}
    (hcomes : ∀ s : BlocklistState, (∀ e ∈ h, c.view e.pre.db = c.view s.db) →
      ∀ n, ComesTo clock c (.op .now fun now => c.commit (t now)) s.db n n) :
    LastStep (BlocklistState.handle clock) (·.db) (Undisturbed (.call c))
      (Alone clock (.call c)) (.op .now fun now => c.commit (t now)) h := by
  intro s hs
  refine ⟨fun _ => rfl, fun r hr => ?_, ?_⟩
  · have hn := hcomes s hs s.ticks
    simp only [BlocklistState.handle] at hr
    simp only [ComesTo, Prog.run_op, BlocklistState.handle] at hn
    cases hfault : c.fault with
    | none =>
      simp only [BlocklistCall.commit, hfault] at hr
      cases hr
    | some msg =>
      simp only [BlocklistCall.commit, hfault] at hr hn
      cases hr
      exact ⟨s.ticks, _, hn⟩
  · refine serial_commit fun s' hs' => ⟨s.ticks, s.ticks + 1, ?_⟩
    exact hcomes s' (fun e he => hs' e (List.mem_append_left _ he)) s.ticks

/-- The lookup of the key, and what follows when it is free. -/
theorem serial_replayIfPresent {o : BlocklistOp} {k : BlocklistOps.Res o → BlocklistFlow}
    (hflow : c.flow = c.replayIfPresent (.op o k))
    (hq : ∀ s : BlocklistState, s.db.keys.get c.key = none →
      LastStep (BlocklistState.handle clock) (·.db) (Undisturbed (.call c))
        (Alone clock (.call c)) (.op o k) [⟨.replayed c.key, s, s⟩]) :
    LastStep (BlocklistState.handle clock) (·.db) (Undisturbed (.call c))
      (Alone clock (.call c)) (c.replayIfPresent (.op o k)) [] := by
  intro s _
  refine ⟨fun _ => rfl, fun r hr => ⟨s.ticks, s.ticks, ?_⟩, ?_⟩
  · rw [BlocklistParty.flow, hflow]
    exact Prog.run_of_ended hr s
  · simp only [BlocklistState.handle]
    cases hrow : s.db.keys.get c.key with
    | none => exact hq s hrow
    | some row =>
      simp only
      split
      · trivial
      · split <;> trivial

/-- The reading of the rule, and what follows when it is there. -/
theorem serial_find {ruleId : Nat} {k : BlockRule → BlocklistFlow} {s₀ : BlocklistState}
    (hrule : c.ruleId? = some ruleId) (hfree : s₀.db.keys.get c.key = none)
    (hcomes : ∀ (s : BlocklistState) n, s.db.keys.get c.key = none →
      ComesTo clock c (.op (.find ruleId) fun
        | none => .err (.lookup "Block rule not found")
        | some current => k current) s.db n n)
    (hk : ∀ current h, (∀ s : BlocklistState, (∀ e ∈ h, c.view e.pre.db = c.view s.db) →
        ∀ n, ComesTo clock c (k current) s.db n n) →
      LastStep (BlocklistState.handle clock) (·.db) (Undisturbed (.call c))
        (Alone clock (.call c)) (k current) h) :
    LastStep (BlocklistState.handle clock) (·.db) (Undisturbed (.call c))
      (Alone clock (.call c)) (.op (.find ruleId) fun
        | none => .err (.lookup "Block rule not found")
        | some current => k current) [⟨.replayed c.key, s₀, s₀⟩] := by
  have hview : ∀ s : BlocklistState, c.view s₀.db = c.view s.db →
      s.db.keys.get c.key = none := fun s hs => (congrArg Prod.fst hs).symm.trans hfree
  intro s hs
  have hs₀ := hview s (hs _ List.mem_cons_self)
  refine ⟨fun _ => rfl, fun r hr => ⟨s.ticks, s.ticks, ?_⟩, ?_⟩
  · rw [BlocklistParty.flow, hcomes s s.ticks hs₀]
    exact Prog.run_of_ended hr s
  · simp only [BlocklistState.handle]
    cases hrow : s.db.rules.get ruleId with
    | none => trivial
    | some current =>
      refine hk current _ fun s' hs' n => ?_
      have hlook := hs' ⟨.replayed c.key, s₀, s₀⟩ (by simp)
      have hfind := congrArg Prod.snd (hs' ⟨.find ruleId, s, s⟩ (by simp))
      simp only [BlocklistCall.view, hrule, Option.bind_some, hrow] at hfind
      have hn := hcomes s' n (hview s' hlook)
      simp only [ComesTo, Prog.run_op, BlocklistState.handle, ← hfind] at hn
      exact hn

/-- A party that is not disturbed takes effect in its last step as it does alone. -/
theorem serial_flow (clock : Nat → String) (p : BlocklistParty) :
    LastStep (BlocklistState.handle clock) (·.db) (Undisturbed p) (Alone clock p) p.flow [] := by
  cases p with
  | call c =>
    have hcomes : ∀ {q : BlocklistFlow}, c.flow = c.replayIfPresent q → ∀ (s : BlocklistState) n,
        s.db.keys.get c.key = none → ComesTo clock c q s.db n n := by
      intro q hflow s n hfree
      rw [ComesTo, hflow]
      exact run_replayIfPresent (s := ⟨s.db, n⟩) hfree
    simp only [BlocklistParty.flow]
    cases hreq : c.request with
    | create payload =>
      have hflow : c.flow = c.createRule payload := by simp only [BlocklistCall.flow, hreq]
      rw [hflow]
      refine serial_replayIfPresent hflow fun s hfree => serial_now fun s' hs' n => ?_
      have hlook := congrArg Prod.fst (hs' _ List.mem_cons_self)
      exact hcomes hflow s' n (hlook.symm.trans hfree)
    | update ruleId payload =>
      have hflow : c.flow = c.updateRule ruleId payload := by simp only [BlocklistCall.flow, hreq]
      rw [hflow]
      refine serial_replayIfPresent hflow fun s hfree => ?_
      refine serial_find (by simp only [BlocklistCall.ruleId?, hreq]) hfree (hcomes hflow)
        fun current h hk => ?_
      exact serial_now hk
    | delete ruleId =>
      have hflow : c.flow = c.deleteRule ruleId := by simp only [BlocklistCall.flow, hreq]
      rw [hflow]
      refine serial_replayIfPresent hflow fun s hfree => ?_
      refine serial_find (k := fun _ => c.commit (.delete ruleId c.key))
        (by simp only [BlocklistCall.ruleId?, hreq]) hfree (hcomes hflow) fun current h hk => ?_
      exact serial_commit fun s hs => ⟨s.ticks, s.ticks, hk s hs s.ticks⟩
  | triage a itemId key =>
    intro s _
    generalize hstep : BlocklistState.handle clock (.commit (.triage a itemId key)) s = x
    refine ⟨fun h => ?_, fun r hr => ⟨s.ticks, x.2.ticks, ?_⟩, ?_⟩
    · cases hx : x.1 <;> (rw [hx] at h; cases h)
    · simp only [BlocklistParty.flow, Prog.run_op, hstep]
      exact Prog.run_of_ended (H := BlocklistState.handle clock) hr x.2
    · cases x.1 <;> trivial
  | ingest =>
    intro s _
    exact ⟨fun _ => rfl, fun r hr => ⟨s.ticks, s.ticks,
      Prog.run_of_ended (H := BlocklistState.handle clock) hr s⟩, trivial⟩

end Alone

/-- When no call finds its key or its rule other than it has seen it before, the tables
and the answers are those of the parties run one after the other, in the order of their
last steps. -/
theorem blocklist_serializable {ι : Type} [DecidableEq ι] {clock : Nat → String}
    {parties : ι → BlocklistParty}
    {P' : Pool ι BlocklistOps BlocklistError fun _ => BlocklistReply} {s s' : BlocklistState}
    {t : List (ι × Event BlocklistOps BlocklistState)}
    (hrun : Run (BlocklistState.handle clock) (blocklistPool parties) s t P' s')
    (hquiet : Meet (fun i => Undisturbed (parties i)) (fun _ => []) t) :
    ∃ l, SerialRun (fun i => Alone clock (parties i)) s.db l s'.db ∧
      l = endings (BlocklistState.handle clock) (blocklistPool parties) t ∧
      ∀ i r, (i, r) ∈ l ↔ (P' i).result = some r :=
  ⟨_, serial_run hrun (fun i => serial_flow clock (parties i)) hquiet, rfl,
    fun _ _ => mem_endings_blocklist hrun⟩

/-- Two PATCHes, each of its own rule. -/
def apart : Bool → BlocklistParty
  | false => turnOff 1 "key-rule-1"
  | true => turnOff 2 "key-rule-2"

theorem apart_serial : ∃ l, SerialRun (fun i => Alone (fun _ => "t1") (apart i)) twoRules.db l
      (patchRun apart).2.2.db ∧
    l = endings (BlocklistState.handle fun _ => "t1") (blocklistPool apart) (patchRun apart).1 ∧
    ∀ i r, (i, r) ∈ l ↔ ((patchRun apart).2.1 i).result = some r :=
  blocklist_serializable (exec_run _ _ _ _) (by decide +kernel)

/-- One PATCH turns a rule off, the other one says why it is there. -/
def twoPatches : Bool → BlocklistParty
  | false => turnOff 1 "key-off-1"
  | true => .call ⟨.update 1 ⟨none, none, some "scratch", none⟩, "key-why-1", none⟩

/-- Both PATCHes read the rule before one of them writes it: both are answered with 200,
and the rule is on again. -/
theorem lost_update :
    (patchRun twoPatches).2.2.db.rules.enabled = [(.filename, "*.tmp"), (.filename, "*.part")] ∧
    ((patchRun twoPatches).2.1 false).result =
      some (.ok (.response 200 (.rule ⟨⟨1, .filename, "*.tmp", false⟩, none, "t0", "t1"⟩))) ∧
    ((patchRun twoPatches).2.1 true).result = some (.ok (.response 200
      (.rule ⟨⟨1, .filename, "*.tmp", true⟩, some "scratch", "t0", "t1"⟩))) := by
  decide +kernel

end Nightfall.Web
