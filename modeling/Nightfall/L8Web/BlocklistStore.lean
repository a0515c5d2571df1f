import Nightfall.Core.Async
import Nightfall.Core.KeyedList
import Nightfall.L8Web.AuditTimeline
import Nightfall.L8Web.Blocklist

/-!
# The blocklist page (`webui/src/lib/stores/blocklist.svelte.js`)

The store shows a change before the server has answered: a new rule under a negative id,
a changed rule as the payload has it, a deleted rule not at all. A reply puts the
server's rule in its place; a failure puts the state at the call back. Calls overlap.

* `blocklistStore`: the store as a client of the blocklist service.
* `Orderly`: no two calls on one rule overlap, a call that fails overlapped no other one,
  and nobody else changes the rules.
* `shown_is_stored`: in every orderly run, whenever no call waits, the page shows the
  rules of the server.
* `rollback_forgets`: a failed DELETE takes the rule away that a POST created meanwhile.
-/
namespace Nightfall.Web
open Nightfall.Core

/-! ## The store -/

/-- A rule as the page has it. -/
structure ShownRule where
  id : Int
  pattern : String
  ruleType : RuleType
  reason : Option String
  enabled : Bool
  createdAt : String
  updatedAt : String
  deriving DecidableEq, Repr

def ShownRule.ofRule (r : BlockRule) : ShownRule :=
  ⟨r.id, r.pattern, r.ruleType, r.reason, r.enabled, r.createdAt, r.updatedAt⟩

structure RulesState where
  rules : List ShownRule
  loading : Bool
  error : Option String
  deriving DecidableEq, Repr

/-- The payload of `createRule`. -/
structure NewRule where
  pattern : String
  ruleType : RuleType
  reason : Option String
  enabled : Option Bool

/-- The payload of `updateRule`; `reason` may also be `null`. -/
structure RuleChange where
  pattern : Option String
  ruleType : Option RuleType
  reason : Option (Option String)
  enabled : Option Bool

/-- `{ ...rule, ...payload }`. -/
def RuleChange.spread (payload : RuleChange) (rule : ShownRule) : ShownRule where
  id := rule.id
  pattern := payload.pattern.getD rule.pattern
  ruleType := payload.ruleType.getD rule.ruleType
  reason := payload.reason.getD rule.reason
  enabled := payload.enabled.getD rule.enabled
  createdAt := rule.createdAt
  updatedAt := rule.updatedAt

/-- The functions of the store. `now` is `Date.now()`, `iso` the time as a text. -/
inductive RuleAction where
  | loadRules
  | hydrate (rules : List ShownRule)
  | createRule (payload : NewRule) (now : Nat) (iso key : String)
  | updateRule (id : Int) (payload : RuleChange) (key : String)
  | deleteRule (id : Int) (key : String)

/-- A call that has asked the server. -/
inductive RuleTask where
  | loadRules
  | createRule (tempId : Int) (snapshot : RulesState) (payload : NewRule) (key : String)
  | updateRule (id : Int) (snapshot : RulesState) (payload : RuleChange) (key : String)
  | deleteRule (id : Int) (snapshot : RulesState) (key : String)

inductive RuleReply where
  | rules (l : List ShownRule)
  | rule (r : ShownRule)
  | deletion

/-- How a request is met: the service answers it, it fails before the service sees it, or
the answer is lost. -/
inductive Met where
  | served (now : String)
  | failed (msg : String)
  | lost (now msg : String)

/-- From the call to its first `await`.
mirrors webui/src/lib/stores/blocklist.svelte.js:21-122 -/
def callRules (a : RuleAction) (s : RulesState) : RulesState × Option RuleTask :=
  match a with
  | .loadRules => ({ s with loading := true, error := none }, some .loadRules)
  | .hydrate rules => ({ s with rules := rules, error := none }, none)
  | .createRule payload now iso key =>
    let optimistic : ShownRule := ⟨-now, payload.pattern, payload.ruleType, payload.reason,
      payload.enabled.getD true, iso, iso⟩
    ({ s with rules := s.rules ++ [optimistic], error := none },
      some (.createRule (-now) s payload key))
  | .updateRule id payload key =>
    ({ s with
        rules := s.rules.map fun rule => if rule.id = id then payload.spread rule else rule
        error := none }, some (.updateRule id s payload key))
  | .deleteRule id key =>
    ({ s with rules := s.rules.filter fun rule => rule.id ≠ id, error := none },
      some (.deleteRule id s key))

/-- From the reply to the end of the call. -/
def resumeRules (task : RuleTask) (reply : Except String RuleReply) (s : RulesState) :
    RulesState :=
  match task, reply with
  | .loadRules, .ok (.rules l) => ⟨l, false, none⟩
  | .loadRules, .error msg => { s with loading := false, error := some msg }
  | .createRule tempId _ _ _, .ok (.rule created) =>
    { s with
      rules := s.rules.map fun rule => if rule.id = tempId then created else rule
      error := none }
  | .updateRule id _ _ _, .ok (.rule updated) =>
    { s with
      rules := s.rules.map fun rule => if rule.id = id then updated else rule
      error := none }
  | .createRule _ snapshot _ _, .error msg => { snapshot with error := some msg }
  | .updateRule _ snapshot _ _, .error msg => { snapshot with error := some msg }
  | .deleteRule _ snapshot _, .error msg => { snapshot with error := some msg }
  | _, .ok _ => s

/-! ## The server -/

/-- The rules as the endpoints give them.
mirrors api/services/blocklist_service.py:18-38 -/
def BlocklistDb.view (db : BlocklistDb) : List ShownRule := db.rules.rows.map .ofRule

/-- mirrors api/routers/blocklist.py:31-85 -/
def BlocklistError.status : BlocklistError → String
  | .value _ | .validation => "409"
  | .lookup _ => "404"
  | .assertion | .integrity | .operational _ => "500"

def ruleReplyOf : Except BlocklistError BlocklistReply → Except String RuleReply
  | .ok (.response _ (.rule r)) => .ok (.rule (.ofRule r))
  | .ok _ => .ok .deletion
  | .error e => .error ("API request failed: " ++ e.status)

/-- One request to the service, from its first step to its last. -/
def serveCall (c : BlocklistCall) (now : String) (db : BlocklistDb) :
    BlocklistDb × Except String RuleReply :=
  let run := c.flow.run (BlocklistState.handle fun _ => now) ⟨db, 0⟩
  (run.2.db, ruleReplyOf run.1)

/-- mirrors api/schemas/blocklist.py:28-43 -/
def acceptsPattern (pattern : String) : Bool := lengthWithin 512 (some pattern)

def acceptsReason (reason : Option String) : Bool := reason.all fun text => text.length ≤ 512

def NewRule.accepted (payload : NewRule) : Bool :=
  acceptsPattern payload.pattern && acceptsReason payload.reason

def RuleChange.accepted (payload : RuleChange) : Bool :=
  payload.pattern.all acceptsPattern && acceptsReason payload.reason.join

/-- The request of a task. The endpoints refuse an id below 1, a key that is too short or
too long, and a body outside its schema.
mirrors api/routers/blocklist.py:21-85 -/
def answerRules (task : RuleTask) (now : String) (db : BlocklistDb) :
    BlocklistDb × Except String RuleReply :=
  match task with
  | .loadRules => (db, .ok (.rules db.view))
  | .createRule _ _ payload key =>
    if acceptsKey key ∧ payload.accepted then
      serveCall ⟨.create ⟨payload.pattern, payload.ruleType, payload.reason,
        payload.enabled.getD true⟩, key, none⟩ now db
    else (db, .error "API request failed: 422")
  | .updateRule id _ payload key =>
    if 1 ≤ id ∧ acceptsKey key ∧ payload.accepted then
      serveCall ⟨.update id.toNat ⟨payload.pattern, payload.ruleType, payload.reason.join,
        payload.enabled⟩, key, none⟩ now db
    else (db, .error "API request failed: 422")
  | .deleteRule id _ key =>
    if 1 ≤ id ∧ acceptsKey key then serveCall ⟨.delete id.toNat, key, none⟩ now db
    else (db, .error "API request failed: 422")

def serveRules (how : Met) (task : RuleTask) (db : BlocklistDb) :
    BlocklistDb × Except String RuleReply :=
  match how with
  | .served now => answerRules task now db
  | .failed msg => (db, .error msg)
  | .lost now msg => ((answerRules task now db).1, .error msg)

/-- A call by another client, at a time. -/
abbrev OtherCall := BlocklistCall × String

abbrev RulesApp :=
  App RulesState BlocklistDb RuleTask (Except String RuleReply) RuleAction Met OtherCall

def blocklistStore : RulesApp where
  call := callRules
  serve := serveRules
  resume task reply s := (resumeRules task reply s, none)
  change other db := (serveCall other.1 other.2 db).1

abbrev Rules := Async RulesState BlocklistDb RuleTask (Except String RuleReply)

abbrev RulesCall := AsyncCall RuleTask (Except String RuleReply)

/-! ## What the server does to its list -/

/-- The rule the page has under an id. -/
abbrev shown (l : List ShownRule) (i : Int) : Option ShownRule := atKey ShownRule.id l i

theorem shown_view (db : BlocklistDb) (i : Int) :
    shown db.view i = if 0 ≤ i then (db.rules.get i.toNat).map .ofRule else none := by
  unfold shown BlocklistDb.view BlockedRules.get
  induction db.rules.rows with
  | nil => simp
  | cons r rows ih =>
    rw [List.map_cons, atKey_cons, atKey_cons, ih]
    have hid : (ShownRule.ofRule r).id = (r.rowid : Int) := rfl
    by_cases hi : (r.rowid : Int) = i
    · subst hi
      simp [hid]
    · rw [hid, if_neg hi]
      by_cases hpos : 0 ≤ i
      · have hne : ¬ r.rowid = i.toNat := by omega
        rw [if_pos hpos, if_pos hpos, if_neg hne]
      · rw [if_neg hpos, if_neg hpos]

theorem nonneg_of_view {db : BlocklistDb} {i : Int} (h : shown db.view i ≠ none) :
    0 ≤ i ∧ i ≤ db.rules.seq := by
  rw [shown_view] at h
  by_cases hi : 0 ≤ i
  · rw [if_pos hi] at h
    cases hr : db.rules.get i.toNat with
    | none =>
      rw [hr] at h
      exact absurd rfl h
    | some r =>
      have := (BlockedRules.get_some hr).2
      omega
  · rw [if_neg hi] at h
    exact absurd rfl h

theorem nodup_view (db : BlocklistDb) : (db.view.map ShownRule.id).Nodup := by
  have hids : (db.view.map ShownRule.id).Pairwise (· < ·) := by
    rw [BlocklistDb.view, List.map_map, List.pairwise_map]
    exact db.rules.ordered.imp fun h => Int.ofNat_lt.mpr h
  exact hids.imp fun h => Int.ne_of_lt h

theorem reply_cases {c : BlocklistCall} {db db' : BlocklistDb}
    {r : Except BlocklistError BlocklistReply} (h : BlocklistEffect (.call c) db r db')
    (hfree : db.keys.get c.key = none) :
    (∃ msg, (db', ruleReplyOf r) = (db, .error msg)) ∨
    ∃ response rules row, BlocklistCall.Writes c.request db.rules response rules ∧
      (db', ruleReplyOf r) = (⟨rules, db.keys.put c.key row⟩,
        ruleReplyOf (.ok (.response response.1 response.2))) := by
  cases h with
  | replayed hrow =>
    rw [hfree] at hrow
    cases hrow
  | refused => exact .inl ⟨_, rfl⟩
  | committed _ hwrites => exact .inr ⟨_, _, _, hwrites, rfl⟩

/-- A call with a free key either fails and leaves the tables, or writes the rules and
stores its response. -/
theorem serveCall_cases {c : BlocklistCall} {db : BlocklistDb} (now : String)
    (hfree : db.keys.get c.key = none) :
    (∃ msg, serveCall c now db = (db, .error msg)) ∨
    ∃ response rules row, BlocklistCall.Writes c.request db.rules response rules ∧
      serveCall c now db = (⟨rules, db.keys.put c.key row⟩,
        ruleReplyOf (.ok (.response response.1 response.2))) := by
  have hstart : (BlocklistParty.call c).flow.result = none := by
    simp only [BlocklistParty.flow, BlocklistCall.flow]
    split <;> rfl
  exact reply_cases (lastStep_run (fun _ _ _ => trivial)
    (takesEffect_flow (fun _ => now) (.call c)) (s := ⟨db, 0⟩) hstart) hfree

/-- The ids a call is about: a new rule has its temporary id, and its own one once the
server has given it. -/
def touches : RuleTask → Option RuleReply → List Int
  | .loadRules, _ => []
  | .createRule tempId _ _ _, some (.rule r) => [tempId, r.id]
  | .createRule tempId _ _ _, _ => [tempId]
  | .updateRule id _ _ _, _ => [id]
  | .deleteRule id _ _, _ => [id]

def RuleTask.key? : RuleTask → Option String
  | .loadRules => none
  | .createRule _ _ _ key | .updateRule _ _ _ key | .deleteRule _ _ key => some key

def RuleTask.snapshot? : RuleTask → Option RulesState
  | .loadRules => none
  | .createRule _ snapshot _ _ | .updateRule _ snapshot _ _ | .deleteRule _ snapshot _ =>
    some snapshot

/-- What a call and its reply say about the page's rules `l` and the server's. -/
def StillPending (l : List ShownRule) (db : BlocklistDb) : RuleTask → Option RuleReply → Prop
  | .loadRules, none => True
  | .loadRules, some (.rules fetched) => fetched = db.view
  | .createRule tempId _ _ _, none => tempId < 0 ∧ shown l tempId ≠ none
  | .createRule tempId _ _ _, some (.rule r) =>
    tempId < 0 ∧ shown l tempId ≠ none ∧ shown l r.id = none ∧ shown db.view r.id = some r
  | .updateRule id _ _ _, none => 0 ≤ id ∧ shown l id ≠ none
  | .updateRule id _ _ _, some (.rule r) =>
    0 ≤ id ∧ r.id = id ∧ shown l id ≠ none ∧ shown db.view id = some r
  | .deleteRule id _ _, none => 0 ≤ id ∧ shown l id = none
  | .deleteRule id _ _, some .deletion =>
    0 ≤ id ∧ shown l id = none ∧ shown db.view id = none
  | _, some _ => False

/-- The service met a request: a failure left the rules alone, a success moved what the
request is about and no other rule. -/
structure Served (l : List ShownRule) (db db' : BlocklistDb) (task : RuleTask) (r : RuleReply) :
    Prop where
  pending : StillPending l db' task (some r)
  moved : ∀ i ∉ touches task (some r), shown db'.view i = shown db.view i
  given : ∀ i ∈ touches task (some r), i ∈ touches task none ∨
    (i = db.rules.seq + 1 ∧ i ≤ db'.rules.seq)
  seq : db.rules.seq ≤ db'.rules.seq
  keys : ∀ k, task.key? ≠ some k → db'.keys.get k = db.keys.get k
  kept : ∀ i ∈ touches task none, i ∈ touches task (some r)
  nodup : (touches task (some r)).Nodup

section Served
variable {l : List ShownRule} {db : BlocklistDb} {keys : Table String StoredResponse}

theorem view_insert {payload : BlockRuleCreate} {now : String} {r : BlockRule} {t : BlockedRules}
    (h : db.rules.insert payload now = some (r, t)) (i : Int) :
    shown (BlocklistDb.view ⟨t, keys⟩) i =
      if i = db.rules.seq + 1 then some (.ofRule r) else shown db.view i := by
  rw [shown_view, shown_view, (BlockedRules.get_insert h).2.2]
  by_cases hi : i = db.rules.seq + 1
  · subst hi
    have hnat : ((db.rules.seq : Int) + 1).toNat = db.rules.seq + 1 := by omega
    have hpos : 0 ≤ (db.rules.seq : Int) + 1 := by omega
    rw [hnat, if_pos rfl, if_pos rfl, if_pos hpos]
    rfl
  · rw [if_neg hi]
    by_cases hpos : 0 ≤ i
    · have hne : ¬ i.toNat = db.rules.seq + 1 := by omega
      rw [if_pos hpos, if_pos hpos, if_neg hne]
    · rw [if_neg hpos, if_neg hpos]

theorem view_update {id : Int} {c : BlockedRules.Columns} {now : String} {r : BlockRule}
    {t : BlockedRules} (h : db.rules.update id.toNat c now = some t) (hr : t.get id.toNat = some r)
    (hid : 1 ≤ id) (i : Int) :
    shown (BlocklistDb.view ⟨t, keys⟩) i =
      if i = id then some (.ofRule r) else shown db.view i := by
  rw [shown_view, shown_view]
  by_cases hi : i = id
  · subst hi
    have hpos : 0 ≤ i := by omega
    rw [if_pos rfl, if_pos hpos, hr]
    rfl
  · rw [if_neg hi, (BlockedRules.get_update h).2]
    by_cases hpos : 0 ≤ i
    · have hne : ¬ i.toNat = id.toNat := by omega
      rw [if_pos hpos, if_pos hpos, if_neg hne]
    · rw [if_neg hpos, if_neg hpos]

theorem view_delete {id : Int} (hid : 1 ≤ id) (i : Int) :
    shown (BlocklistDb.view ⟨db.rules.delete id.toNat, keys⟩) i =
      if i = id then none else shown db.view i := by
  rw [shown_view, shown_view, BlockedRules.get_delete]
  by_cases hi : i = id
  · subst hi
    rw [if_pos rfl, if_pos rfl]
    split <;> rfl
  · rw [if_neg hi]
    by_cases hpos : 0 ≤ i
    · have hne : ¬ i.toNat = id.toNat := by omega
      rw [if_pos hpos, if_pos hpos, if_neg hne]
    · rw [if_neg hpos, if_neg hpos]

theorem served_keys {k : String} {row : StoredResponse} {k' : String} (h : some k ≠ some k') :
    (db.keys.put k row).get k' = db.keys.get k' := by
  rw [Table.get_put, if_neg]
  rintro rfl
  exact h rfl

/-- The answer of the service to a request with a free key. -/
theorem answer_cases {task : RuleTask} (now : String) (hp : StillPending l db task none)
    (hfree : ∀ k, task.key? = some k → db.keys.get k = none)
    (hnew : shown l (db.rules.seq + 1) = none) :
    (∃ msg, answerRules task now db = (db, .error msg)) ∨
    ∃ db' r, answerRules task now db = (db', .ok r) ∧ Served l db db' task r := by
  cases task with
  | loadRules => exact .inr ⟨db, _, rfl, rfl, fun _ _ => rfl, by simp [touches], Nat.le_refl _,
      fun _ _ => rfl, fun _ hi => hi, List.nodup_nil⟩
  | createRule tempId snapshot payload key =>
    simp only [answerRules]
    split
    · rcases serveCall_cases (c := ⟨.create ⟨payload.pattern, payload.ruleType, payload.reason,
        payload.enabled.getD true⟩, key, none⟩) now (hfree key rfl) with
        herr | ⟨response, rules, row, hwrites, hserve⟩
      · exact .inl herr
      · cases hwrites with
        | @create _ _ _ _ r hins =>
          have hid : (ShownRule.ofRule r).id = db.rules.seq + 1 := by
            have := (BlockedRules.get_insert hins).1
            simp only [ShownRule.ofRule, this]
            omega
          have hview := @view_insert db (db.keys.put key row) _ _ _ _ hins
          refine .inr ⟨_, .rule (.ofRule r), hserve, ⟨hp.1, hp.2, ?_, ?_⟩, fun i hi => ?_,
            fun i hi => ?_, ?_, fun k hk => served_keys hk, fun i hi => ?_, ?_⟩
          · rw [hid]
            exact hnew
          · rw [hview, hid, if_pos rfl]
          · simp only [touches, hid, List.mem_cons, List.not_mem_nil, or_false, not_or] at hi
            rw [hview, if_neg hi.2]
          · simp only [touches, hid, List.mem_cons, List.not_mem_nil, or_false] at hi ⊢
            have := (BlockedRules.get_insert hins).2.1
            exact hi.imp_right fun h => ⟨h, by simp only [this]; omega⟩
          · have := (BlockedRules.get_insert hins).2.1
            simp only [this]
            omega
          · exact List.mem_cons.mpr (.inl (List.mem_singleton.mp hi))
          · have := hp.1
            simp only [touches, hid, List.nodup_cons, List.mem_singleton, List.not_mem_nil,
              not_false_iff, List.nodup_nil, and_true]
            omega
    · exact .inl ⟨_, rfl⟩
  | updateRule id snapshot payload key =>
    simp only [answerRules]
    split
    · next haccepted =>
      have hid := haccepted.1
      rcases serveCall_cases (c := ⟨.update id.toNat ⟨payload.pattern, payload.ruleType,
        payload.reason.join, payload.enabled⟩, key, none⟩) now (hfree key rfl) with
        herr | ⟨response, rules, row, hwrites, hserve⟩
      · exact .inl herr
      · cases hwrites with
        | @update _ _ _ r _ _ _ hupd hr =>
          have hrid : (ShownRule.ofRule r).id = id := by
            have := (BlockedRules.get_some hr).1
            simp only [ShownRule.ofRule, this]
            omega
          have hview := @view_update db (db.keys.put key row) _ _ _ _ _ hupd hr hid
          refine .inr ⟨_, .rule (.ofRule r), hserve, ⟨hp.1, hrid, hp.2, ?_⟩, fun i hi => ?_,
            fun i hi => .inl hi, ?_, fun k hk => served_keys hk, fun _ hi => hi,
            List.nodup_singleton _⟩
          · rw [hview, if_pos rfl]
          · rw [hview, if_neg fun h => hi (by simp [touches, h])]
          · have := (BlockedRules.get_update hupd).1
            simp only [this]
            omega
    · exact .inl ⟨_, rfl⟩
  | deleteRule id snapshot key =>
    simp only [answerRules]
    split
    · next haccepted =>
      have hid := haccepted.1
      rcases serveCall_cases (c := ⟨.delete id.toNat, key, none⟩) now (hfree key rfl) with
        herr | ⟨response, rules, row, hwrites, hserve⟩
      · exact .inl herr
      · cases hwrites with
        | delete =>
          have hview := @view_delete db (db.keys.put key row) _ hid
          refine .inr ⟨_, .deletion, hserve, ⟨hp.1, hp.2, ?_⟩, fun i hi => ?_,
            fun i hi => .inl hi, Nat.le_refl _, fun k hk => served_keys hk, fun _ hi => hi,
            List.nodup_singleton _⟩
          · rw [hview, if_pos rfl]
          · rw [hview, if_neg fun h => hi (by simp [touches, h])]
    · exact .inl ⟨_, rfl⟩

end Served

/-! ## Runs -/

/-- The server's answer, when there is one. -/
def success (w : RulesCall) : Option RuleReply :=
  match w.reply with
  | some (.ok r) => some r
  | _ => none

/-- The ids the waiting calls are about. -/
def inFlight (ws : List RulesCall) : List Int := ws.flatMap fun w => touches w.task (success w)

/-- What ties the page to the server while `ws` wait. -/
structure Synced (store : RulesState) (db : BlocklistDb) (ws : List RulesCall)
    (settled made : Nat) : Prop where
  nodup : (store.rules.map ShownRule.id).Nodup
  disjoint : (inFlight ws).Nodup
  bounded : ∀ i ∈ inFlight ws, i ≤ db.rules.seq
  /-- Nothing differs but what a call is about. -/
  agree : ∀ i ∉ inFlight ws, shown store.rules i = shown db.view i
  keys : (ws.filterMap (·.task.key?)).Nodup
  fresh : ∀ w ∈ ws, w.reply = none → ∀ k, w.task.key? = some k → db.keys.get k = none
  pending : ∀ w ∈ ws, StillPending store.rules db w.task (success w)
  /-- A call by itself, begun when nothing was waiting, can put its snapshot back. -/
  alone : ∀ w, ws = [w] → w.id + 1 = made → w.since = settled → success w = none →
    ∀ snapshot, w.task.snapshot? = some snapshot →
      (snapshot.rules.map ShownRule.id).Nodup ∧
        ∀ i, shown snapshot.rules i = shown db.view i
  since : ∀ w ∈ ws, w.since ≤ settled
  /-- A load waits by itself. -/
  load : ∀ w ∈ ws, w.task.key? = none → ws = [w]

/-- Waiting calls in another order. -/
theorem Synced.perm {store : RulesState} {db : BlocklistDb} {ws ws' : List RulesCall}
    {settled made : Nat} (h : Synced store db ws settled made) (hp : ws.Perm ws') :
    Synced store db ws' settled made where
  nodup := h.nodup
  disjoint := (hp.flatMap_right _).nodup_iff.mp h.disjoint
  bounded i hi := h.bounded i ((hp.flatMap_right _).mem_iff.mpr hi)
  agree i hi := h.agree i fun hm => hi ((hp.flatMap_right _).mem_iff.mp hm)
  keys := (hp.filterMap _).nodup_iff.mp h.keys
  fresh w hw := h.fresh w (hp.mem_iff.mpr hw)
  pending w hw := h.pending w (hp.mem_iff.mpr hw)
  alone w hw := h.alone w (List.perm_singleton.mp (hw ▸ hp))
  since w hw := h.since w (hp.mem_iff.mpr hw)
  load w hw hk := List.singleton_perm.mp (h.load w (hp.mem_iff.mpr hw) hk ▸ hp) |>.symm

/-- A call is not concerned by what others do to other rules. -/
theorem pending_frame {l l' : List ShownRule} {db db' : BlocklistDb} {task : RuleTask}
    {r : Option RuleReply} (h : StillPending l db task r) (hload : task.key? ≠ none)
    (hl : ∀ i ∈ touches task r, shown l' i = shown l i)
    (hv : ∀ i ∈ touches task r, shown db'.view i = shown db.view i) : StillPending l' db' task r := by
  cases task with
  | loadRules => exact absurd rfl hload
  | createRule tempId snapshot payload key =>
    rcases r with _ | (_ | r | _)
    · simp only [touches, List.mem_singleton, forall_eq] at hl
      simpa only [StillPending, hl] using h
    · exact h
    · simp only [touches, List.forall_mem_cons, List.not_mem_nil, false_implies, implies_true,
        and_true] at hl hv
      simpa only [StillPending, hl.1, hl.2, hv.2] using h
    · exact h
  | updateRule id snapshot payload key =>
    simp only [touches, List.mem_singleton, forall_eq] at hl hv
    rcases r with _ | (_ | r | _)
    · simpa only [StillPending, hl] using h
    · exact h
    · simpa only [StillPending, hl, hv] using h
    · exact h
  | deleteRule id snapshot key =>
    simp only [touches, List.mem_singleton, forall_eq] at hl hv
    rcases r with _ | (_ | r | _)
    · simpa only [StillPending, hl] using h
    · exact h
    · exact h
    · simpa only [StillPending, hl, hv] using h

section Steps
variable {store store' : RulesState} {db : BlocklistDb} {w : RulesCall} {ws : List RulesCall}
  {settled made : Nat}

@[simp] theorem inFlight_cons : inFlight (w :: ws) = touches w.task (success w) ++ inFlight ws :=
  rfl

theorem mem_inFlight {i : Int} : i ∈ inFlight ws ↔ ∃ w ∈ ws, i ∈ touches w.task (success w) :=
  List.mem_flatMap

/-- A call in flight is about a rule of the page, or about one the server has had. -/
theorem shown_or_nonneg (h : Synced store db ws settled made) {i : Int} (hi : i ∈ inFlight ws) :
    shown store.rules i ≠ none ∨ 0 ≤ i := by
  obtain ⟨w, hw, hi⟩ := mem_inFlight.mp hi
  have hp := h.pending w hw
  generalize success w = r at hi hp
  cases htask : w.task with
  | loadRules =>
    rw [htask] at hi
    cases hi
  | createRule tempId snapshot payload key =>
    rw [htask] at hi hp
    rcases r with _ | (_ | r | _)
    · obtain rfl := List.mem_singleton.mp hi
      exact .inl hp.2
    · exact hp.elim
    · simp only [touches, List.mem_cons, List.not_mem_nil, or_false] at hi
      rcases hi with rfl | rfl
      · exact .inl hp.2.1
      · refine .inr (@nonneg_of_view db _ ?_).1
        rw [hp.2.2.2]
        exact Option.some_ne_none r
    · exact hp.elim
  | updateRule id snapshot payload key | deleteRule id snapshot key =>
    rw [htask] at hi hp
    obtain rfl := List.mem_singleton.mp hi
    rcases r with _ | (_ | r | _)
    · exact .inr hp.1
    · exact hp.elim
    · first
        | exact .inr hp.1
        | exact hp.elim
    · first
        | exact .inr hp.1
        | exact hp.elim

/-- The ids of other calls. -/
theorem not_mem_of_disjoint {r : Option RuleReply} {i : Int}
    (h : (touches w.task r ++ inFlight ws).Nodup) {w' : RulesCall} (hw' : w' ∈ ws)
    (hi : i ∈ touches w'.task (success w')) : i ∉ touches w.task r := fun hm =>
  (List.nodup_append.mp h).2.2 i hm i (mem_inFlight.mpr ⟨w', hw', hi⟩) rfl

/-- A new call. -/
theorem synced_ask (h : Synced store db ws settled made) (hreply : w.reply = none)
    (hsince : w.since = settled) (hloads : ∀ w' ∈ ws, w'.task.key? ≠ none)
    (hload : w.task.key? = none → ws = [])
    (hkey : ∀ k, w.task.key? = some k → db.keys.get k = none ∧
      ∀ w' ∈ ws, w'.task.key? ≠ some k)
    (hnodup : (store'.rules.map ShownRule.id).Nodup)
    (hframe : ∀ i ∉ touches w.task none, shown store'.rules i = shown store.rules i)
    (htouch : (touches w.task none).Nodup)
    (hfree : ∀ i ∈ touches w.task none, i ∉ inFlight ws ∧ i ≤ db.rules.seq)
    (hp : StillPending store'.rules db w.task none)
    (hsnap : ∀ snapshot, w.task.snapshot? = some snapshot → snapshot = store) :
    Synced store' db (w :: ws) settled (made + 1) := by
  have hsuccess : success w = none := by simp only [success, hreply]
  constructor
  case nodup => exact hnodup
  case disjoint =>
    rw [inFlight_cons, hsuccess, List.nodup_append]
    refine ⟨htouch, h.disjoint, fun i hi j hj => ?_⟩
    rintro rfl
    exact (hfree i hi).1 hj
  case bounded =>
    rw [inFlight_cons, hsuccess]
    intro i hi
    rcases List.mem_append.mp hi with hi | hi
    · exact (hfree i hi).2
    · exact h.bounded i hi
  case agree =>
    rw [inFlight_cons, hsuccess]
    intro i hi
    rw [List.mem_append, not_or] at hi
    rw [hframe i hi.1, h.agree i hi.2]
  case keys =>
    cases hk : w.task.key? with
    | none => simpa only [List.filterMap_cons, hk] using h.keys
    | some k =>
      simp only [List.filterMap_cons, hk, List.nodup_cons, List.mem_filterMap, not_exists, not_and]
      exact ⟨(hkey k hk).2, h.keys⟩
  case fresh =>
    intro w' hw' hnone k hk
    rcases List.mem_cons.mp hw' with rfl | hw'
    · exact (hkey k hk).1
    · exact h.fresh w' hw' hnone k hk
  case pending =>
    intro w' hw'
    rcases List.mem_cons.mp hw' with rfl | hw'
    · rw [hsuccess]
      exact hp
    · refine pending_frame (h.pending w' hw') (hloads w' hw') (fun i hi => hframe i fun hm => ?_)
        fun _ _ => rfl
      exact (hfree i hm).1 (mem_inFlight.mpr ⟨w', hw', hi⟩)
  case alone =>
    rintro w' hw' - - - snapshot hs
    obtain ⟨rfl, rfl⟩ := List.cons.inj hw'
    obtain rfl := hsnap snapshot hs
    exact ⟨h.nodup, fun i => h.agree i List.not_mem_nil⟩
  case since =>
    intro w' hw'
    rcases List.mem_cons.mp hw' with rfl | hw'
    · exact Nat.le_of_eq hsince
    · exact h.since w' hw'
  case load =>
    intro w' hw' hnone
    rcases List.mem_cons.mp hw' with rfl | hw'
    · rw [hload hnone]
    · exact absurd hnone (hloads w' hw')

/-- The id the next rule gets is not on the page. -/
theorem next_not_shown (h : Synced store db ws settled made) :
    (db.rules.seq + 1 : Int) ∉ inFlight ws ∧ shown store.rules (db.rules.seq + 1) = none := by
  have hflight : (db.rules.seq + 1 : Int) ∉ inFlight ws := fun hm => by
    have := h.bounded _ hm
    omega
  refine ⟨hflight, ?_⟩
  rw [h.agree _ hflight]
  by_contra hne
  have := (nonneg_of_view hne).2
  omega

/-- A request that fails, at the service or before it. -/
theorem synced_failed (h : Synced store db (w :: ws) settled made) (hreply : w.reply = none)
    (msg : String) :
    Synced store db (⟨w.id, w.since, w.task, some (.error msg)⟩ :: ws) settled made := by
  have hsuccess : success w = none := by simp only [success, hreply]
  have hflight : inFlight (⟨w.id, w.since, w.task, some (.error msg)⟩ :: ws) =
      inFlight (w :: ws) := by
    rw [inFlight_cons, inFlight_cons, hsuccess]
    rfl
  constructor
  case nodup => exact h.nodup
  case disjoint => exact hflight ▸ h.disjoint
  case bounded => exact hflight ▸ h.bounded
  case agree => exact hflight ▸ h.agree
  case keys => exact h.keys
  case fresh =>
    intro w' hw' hnone
    rcases List.mem_cons.mp hw' with rfl | hw'
    · cases hnone
    · exact h.fresh w' (List.mem_cons_of_mem _ hw') hnone
  case pending =>
    intro w' hw'
    rcases List.mem_cons.mp hw' with rfl | hw'
    · have hp := h.pending w List.mem_cons_self
      rwa [hsuccess] at hp
    · exact h.pending w' (List.mem_cons_of_mem _ hw')
  case alone =>
    rintro w' hw' hid hsince -
    obtain ⟨rfl, rfl⟩ := List.cons.inj hw'
    exact h.alone w rfl hid hsince hsuccess
  case since =>
    intro w' hw'
    rcases List.mem_cons.mp hw' with rfl | hw'
    · exact h.since w List.mem_cons_self
    · exact h.since w' (List.mem_cons_of_mem _ hw')
  case load =>
    intro w' hw' hnone
    rcases List.mem_cons.mp hw' with rfl | hw'
    · obtain ⟨-, rfl⟩ := List.cons.inj (h.load w List.mem_cons_self hnone)
      rfl
    · have hall := h.load w' (List.mem_cons_of_mem _ hw') hnone
      obtain ⟨-, rfl⟩ := List.cons.inj hall
      cases hw'

/-- A request the service answers. -/
theorem synced_served {db' : BlocklistDb} {r : RuleReply}
    (h : Synced store db (w :: ws) settled made) (hreply : w.reply = none)
    (hserved : Served store.rules db db' w.task r) :
    Synced store db' (⟨w.id, w.since, w.task, some (.ok r)⟩ :: ws) settled made := by
  have hsuccess : success w = none := by simp only [success, hreply]
  have hflight : inFlight (⟨w.id, w.since, w.task, some (.ok r)⟩ :: ws) =
      touches w.task (some r) ++ inFlight ws := rfl
  have hbounded := h.bounded
  have hdisjoint := h.disjoint
  rw [inFlight_cons, hsuccess] at hbounded hdisjoint
  have hold : ∀ i ∈ inFlight ws, i ∉ touches w.task (some r) := by
    intro i hi hm
    rcases hserved.given i hm with hm | ⟨rfl, -⟩
    · exact (List.nodup_append.mp hdisjoint).2.2 i hm i hi rfl
    · have := hbounded _ (List.mem_append_right _ hi)
      omega
  have hloads : ∀ w' ∈ ws, w'.task.key? ≠ none := by
    intro w' hw' hnone
    obtain ⟨-, rfl⟩ := List.cons.inj (h.load w' (List.mem_cons_of_mem _ hw') hnone)
    cases hw'
  constructor
  case nodup => exact h.nodup
  case disjoint =>
    rw [hflight, List.nodup_append]
    refine ⟨?_, (List.nodup_append.mp hdisjoint).2.1, fun i hi j hj => ?_⟩
    · exact hserved.nodup
    · rintro rfl
      exact hold i hj hi
  case bounded =>
    rw [hflight]
    intro i hi
    rcases List.mem_append.mp hi with hi | hi
    · rcases hserved.given i hi with hm | ⟨-, hle⟩
      · have := hbounded i (List.mem_append_left _ hm)
        have := hserved.seq
        omega
      · exact hle
    · have := hbounded i (List.mem_append_right _ hi)
      have := hserved.seq
      omega
  case agree =>
    rw [hflight]
    intro i hi
    rw [List.mem_append, not_or] at hi
    rw [hserved.moved i hi.1]
    refine h.agree i ?_
    rw [inFlight_cons, hsuccess, List.mem_append, not_or]
    exact ⟨fun hm => hi.1 (hserved.kept i hm), hi.2⟩
  case keys => exact h.keys
  case fresh =>
    intro w' hw' hnone k hk
    rcases List.mem_cons.mp hw' with rfl | hw'
    · cases hnone
    · have hold := h.fresh w' (List.mem_cons_of_mem _ hw') hnone k hk
      rw [hserved.keys k, hold]
      intro hk'
      have hkeys := h.keys
      simp only [List.filterMap_cons, hk', List.nodup_cons, List.mem_filterMap, not_exists,
        not_and] at hkeys
      exact hkeys.1 w' hw' hk
  case pending =>
    intro w' hw'
    rcases List.mem_cons.mp hw' with rfl | hw'
    · exact hserved.pending
    · refine pending_frame (h.pending w' (List.mem_cons_of_mem _ hw')) (hloads w' hw')
        (fun _ _ => rfl) fun i hi => hserved.moved i (hold i (mem_inFlight.mpr ⟨w', hw', hi⟩))
  case alone =>
    rintro w' hw' - - hnone
    obtain ⟨rfl, -⟩ := List.cons.inj hw'
    cases hnone
  case since =>
    intro w' hw'
    rcases List.mem_cons.mp hw' with rfl | hw'
    · exact h.since w List.mem_cons_self
    · exact h.since w' (List.mem_cons_of_mem _ hw')
  case load =>
    intro w' hw' hnone
    rcases List.mem_cons.mp hw' with rfl | hw'
    · obtain ⟨-, rfl⟩ := List.cons.inj (h.load w List.mem_cons_self hnone)
      rfl
    · exact absurd hnone (hloads w' hw')

/-- What a call that settles leaves of the page. -/
structure Settled (store store' : RulesState) (db : BlocklistDb) (task : RuleTask)
    (r : Option RuleReply) : Prop where
  nodup : (store'.rules.map ShownRule.id).Nodup
  frame : ∀ i ∉ touches task r, shown store'.rules i = shown store.rules i
  agree : ∀ i ∈ touches task r, shown store'.rules i = shown db.view i

theorem synced_settle (h : Synced store db (w :: ws) settled made)
    (hs : Settled store store' db w.task (success w)) (hload : w.task.key? ≠ none) :
    Synced store' db ws (settled + 1) made := by
  have hdisjoint := h.disjoint
  rw [inFlight_cons] at hdisjoint
  have hloads : ∀ w' ∈ ws, w'.task.key? ≠ none := by
    intro w' hw' hnone
    obtain ⟨-, rfl⟩ := List.cons.inj (h.load w' (List.mem_cons_of_mem _ hw') hnone)
    cases hw'
  constructor
  case nodup => exact hs.nodup
  case disjoint => exact (List.nodup_append.mp hdisjoint).2.1
  case bounded => exact fun i hi => h.bounded i (List.mem_append_right _ hi)
  case agree =>
    intro i hi
    by_cases hm : i ∈ touches w.task (success w)
    · exact hs.agree i hm
    · rw [hs.frame i hm]
      refine h.agree i ?_
      rw [inFlight_cons, List.mem_append, not_or]
      exact ⟨hm, hi⟩
  case keys =>
    cases hk : w.task.key? with
    | none => exact absurd hk hload
    | some k =>
      have hkeys := h.keys
      simp only [List.filterMap_cons, hk, List.nodup_cons] at hkeys
      exact hkeys.2
  case fresh => exact fun w' hw' => h.fresh w' (List.mem_cons_of_mem _ hw')
  case pending =>
    intro w' hw'
    exact pending_frame (h.pending w' (List.mem_cons_of_mem _ hw')) (hloads w' hw')
      (fun i hi => hs.frame i (not_mem_of_disjoint hdisjoint hw' hi)) fun _ _ => rfl
  case alone =>
    rintro w' rfl - hsince
    have := h.since w' (List.mem_cons_of_mem _ List.mem_cons_self)
    omega
  case since =>
    intro w' hw'
    have := h.since w' (List.mem_cons_of_mem _ hw')
    omega
  case load => exact fun w' hw' hnone => absurd hnone (hloads w' hw')

/-- With nothing in flight the page and the server need only agree. -/
theorem synced_idle (hnodup : (store.rules.map ShownRule.id).Nodup)
    (hagree : ∀ i, shown store.rules i = shown db.view i) : Synced store db [] settled made where
  nodup := hnodup
  disjoint := List.nodup_nil
  bounded _ hi := absurd hi List.not_mem_nil
  agree i _ := hagree i
  keys := List.nodup_nil
  fresh _ hw := absurd hw List.not_mem_nil
  pending _ hw := absurd hw List.not_mem_nil
  alone _ hw := by cases hw
  since _ hw := absurd hw List.not_mem_nil
  load _ hw := absurd hw List.not_mem_nil

/-- A reply that comes back. -/
theorem synced_deliver {rep : Except String RuleReply}
    (h : Synced store db (w :: ws) settled made) (hreply : w.reply = some rep)
    (hfail : ∀ msg, rep = .error msg → w.task.key? ≠ none →
      ws = [] ∧ w.id + 1 = made ∧ w.since = settled) :
    Synced (resumeRules w.task rep store) db ws (settled + 1) made := by
  have hp := h.pending w List.mem_cons_self
  cases rep with
  | error msg =>
    have hsuccess : success w = none := by simp only [success, hreply]
    cases htask : w.task with
    | loadRules =>
      obtain ⟨-, rfl⟩ := List.cons.inj (h.load w List.mem_cons_self (by rw [htask]; rfl))
      refine synced_idle h.nodup fun i => h.agree i ?_
      rw [inFlight_cons, htask]
      exact List.not_mem_nil
    | createRule tempId snapshot payload key | updateRule id snapshot payload key
    | deleteRule id snapshot key =>
      obtain ⟨rfl, hid, hsince⟩ := hfail msg rfl (by rw [htask]; exact Option.some_ne_none key)
      obtain ⟨hnodup, hagree⟩ := h.alone w rfl hid hsince hsuccess snapshot (by rw [htask]; rfl)
      exact synced_idle hnodup hagree
  | ok r =>
    have hsuccess : success w = some r := by simp only [success, hreply]
    rw [hsuccess] at hp
    cases htask : w.task with
    | loadRules =>
      obtain ⟨-, rfl⟩ := List.cons.inj (h.load w List.mem_cons_self (by rw [htask]; rfl))
      rw [htask] at hp
      cases r with
      | rules fetched =>
        obtain rfl := hp
        exact synced_idle (nodup_view db) fun _ => rfl
      | rule r => exact hp.elim
      | deletion => exact hp.elim
    | createRule tempId snapshot payload key =>
      rw [htask] at hp
      cases r with
      | rules fetched => exact hp.elim
      | deletion => exact hp.elim
      | rule r =>
        obtain ⟨hneg, htemp, hfree, hview⟩ := hp
        refine synced_settle h ?_ (by rw [htask]; exact Option.some_ne_none key)
        rw [htask, hsuccess]
        have hat : ∀ i, shown (resumeRules (.createRule tempId snapshot payload key)
            (.ok (.rule r)) store).rules i =
            if i = r.id then some r else if i = tempId then none else shown store.rules i :=
          fun i => atKey_replace h.nodup htemp (.inl hfree)
        refine ⟨nodup_replace h.nodup (.inl hfree), fun i hi => ?_, fun i hi => ?_⟩
        · simp only [touches, List.mem_cons, List.not_mem_nil, or_false, not_or] at hi
          rw [hat, if_neg hi.2, if_neg hi.1]
        · simp only [touches, List.mem_cons, List.not_mem_nil, or_false] at hi
          rw [hat]
          by_cases hir : i = r.id
          · rw [if_pos hir, hir, hview]
          · obtain rfl := hi.resolve_right hir
            rw [if_neg hir, if_pos rfl]
            by_contra hne
            have := (nonneg_of_view (Ne.symm hne)).1
            omega
    | updateRule id snapshot payload key =>
      rw [htask] at hp
      cases r with
      | rules fetched => exact hp.elim
      | deletion => exact hp.elim
      | rule r =>
        obtain ⟨hpos, hid, hshown, hview⟩ := hp
        refine synced_settle h ?_ (by rw [htask]; exact Option.some_ne_none key)
        rw [htask, hsuccess]
        have hat : ∀ i, shown (resumeRules (.updateRule id snapshot payload key)
            (.ok (.rule r)) store).rules i =
            if i = r.id then some r else if i = id then none else shown store.rules i :=
          fun i => atKey_replace h.nodup hshown (.inr hid)
        refine ⟨nodup_replace h.nodup (.inr hid), fun i hi => ?_, fun i hi => ?_⟩
        · rw [touches, List.mem_singleton] at hi
          rw [hat, hid, if_neg hi, if_neg hi]
        · rw [touches, List.mem_singleton] at hi
          rw [hat, hid, if_pos hi, hi, hview]
    | deleteRule id snapshot key =>
      rw [htask] at hp
      cases r with
      | rules fetched => exact hp.elim
      | rule r => exact hp.elim
      | deletion =>
        obtain ⟨hpos, hgone, hview⟩ := hp
        refine synced_settle h ?_ (by rw [htask]; exact Option.some_ne_none key)
        rw [htask, hsuccess]
        refine ⟨h.nodup, fun _ _ => rfl, fun i hi => ?_⟩
        rw [touches, List.mem_singleton] at hi
        rw [hi, hview]
        exact hgone

end Steps

/-! ## Orderly runs -/

/-- A key that nobody has used. -/
def FreshKey (s : Rules) (key : String) : Prop :=
  s.server.keys.get key = none ∧ ∀ w ∈ s.waiting, w.task.key? ≠ some key

def Met.certain : Met → Bool
  | .lost _ _ => false
  | _ => true

def failed (w : RulesCall) : Bool :=
  match w.reply with
  | some (.error _) => true
  | _ => false

/-- The call may be made now. -/
def MayCall (s : Rules) : RuleAction → Prop
  | .loadRules => s.waiting = []
  | .hydrate rules => s.waiting = [] ∧ rules = s.server.view
  | .createRule _ now _ key => 0 < now ∧ shown s.store.rules (-now) = none ∧ FreshKey s key
  | .updateRule id _ key =>
    shown s.store.rules id ≠ none ∧ id ∉ inFlight s.waiting ∧ FreshKey s key
  | .deleteRule id key =>
    shown s.store.rules id ≠ none ∧ id ∉ inFlight s.waiting ∧ FreshKey s key

/-- Loads wait by themselves, calls that wait are about different rules, a call that fails
has failed for certain and overlapped no other call, and only this page changes rules. -/
def Orderly (s : Rules) : AsyncEvent RuleAction Met OtherCall → Prop
  | .call a => (∀ w ∈ s.waiting, w.task.key? ≠ none) ∧ MayCall s a
  | .serve _ how => how.certain
  | .deliver i => ∀ w ∈ s.waiting[i]?, failed w → w.task.key? ≠ none →
    s.waiting.length = 1 ∧ w.id + 1 = s.made ∧ w.since = s.settled.length
  | .change _ => False

instance (s : Rules) (a : RuleAction) : Decidable (MayCall s a) := by
  cases a <;> unfold MayCall FreshKey <;> infer_instance

instance (s : Rules) (e : AsyncEvent RuleAction Met OtherCall) : Decidable (Orderly s e) := by
  cases e <;> unfold Orderly <;> infer_instance

/-- What ties the page to the server in a run. -/
def InSync (s : Rules) : Prop := Synced s.store s.server s.waiting s.settled.length s.made

theorem inSync_call {s : Rules} {a : RuleAction} {task : RuleTask} {store' : RulesState}
    (h : InSync s) (hok : Orderly s (.call a)) (hcall : callRules a s.store = (store', some task)) :
    Synced store' s.server (⟨s.made, s.settled.length, task, none⟩ :: s.waiting)
      s.settled.length (s.made + 1) := by
  obtain ⟨hloads, hmay⟩ := hok
  have hview : ∀ {id : Int}, shown s.store.rules id ≠ none → id ∉ inFlight s.waiting →
      0 ≤ id ∧ id ≤ s.server.rules.seq := by
    intro id hshown hfree
    rw [h.agree id hfree] at hshown
    exact nonneg_of_view hshown
  cases a with
  | loadRules =>
    cases hcall
    refine synced_ask h rfl rfl hloads (fun _ => hmay) (fun k hk => by cases hk) h.nodup
      (fun _ _ => rfl) List.nodup_nil (fun _ hi => absurd hi List.not_mem_nil) trivial
      fun _ hs => by cases hs
  | hydrate rules => cases hcall
  | createRule payload now iso key =>
    cases hcall
    obtain ⟨hnow, hfree, hkey⟩ := hmay
    have hneg : -(now : Int) < 0 := by omega
    refine synced_ask h rfl rfl hloads (fun hn => by cases hn) (fun k hk => ?_)
      (nodup_append_key h.nodup hfree) (fun i hi => ?_) (List.nodup_singleton _) (fun i hi => ?_)
      ⟨hneg, ?_⟩ fun _ hs => (Option.some.inj hs).symm
    · cases hk
      exact hkey
    · have hne : -(now : Int) ≠ i := fun heq => hi (List.mem_singleton.mpr heq.symm)
      rw [shown, atKey_append, if_neg hne, Option.or_none]
    · obtain rfl : i = -(now : Int) := List.mem_singleton.mp hi
      refine ⟨fun hm => ?_, by omega⟩
      rcases shown_or_nonneg h hm with hs | hs
      · exact hs hfree
      · omega
    · simp only [shown, ne_eq, atKey_append, if_pos]
      rw [shown] at hfree
      simp [hfree]
  | updateRule id payload key =>
    cases hcall
    obtain ⟨hshown, hfree, hkey⟩ := hmay
    have hrange := hview hshown hfree
    have hat : ∀ j, shown (s.store.rules.map fun rule =>
        if rule.id = id then payload.spread rule else rule) j =
        if j = id then (shown s.store.rules id).map payload.spread else shown s.store.rules j :=
      fun j => atKey_modify fun _ => rfl
    refine synced_ask h rfl rfl hloads (fun hn => by cases hn) (fun k hk => ?_) ?_ (fun i hi => ?_)
      (List.nodup_singleton _) (fun i hi => ?_) ⟨hrange.1, ?_⟩
      fun _ hs => (Option.some.inj hs).symm
    · cases hk
      exact hkey
    · have hkeys : (s.store.rules.map fun rule =>
          if rule.id = id then payload.spread rule else rule).map ShownRule.id =
          s.store.rules.map ShownRule.id := keys_modify fun _ => rfl
      exact hkeys ▸ h.nodup
    · rw [touches, List.mem_singleton] at hi
      rw [hat, if_neg hi]
    · rw [touches, List.mem_singleton] at hi
      subst hi
      exact ⟨hfree, hrange.2⟩
    · rw [hat, if_pos rfl]
      simpa using hshown
  | deleteRule id key =>
    cases hcall
    obtain ⟨hshown, hfree, hkey⟩ := hmay
    have hrange := hview hshown hfree
    have hat : ∀ j, shown (s.store.rules.filter fun rule => rule.id ≠ id) j =
        if j = id then none else shown s.store.rules j := fun j => atKey_filter_ne
    refine synced_ask h rfl rfl hloads (fun hn => by cases hn) (fun k hk => ?_)
      (nodup_filter_key h.nodup) (fun i hi => ?_) (List.nodup_singleton _) (fun i hi => ?_)
      ⟨hrange.1, ?_⟩ fun _ hs => (Option.some.inj hs).symm
    · cases hk
      exact hkey
    · rw [touches, List.mem_singleton] at hi
      rw [hat, if_neg hi]
    · rw [touches, List.mem_singleton] at hi
      subst hi
      exact ⟨hfree, hrange.2⟩
    · rw [hat, if_pos rfl]

theorem inSync_step {s s' : Rules} {e : AsyncEvent RuleAction Met OtherCall} (hok : Orderly s e)
    (h : InSync s) (hstep : blocklistStore.Step s e s') : InSync s' := by
  cases hstep with
  | @end_ store server ws settled made a store' hcall =>
    cases a with
    | hydrate rules =>
      obtain ⟨-, rfl, rfl⟩ := hok
      cases hcall
      exact synced_idle (nodup_view _) fun _ => rfl
    | loadRules | createRule | updateRule | deleteRule => cases hcall
  | ask hcall => exact (inSync_call h hok hcall).perm (List.perm_append_singleton _ _).symm
  | @serve store server xs ys settled made id since task how server' reply hserve =>
    have hhead := h.perm List.perm_middle
    refine Synced.perm ?_ List.perm_middle.symm
    have hnew := (next_not_shown hhead).2
    have hp := hhead.pending _ List.mem_cons_self
    have hfree := hhead.fresh _ List.mem_cons_self rfl
    cases how with
    | failed msg =>
      cases hserve
      exact synced_failed hhead rfl msg
    | lost now msg => cases hok
    | served now =>
      rcases answer_cases now hp hfree hnew with ⟨msg, hans⟩ | ⟨db', r, hans, hserved⟩
      · obtain ⟨rfl, rfl⟩ := Prod.mk.inj (hans.symm.trans hserve)
        exact synced_failed hhead rfl msg
      · obtain ⟨rfl, rfl⟩ := Prod.mk.inj (hans.symm.trans hserve)
        exact synced_served hhead rfl hserved
  | again hresume => cases hresume
  | @settle store server xs ys settled made id since task reply store' hresume =>
    obtain ⟨rfl, -⟩ := Prod.mk.inj hresume
    have hhead := h.perm List.perm_middle
    simp only [InSync, List.length_append, List.length_singleton]
    refine synced_deliver hhead rfl fun msg hmsg hkey => ?_
    obtain ⟨hlen, hmade, hsince⟩ := hok _ (App.at_place xs ys _) (by rw [hmsg]; rfl) hkey
    simp only [List.length_append, List.length_cons] at hlen
    have hnil : xs ++ ys = [] := List.length_eq_zero_iff.mp (by
      rw [List.length_append]
      omega)
    exact ⟨hnil, hmade, hsince⟩
  | change => exact hok.elim

/-- In every orderly run from a page that shows the rules of the server, whenever no call
waits, the page shows the rules of the server, in some order. -/
theorem shown_is_stored {store : RulesState} {db : BlocklistDb} {s' : Rules}
    {es : List (AsyncEvent RuleAction Met OtherCall)} (hstart : store.rules = db.view)
    (hrun : blocklistStore.Runs Orderly (.start store db) es s') :
    blocklistStore.Always (fun s => s.waiting = [] → s.store.rules.Perm s.server.view)
      (.start store db) es := by
  have hsync : InSync (.start store db : Rules) :=
    synced_idle (hstart ▸ nodup_view db) fun i => congrArg (shown · i) hstart
  intro es₁ s₁ hpre hexec hidle
  have hs₁ := hrun.always (I := InSync) (fun hok h hstep => inSync_step hok h hstep) hsync
    es₁ s₁ hpre hexec
  refine perm_of_atKey hs₁.nodup (nodup_view _) fun i => ?_
  refine hs₁.agree i ?_
  rw [hidle]
  exact List.not_mem_nil

/-- A POST and a PATCH at the same time, answered in one order and delivered in the
other. -/
def overlapping : List (AsyncEvent RuleAction Met OtherCall) :=
  [.call (.createRule ⟨"*.bak", .filename, none, none⟩ 5 "i" "key-new-3"),
    .call (.updateRule 1 ⟨none, none, some (some "scratch"), none⟩ "key-why-1"),
    .serve 0 (.served "t1"), .serve 1 (.served "t2"), .deliver 1, .deliver 0]

/-- The page with the two rules of the server. -/
def rulesPage : RulesState := ⟨twoRules.db.view, false, none⟩

theorem overlapping_shown : ∃ s', blocklistStore.check Orderly overlapping
      (.start rulesPage twoRules.db) = some s' ∧
    blocklistStore.Always (fun s => s.waiting = [] → s.store.rules.Perm s.server.view)
      (.start rulesPage twoRules.db) overlapping := by
  have hsome : (blocklistStore.check Orderly overlapping
      (.start rulesPage twoRules.db)).isSome = true := by decide +kernel
  obtain ⟨s', hs'⟩ := Option.isSome_iff_exists.mp hsome
  exact ⟨s', hs', shown_is_stored rfl (App.runs_of_check hs')⟩

/-- A DELETE is under way when a POST is made and answered; the DELETE fails and puts back
the page as it was before the POST. -/
theorem rollback_forgets : (blocklistStore.exec
    [.call (.deleteRule 1 "key-del-1"),
      .call (.createRule ⟨"*.bak", .filename, none, none⟩ 5 "i" "key-new-3"),
      .serve 1 (.served "t1"), .deliver 1, .serve 0 (.failed "offline"), .deliver 0]
    (.start rulesPage twoRules.db)).map (fun s =>
      (s.waiting.length, s.store.rules.map (·.id), s.server.view.map (·.id))) =
    some (0, [1, 2], [1, 2, 3]) := by
  decide +kernel

end Nightfall.Web
