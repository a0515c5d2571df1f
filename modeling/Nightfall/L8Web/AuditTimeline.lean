import Nightfall.Core.Async
import Nightfall.L8Web.AuditService

/-!
# The audit timeline (`webui/src/lib/stores/auditTimelinePaging.svelte.js`)

The store asks for pages of the audit log and appends or replaces its entries when
they arrive. Calls overlap: `setFilter` does not wait for a `loadNext` that is under
way, and the page of a `loadNext` is appended to whatever the list is by then.

* `AnswerOf`: what a page of the endpoint says, for the cursor and filter it was
  asked with.
* `Ready`: the entries match the filter and descend, and the cursor is behind them.
* `timeline_unmixed`: over runs in which a page asked for by `loadNext` finds the
  entries and the filter of its call, the timeline never mixes filters.
* `filters_mixed`: a page that arrives behind a change of the filter.
-/
namespace Nightfall.Web
open Nightfall.Core Storage

/-! ## The endpoint -/

/-- The tables `GET /audit-log` reads; the ids are rowids. -/
structure AuditServer where
  log : List AuditLogRow
  files : Table String FileRecord
  ordered : log.Pairwise fun a b => a.id < b.id
  positive : ∀ row ∈ log, 1 ≤ row.id

/-- A text parameter within its bounds, or absent. -/
def lengthWithin (max : Nat) (text : Option String) : Bool :=
  text.all fun t => 1 ≤ t.length ∧ t.length ≤ max

/-- `Header(..., alias="X-Idempotency-Key", min_length=8, max_length=128)`. -/
def acceptsKey (key : String) : Bool := 8 ≤ key.length && key.length ≤ 128

/-- mirrors api/routers/audit_log.py:14-30 -/
def auditLogRoute (py : PyText) (server : AuditServer) (limit : Nat)
    (after action : Option String) : Except String AuditPage :=
  if 1 ≤ limit ∧ limit ≤ 1000 ∧ lengthWithin 128 after ∧ lengthWithin 64 action then
    match getAuditLog py server.log server.files (min limit 1000) after action with
    | .ok page => .ok page
    | .error _ => .error "API request failed: 500"
  else .error "API request failed: 422"

/-- Whether a request reaches the endpoint, or fails on the way with this message. -/
inductive Outcome where
  | served
  | failed (message : String)
  deriving DecidableEq, Repr

/-- A text that is not empty, as JavaScript's `if (text)` reads it. -/
def nonEmpty (text : Option String) : Option String := text.filter (· ≠ "")

/-- mirrors webui/src/lib/api/audit.ts:29-39 -/
def fetchAuditLog (py : PyText) (server : AuditServer) (cursor : Option String) (limit : Nat)
    (action : Option String) : Outcome → Except String AuditPage
  | .served => auditLogRoute py server limit (nonEmpty cursor) (nonEmpty action)
  | .failed message => .error message

/-! ## The store -/

structure TimelineState where
  currentPage : Nat
  entries : List AuditEvent
  cursor : Option String
  loading : Bool
  terminal : Bool
  filter : Option String
  pageSize : Nat
  error : Option String

def defaultPageSize : Nat := 50

def createInitialState : TimelineState :=
  ⟨0, [], none, false, false, none, defaultPageSize, none⟩

/-- The state that shows one page.
mirrors webui/src/lib/stores/auditTimelinePaging.svelte.js:39-50 -/
def initializeTimeline (page : AuditPage) (filter : Option String) : TimelineState where
  currentPage := 1
  entries := page.events
  cursor := page.cursor
  loading := false
  terminal := !page.hasMore
  filter := filter
  pageSize := defaultPageSize
  error := none

inductive TimelineCall where
  | initializeTimeline (page : AuditPage) (filter : Option String)
  | loadNext
  | setFilter (filter : Option String)
  | reset

/-- What a call keeps while it waits: `loadNext` its snapshot, `setFilter` the filter. -/
inductive TimelineTask where
  | next (snapshot : TimelineState)
  | filtered (filter : Option String)

/-- mirrors webui/src/lib/stores/auditTimelinePaging.svelte.js:53-65 -/
def loadNext (s : TimelineState) : TimelineState × Option TimelineTask :=
  if s.loading || s.terminal then (s, none)
  else ({ s with loading := true, error := none }, some (.next s))

/-- mirrors webui/src/lib/stores/auditTimelinePaging.svelte.js:66-82 -/
def loadNextResumed (s : TimelineState) : Except String AuditPage → TimelineState
  | .ok page =>
    { s with
      currentPage := s.currentPage + 1
      entries := s.entries ++ page.events
      cursor := page.cursor
      terminal := !page.hasMore
      loading := false
      error := none }
  | .error message => { s with loading := false, error := some message }

/-- mirrors webui/src/lib/stores/auditTimelinePaging.svelte.js:85-96 -/
def setFilter (filter : Option String) (s : TimelineState) : TimelineState × Option TimelineTask :=
  ({ s with
      currentPage := 0
      entries := []
      cursor := none
      terminal := false
      loading := true
      error := none
      filter := filter }, some (.filtered filter))

/-- mirrors webui/src/lib/stores/auditTimelinePaging.svelte.js:98-117 -/
def setFilterResumed (filter : Option String) (s : TimelineState) :
    Except String AuditPage → TimelineState
  | .ok page => initializeTimeline page filter
  | .error message =>
    { s with
      loading := false
      error := some message
      terminal := if s.entries.length > 0 then s.terminal else false }

/-- The store as a client of the endpoint. -/
def timeline (py : PyText) : App TimelineState AuditServer TimelineTask (Except String AuditPage)
    TimelineCall Outcome AuditServer where
  call
    | .initializeTimeline page filter, _ => (initializeTimeline page filter, none)
    | .loadNext, s => loadNext s
    | .setFilter filter, s => setFilter filter s
    | .reset, _ => (createInitialState, none)
  serve
    | how, .next snapshot, server =>
      (server, fetchAuditLog py server snapshot.cursor snapshot.pageSize snapshot.filter how)
    | how, .filtered filter, server =>
      (server, fetchAuditLog py server none defaultPageSize filter how)
  resume
    | .next _, reply, s => (loadNextResumed s reply, none)
    | .filtered filter, reply, s => (setFilterResumed filter s reply, none)
  change server _ := server

abbrev Timeline := Async TimelineState AuditServer TimelineTask (Except String AuditPage)

abbrev TimelineEvent := AsyncEvent TimelineCall Outcome AuditServer

/-! ## What a page says -/

/-- `state.filter`, as the endpoint reads it. -/
def AuditEvent.matches (e : AuditEvent) (filter : Option String) : Bool :=
  match filter with
  | none => true
  | some action => action == "" || e.action == action

/-- A row with this id is behind the cursor. -/
def olderThan (cursor : Option String) (id : Nat) : Prop :=
  cursorId cursor = 0 ∨ (id : Int) < cursorId cursor

/-- What a page holds that was asked for with this cursor and filter: matching
entries behind the cursor, newest first, and the cursor of the last when there is
more. -/
structure AnswerOf (cursor filter : Option String) (page : AuditPage) : Prop where
  matching : ∀ e ∈ page.events, e.matches filter = true
  descending : page.events.Pairwise fun a b => b.id < a.id
  older : ∀ e ∈ page.events, olderThan cursor e.id
  next : page.hasMore = true → ∃ e ∈ page.events, 1 ≤ e.id ∧ cursorId page.cursor = e.id ∧
    ∀ e' ∈ page.events, e.id ≤ e'.id

theorem auditEvents_columns {py : PyText} {names : String → Option String} :
    ∀ {rows : List AuditLogRow} {events : List AuditEvent},
      auditEvents py names rows = .ok events →
      events.map AuditEvent.columns = rows.map AuditLogRow.columns
  | [], events, h => by
    obtain rfl : ([] : List AuditEvent) = events := Except.ok.inj h
    rfl
  | row :: rows, events, h => by
    simp only [auditEvents] at h
    split at h
    · cases h
    · next e he =>
      split at h
      · cases h
      · next rest hrest =>
        obtain rfl := Except.ok.inj h
        have hcols : e.columns = row.columns := by
          unfold auditEvent at he
          split at he
          · cases he
          · obtain rfl := Except.ok.inj he
            rfl
        simp [hcols, auditEvents_columns hrest]

theorem cursorId_nonEmpty (cursor : Option String) :
    cursorId (nonEmpty cursor) = cursorId cursor := by
  simp [cursorId, nonEmpty, Option.filter_filter]

theorem matches_nonEmpty (filter : Option String) (e : AuditEvent) :
    e.matches (nonEmpty filter) = e.matches filter := by
  cases filter with
  | none => rfl
  | some action =>
    by_cases h : action = ""
    · simp [nonEmpty, AuditEvent.matches, Option.filter, h]
    · simp [nonEmpty, AuditEvent.matches, Option.filter, h]

theorem actionMatches_of_columns {row : AuditLogRow} {e : AuditEvent} (h : row.columns = e.columns)
    (filter : Option String) : actionMatches filter row = e.matches filter := by
  have haction : row.action = e.action := congrArg AuditColumns.action h
  cases filter with
  | none => rfl
  | some action => simp [actionMatches, AuditEvent.matches, haction]

/-- The last of the rows, when they are cut. -/
theorem exists_getLast {β : Type} {l : List β} (h : l ≠ []) :
    ∃ xs b, l = xs ++ [b] ∧ l.getLast? = some b := by
  obtain ⟨xs, b, rfl⟩ := (List.eq_nil_or_concat' l).resolve_left h
  exact ⟨xs, b, rfl, by simp⟩

section
variable {py : PyText} {server : AuditServer} {limit : Nat} {cursor filter : Option String}
  {page : AuditPage}

/-- What the service answers, its rows in place of its events. -/
theorem getAuditLog_columns {log : List AuditLogRow} {files : Table String FileRecord}
    (h : getAuditLog py log files limit cursor filter = .ok page) :
    page.events.map AuditEvent.columns =
      ((selectedRows log (cursorId cursor) filter).take limit).map AuditLogRow.columns ∧
    page.hasMore = decide (limit < (selectedRows log (cursorId cursor) filter).length) ∧
    (page.hasMore = true → page.cursor = page.events.getLast?.map fun e => toString e.id) := by
  simp only [getAuditLog, probe_eq, auditPage] at h
  split at h
  · cases h
  · next events hevents =>
    obtain rfl := Except.ok.inj h
    refine ⟨auditEvents_columns hevents, rfl, fun hmore => ?_⟩
    simp only at hmore ⊢
    rw [hmore, if_pos rfl]

theorem answerOf_getAuditLog (hlimit : 1 ≤ limit)
    (h : getAuditLog py server.log server.files limit cursor filter = .ok page) :
    AnswerOf cursor filter page := by
  obtain ⟨hcols, hmore, hcursor⟩ := getAuditLog_columns h
  generalize hrows : selectedRows server.log (cursorId cursor) filter = rows at hcols hmore
  have hmem : ∀ row ∈ rows.take limit, row ∈ server.log ∧
      isOlder (cursorId cursor) row = true ∧ actionMatches filter row = true := by
    intro row hrow
    have hin := List.mem_of_mem_take hrow
    rw [← hrows, selectedRows, List.mem_reverse, List.mem_filter, Bool.and_eq_true] at hin
    exact hin
  have hevent : ∀ e ∈ page.events, ∃ row ∈ rows.take limit, row.columns = e.columns := by
    intro e he
    have hin : e.columns ∈ (rows.take limit).map AuditLogRow.columns := by
      rw [← hcols]
      exact List.mem_map_of_mem he
    exact List.mem_map.mp hin
  have hdesc : page.events.Pairwise fun a b => b.id < a.id := by
    have hord : rows.Pairwise fun a b => b.id < a.id := by
      rw [← hrows]
      exact List.pairwise_reverse.mpr (server.ordered.filter _)
    have hcut : ((rows.take limit).map AuditLogRow.columns).Pairwise fun a b => b.id < a.id :=
      List.pairwise_map.mpr (hord.sublist (List.take_sublist _ _))
    rw [← hcols] at hcut
    exact List.pairwise_map.mp hcut
  refine ⟨fun e he => ?_, hdesc, fun e he => ?_, fun hm => ?_⟩
  · obtain ⟨row, hrow, hrc⟩ := hevent e he
    rw [← actionMatches_of_columns hrc]
    exact (hmem row hrow).2.2
  · obtain ⟨row, hrow, hrc⟩ := hevent e he
    have hid : row.id = e.id := congrArg AuditColumns.id hrc
    have := (hmem row hrow).2.1
    simp only [isOlder, hid, Bool.or_eq_true, beq_iff_eq, decide_eq_true_eq] at this
    exact this
  · -- a page that leaves rows behind is full, so it has a last entry
    have hlen : page.events.length = limit := by
      rw [hm, eq_comm, decide_eq_true_eq] at hmore
      have := congrArg List.length hcols
      simp only [List.length_map, List.length_take] at this
      omega
    have hne : page.events ≠ [] := List.ne_nil_of_length_pos (by omega)
    obtain ⟨xs, last, hxs, hlast⟩ := exists_getLast hne
    have hin : last ∈ page.events := by rw [hxs]; simp
    obtain ⟨row, hrow, hrc⟩ := hevent last hin
    have hpos : 1 ≤ row.id := server.positive row (hmem row hrow).1
    have hid : row.id = last.id := congrArg AuditColumns.id hrc
    refine ⟨last, hin, by omega, ?_, fun e he => ?_⟩
    · rw [hcursor hm, hlast, Option.map_some, cursorId_toString]
    · rw [hxs] at hdesc he
      rcases List.mem_append.mp he with he | he
      · have := (List.pairwise_append.mp hdesc).2.2 e he last (by simp)
        omega
      · rw [List.mem_singleton.mp he]

theorem answerOf_fetch {how : Outcome}
    (h : fetchAuditLog py server cursor limit filter how = .ok page) :
    AnswerOf cursor filter page := by
  cases how with
  | failed message => cases h
  | served =>
    simp only [fetchAuditLog, auditLogRoute] at h
    split at h
    · next hbounds =>
      split at h
      · next page' hpage =>
        obtain rfl := Except.ok.inj h
        have hans := answerOf_getAuditLog (by omega) hpage
        obtain ⟨hmatching, hdesc, holder, hnext⟩ := hans
        refine ⟨fun e he => ?_, hdesc, fun e he => ?_, hnext⟩
        · have := hmatching e he
          rwa [matches_nonEmpty] at this
        · have := holder e he
          rwa [olderThan, cursorId_nonEmpty] at this
      · cases h
    · cases h

end

/-! ## The invariant -/

/-- What the timeline promises: one filter, newest first, no entry twice. -/
structure Unmixed (s : TimelineState) : Prop where
  matching : ∀ e ∈ s.entries, e.matches s.filter = true
  descending : s.entries.Pairwise fun a b => b.id < a.id

/-- The entries are in order, and what is behind the cursor is older than all of
them unless the timeline is at its end. -/
structure Ready (s : TimelineState) : Prop where
  unmixed : Unmixed s
  behind : s.terminal = false → ∀ id, olderThan s.cursor id → ∀ e ∈ s.entries, id < e.id

/-- A state without entries. -/
theorem ready_nil {s : TimelineState} (h : s.entries = []) : Ready s := by
  refine ⟨⟨fun e he => ?_, ?_⟩, fun _ _ _ e he => ?_⟩
  · simp [h] at he
  · simp [h]
  · simp [h] at he

/-- The rest of the state does not matter. -/
theorem Ready.congr {s s' : TimelineState} (h : Ready s) (hentries : s'.entries = s.entries)
    (hfilter : s'.filter = s.filter) (hcursor : s'.cursor = s.cursor)
    (hterminal : s'.terminal = s.terminal) : Ready s' := by
  obtain ⟨⟨hm, hd⟩, hb⟩ := h
  refine ⟨⟨?_, ?_⟩, ?_⟩
  · rw [hentries, hfilter]; exact hm
  · rw [hentries]; exact hd
  · rw [hentries, hcursor, hterminal]; exact hb

theorem AnswerOf.behind {cursor filter : Option String} {page : AuditPage}
    (h : AnswerOf cursor filter page) (hmore : page.hasMore = true) {id : Nat}
    (hid : olderThan page.cursor id) : ∃ last ∈ page.events, id < last.id ∧
      ∀ e ∈ page.events, last.id ≤ e.id := by
  obtain ⟨last, hlast, hpos, hcursor, hle⟩ := h.next hmore
  rw [olderThan, hcursor] at hid
  exact ⟨last, hlast, by omega, hle⟩

/-- A first page. -/
theorem ready_firstPage {cursor filter : Option String} {page : AuditPage}
    (h : AnswerOf cursor filter page) : Ready (initializeTimeline page filter) := by
  refine ⟨⟨h.matching, h.descending⟩, fun hterminal id hid e he => ?_⟩
  have hmore : page.hasMore = true := by simpa [initializeTimeline] using hterminal
  obtain ⟨last, -, hlt, hle⟩ := h.behind hmore hid
  have := hle e he
  omega

/-- A page behind the entries it was asked for with. -/
theorem ready_append {s snapshot : TimelineState} {page : AuditPage} (hsnap : Ready snapshot)
    (hopen : snapshot.terminal = false) (h : AnswerOf snapshot.cursor snapshot.filter page)
    (hentries : s.entries = snapshot.entries) (hfilter : s.filter = snapshot.filter) :
    Ready (loadNextResumed s (.ok page)) := by
  have hall : ∀ e ∈ page.events, ∀ e' ∈ snapshot.entries, e.id < e'.id := fun e he e' he' =>
    hsnap.behind hopen e.id (h.older e he) e' he'
  refine ⟨⟨fun e he => ?_, ?_⟩, fun hterminal id hid e he => ?_⟩
  · simp only [loadNextResumed, hentries, hfilter, List.mem_append] at he ⊢
    rcases he with he | he
    · exact hsnap.unmixed.matching e he
    · exact h.matching e he
  · simp only [loadNextResumed, hentries]
    exact List.pairwise_append.mpr
      ⟨hsnap.unmixed.descending, h.descending, fun e' he' e he => hall e he e' he'⟩
  · have hmore : page.hasMore = true := by simpa [loadNextResumed] using hterminal
    obtain ⟨last, hlast, hlt, hle⟩ := h.behind hmore hid
    simp only [loadNextResumed, hentries, List.mem_append] at he
    rcases he with he | he
    · have := hall last hlast e he
      omega
    · have := hle e he
      omega

/-- A waiting call, and the page it may have been answered with. -/
def Sound (w : AsyncCall TimelineTask (Except String AuditPage)) : Prop :=
  match w.task with
  | .next snapshot => Ready snapshot ∧ snapshot.terminal = false ∧
      ∀ page, w.reply = some (.ok page) → AnswerOf snapshot.cursor snapshot.filter page
  | .filtered filter => ∀ page, w.reply = some (.ok page) → AnswerOf none filter page

structure TimelineInv (s : Timeline) : Prop where
  store : Ready s.store
  waiting : ∀ w ∈ s.waiting, Sound w

/-- `initialize` is given the first page for its filter, and the page of a
`loadNext` finds the entries and the filter that it was asked for with. -/
def Timely (py : PyText) (s : Timeline) : TimelineEvent → Prop
  | .call (.initializeTimeline page filter) =>
    ∃ server limit, fetchAuditLog py server none limit filter .served = .ok page
  | .deliver i => ∀ w snapshot page, s.waiting[i]? = some w → w.task = .next snapshot →
      w.reply = some (.ok page) →
      s.store.entries = snapshot.entries ∧ s.store.filter = snapshot.filter
  | _ => True

section
variable {py : PyText}

theorem Timely.page {s : Timeline} {a : TimelineCall} (h : Timely py s (.call a)) :
    ∀ page filter, a = .initializeTimeline page filter →
      ∃ server limit, fetchAuditLog py server none limit filter .served = .ok page := by
  intro page filter ha
  subst ha
  exact h

theorem Timely.found {store : TimelineState} {server : AuditServer}
    {xs ys : List (AsyncCall TimelineTask (Except String AuditPage))}
    {w : AsyncCall TimelineTask (Except String AuditPage)}
    {settled : List (AsyncEnd TimelineTask (Except String AuditPage))} {made : Nat}
    (h : Timely py ⟨store, server, xs ++ w :: ys, settled, made⟩ (.deliver xs.length)) :
    ∀ snapshot page, w.task = .next snapshot → w.reply = some (.ok page) →
      store.entries = snapshot.entries ∧ store.filter = snapshot.filter := by
  intro snapshot page htask hreply
  exact h w snapshot page (App.at_place xs ys w) htask hreply

/-- What a call leaves, and what it waits with. -/
theorem ready_call {s s' : TimelineState} {a : TimelineCall} {task : Option TimelineTask}
    (hs : Ready s) (ha : ∀ page filter, a = .initializeTimeline page filter →
      ∃ server limit, fetchAuditLog py server none limit filter .served = .ok page)
    (h : (timeline py).call a s = (s', task)) :
    Ready s' ∧ ∀ k ∈ task, ∀ id since, Sound ⟨id, since, k, none⟩ := by
  cases a with
  | initializeTimeline page filter =>
    obtain ⟨rfl, rfl⟩ := Prod.mk.inj h
    obtain ⟨server, limit, hpage⟩ := ha page filter rfl
    exact ⟨ready_firstPage (answerOf_fetch hpage), by simp⟩
  | loadNext =>
    simp only [timeline, loadNext] at h
    split at h
    · obtain ⟨rfl, rfl⟩ := Prod.mk.inj h
      exact ⟨hs, by simp⟩
    · next hidle =>
      obtain ⟨rfl, rfl⟩ := Prod.mk.inj h
      have hopen : s.terminal = false := by simp at hidle; exact hidle.2
      refine ⟨hs.congr rfl rfl rfl rfl, fun k hk id since => ?_⟩
      obtain rfl := Option.some.inj hk
      exact ⟨hs, hopen, fun page hpage => by cases hpage⟩
  | setFilter filter =>
    obtain ⟨rfl, rfl⟩ := Prod.mk.inj h
    refine ⟨ready_nil rfl, fun k hk id since => ?_⟩
    obtain rfl := Option.some.inj hk
    intro page hpage
    cases hpage
  | reset =>
    obtain ⟨rfl, rfl⟩ := Prod.mk.inj h
    exact ⟨ready_nil rfl, by simp⟩

theorem sound_serve {id since : Nat} {task : TimelineTask} {how : Outcome}
    {server server' : AuditServer} {reply : Except String AuditPage}
    (hw : Sound ⟨id, since, task, none⟩)
    (h : (timeline py).serve how task server = (server', reply)) :
    Sound ⟨id, since, task, some reply⟩ := by
  cases task with
  | next snapshot =>
    obtain ⟨-, rfl⟩ := Prod.mk.inj h
    exact ⟨hw.1, hw.2.1, fun page hpage => answerOf_fetch (Option.some.inj hpage)⟩
  | filtered filter =>
    obtain ⟨-, rfl⟩ := Prod.mk.inj h
    exact fun page hpage => answerOf_fetch (Option.some.inj hpage)

/-- A reply that arrives in time keeps the entries in order. -/
theorem ready_resume {id since : Nat} {task : TimelineTask} {reply : Except String AuditPage}
    {s s' : TimelineState} {next : Option TimelineTask} (hs : Ready s)
    (hw : Sound ⟨id, since, task, some reply⟩)
    (hfound : ∀ snapshot page, task = .next snapshot → some reply = some (.ok page) →
      s.entries = snapshot.entries ∧ s.filter = snapshot.filter)
    (h : (timeline py).resume task reply s = (s', next)) : Ready s' ∧ next = none := by
  cases task with
  | next snapshot =>
    obtain ⟨rfl, rfl⟩ := Prod.mk.inj h
    cases reply with
    | ok page =>
      obtain ⟨hentries, hfilter⟩ := hfound snapshot page rfl rfl
      exact ⟨ready_append hw.1 hw.2.1 (hw.2.2 page rfl) hentries hfilter, rfl⟩
    | error message => exact ⟨hs.congr rfl rfl rfl rfl, rfl⟩
  | filtered filter =>
    obtain ⟨rfl, rfl⟩ := Prod.mk.inj h
    cases reply with
    | ok page => exact ⟨ready_firstPage (hw page rfl), rfl⟩
    | error message =>
      refine ⟨?_, rfl⟩
      by_cases hempty : s.entries.length > 0
      · exact hs.congr rfl rfl rfl (by simp [setFilterResumed, hempty])
      · exact ready_nil (List.eq_nil_of_length_eq_zero (by simpa [setFilterResumed] using hempty))

theorem timelineInv_step {s s' : Timeline} {e : TimelineEvent} (hok : Timely py s e)
    (h : TimelineInv s) (hstep : (timeline py).Step s e s') : TimelineInv s' := by
  obtain ⟨hstore, hwaiting⟩ := h
  cases hstep with
  | end_ hcall => exact ⟨(ready_call hstore hok.page hcall).1, hwaiting⟩
  | ask hcall =>
    obtain ⟨hs, hk⟩ := ready_call hstore hok.page hcall
    refine ⟨hs, List.forall_mem_append.mpr ⟨hwaiting, ?_⟩⟩
    simpa using hk _ rfl _ _
  | serve hserve =>
    simp only [List.forall_mem_append, List.forall_mem_cons] at hwaiting
    refine ⟨hstore, ?_⟩
    simp only [List.forall_mem_append, List.forall_mem_cons]
    exact ⟨hwaiting.1, sound_serve hwaiting.2.1 hserve, hwaiting.2.2⟩
  | again hresume =>
    simp only [List.forall_mem_append, List.forall_mem_cons] at hwaiting
    obtain ⟨-, hnone⟩ := ready_resume hstore hwaiting.2.1 hok.found hresume
    cases hnone
  | settle hresume =>
    simp only [List.forall_mem_append, List.forall_mem_cons] at hwaiting
    obtain ⟨hs, -⟩ := ready_resume hstore hwaiting.2.1 hok.found hresume
    exact ⟨hs, List.forall_mem_append.mpr ⟨hwaiting.1, hwaiting.2.2⟩⟩
  | change => exact ⟨hstore, hwaiting⟩

end

/-- For every run of calls, answers, deliveries and changes of the log, each in
time: the entries match the filter and strictly descend. -/
theorem timeline_unmixed (py : PyText) (server : AuditServer) (es : List TimelineEvent)
    (s : Timeline)
    (h : (timeline py).Runs (Timely py) (.start createInitialState server) es s) :
    Unmixed s.store := by
  have hinit : TimelineInv (.start createInitialState server) :=
    ⟨ready_nil rfl, fun w hw => absurd hw List.not_mem_nil⟩
  exact (App.Runs.inv timelineInv_step h hinit).store.unmixed

/-- A file that was queued and accepted. -/
def twoEvents : AuditServer where
  log := [⟨1, none, none, "pending", none, none, "cli", "t"⟩,
    ⟨2, none, none, "accepted", none, none, "cli", "t"⟩]
  files := ∅
  ordered := by decide
  positive := by decide

/-- All events, then the accepted ones. -/
def oneByOne : List TimelineEvent :=
  [.call .loadNext, .serve 0 .served, .deliver 0,
    .call (.setFilter (some "accepted")), .serve 0 .served, .deliver 0]

theorem oneByOne_unmixed : ∃ s : Timeline,
    (timeline plainText).exec oneByOne (.start createInitialState twoEvents) = some s ∧
      s.store.entries.map (·.id) = [2] ∧ Unmixed s.store := by
  have hrun : ∃ s, (timeline plainText).Runs (Timely plainText)
      (.start createInitialState twoEvents) oneByOne s ∧ s.store.entries.map (·.id) = [2] := by
    refine ⟨_, .cons trivial rfl (.cons trivial rfl (.cons ?_ rfl
      (.cons trivial rfl (.cons trivial rfl (.cons ?_ rfl .nil))))), ?_⟩
    · intro w snapshot page hw htask _
      obtain rfl := Option.some.inj hw
      obtain rfl := TimelineTask.next.inj htask
      exact ⟨rfl, rfl⟩
    · intro w snapshot page hw htask _
      obtain rfl := Option.some.inj hw
      cases htask
    · decide +kernel
  obtain ⟨s, hs, hids⟩ := hrun
  exact ⟨s, hs.exec, hids, timeline_unmixed plainText twoEvents oneByOne s hs⟩

/-- The filter is set while a page is under way, and its first page overtakes
that one. -/
def overtaken : List TimelineEvent :=
  [.call .loadNext, .call (.setFilter (some "accepted")), .serve 0 .served, .serve 1 .served,
    .deliver 1, .deliver 0]

theorem filters_mixed : ∃ s : Timeline,
    (timeline plainText).exec overtaken (.start createInitialState twoEvents) = some s ∧
      s.store.filter = some "accepted" ∧ s.store.entries.map (·.id) = [2, 2, 1] ∧
      ¬ Unmixed s.store := by
  have hrun : ((timeline plainText).exec overtaken (.start createInitialState twoEvents)).map
      (fun s => (s.store.filter, s.store.entries.map (·.id))) =
      some (some "accepted", [2, 2, 1]) := by decide +kernel
  obtain ⟨s, hs, hview⟩ := Option.map_eq_some_iff.mp hrun
  obtain ⟨hfilter, hids⟩ := Prod.mk.inj hview
  refine ⟨s, hs, hfilter, hids, fun h => ?_⟩
  have hdesc : (s.store.entries.map (·.id)).Pairwise fun a b => b < a :=
    List.pairwise_map.mpr h.descending
  rw [hids] at hdesc
  exact absurd hdesc (by decide)

end Nightfall.Web
