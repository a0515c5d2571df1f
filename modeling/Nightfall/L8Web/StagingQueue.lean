import Nightfall.Core.Async
import Nightfall.L8Web.AuditTimeline
import Nightfall.L8Web.StagingService

/-!
# The staging queue (`webui/src/lib/stores/stagingQueue.svelte.js`)

The store loads pages of pending items and triages them: it takes the item out of
its list, posts the action, and asks for the list again. When the POST fails it puts
the state it had at the call back. The server answers a request for a page only
when its limit is between 1 and 100.

* `stagingQueue`: the store as a client of the two endpoints.
* `limits_accepted_iff`: over every run, the store asks only for pages the server
  accepts exactly when no triage that succeeds began with more than 100 items.
* `limit_rejected`: two pages are loaded, and the refresh behind a triage asks for
  101 items.
-/
namespace Nightfall.Web
open Nightfall.Core Storage

/-! ## The endpoints -/

/-- The bounds of `limit` in `GET /staging`. -/
def acceptsLimit (limit : Nat) : Bool := 1 ≤ limit && limit ≤ 100

/-- mirrors api/routers/staging.py:14-23 -/
def stagingRoute (r : Registry) (limit : Nat) (after : Option String) : Except String StagingPage :=
  if acceptsLimit limit && lengthWithin 128 after then .ok (getStagingItems r (min limit 100) after)
  else .error "API request failed: 422"

/-- The registry behind the endpoints, and the items whose accept or reject succeeded. -/
structure QueueServer where
  registry : Registry
  decided : List String

/-- mirrors api/routers/triage.py:42-49 -/
def triageStatus : TxError → String
  | .notFound => "404"
  | .registry _ | .integrity => "500"

/-- `POST /triage/{item_id}/{action}` at the time `now`, the events before and behind a
failure left out. The key of a call is new, so no earlier response is repeated; a key
stored for another request is a conflict.
mirrors api/routers/triage.py:54-118 -/
def triageRoute (server : QueueServer) (a : TriageAction) (itemId key now : String) :
    Except String QueueServer :=
  if !(lengthWithin 128 (some itemId) && acceptsKey key) then .error "API request failed: 422"
  else if (server.registry.uiActionIdempotency.get key).any fun row =>
      row.action ≠ a ∨ row.itemId ≠ itemId then .error "API request failed: 409"
  else
    match server.registry.triageApply a itemId key none "api" now with
    | .error e => .error ("API request failed: " ++ triageStatus e)
    | .ok r => .ok ⟨r, if a = .defer then server.decided else itemId :: server.decided⟩

/-! ## The store -/

structure QueueState where
  items : List StagingItem
  cursor : Option String
  total : Nat
  activeIndex : Nat
  loading : Bool
  error : Option String
  deriving DecidableEq, Repr

def defaultPageLimit : Nat := 100

def QueueState.initial : QueueState := ⟨[], none, 0, 0, false, none⟩

/-- The server's items, those with a hash in the list in the form they have there.
mirrors webui/src/lib/stores/stagingQueue.svelte.js:20-45 -/
def mergeItemsByIdentity (currentItems serverItems : List StagingItem) : List StagingItem :=
  serverItems.map fun serverItem =>
    if serverItem.sha256 = "" then serverItem
    else (currentItems.reverse.find? fun item => item.sha256 = serverItem.sha256).getD serverItem

/-- mirrors webui/src/lib/stores/stagingQueue.svelte.js:73-82 -/
def refocused (s : QueueState) (items : List StagingItem) : Nat :=
  let clamped := min s.activeIndex (items.length - 1)
  match nonEmpty (s.items[s.activeIndex]?.map (·.sha256)) with
  | none => clamped
  | some activeSha => (items.findIdx? fun item => item.sha256 = activeSha).getD clamped

/-- The list and the active index behind a page.
mirrors webui/src/lib/stores/stagingQueue.svelte.js:59-85 -/
def resolved (cursor : Option String) (page : StagingPage) (s : QueueState) :
    List StagingItem × Nat :=
  if (nonEmpty cursor).isSome then (s.items ++ page.items, s.activeIndex)
  else if s.items.length = 0 then (page.items, 0)
  else
    let items := mergeItemsByIdentity s.items page.items
    (items, refocused s items)

/-- What a triage keeps while it waits: the state at its call, and what it computed
from it. -/
structure Kept where
  snapshot : QueueState
  refreshLimit : Nat
  revalidatedActiveIndex : Nat
  deriving DecidableEq, Repr

inductive QueueTask where
  | page (cursor : Option String) (limit : Nat)
  | post (a : TriageAction) (itemId key : String) (kept : Kept)
  | refresh (itemId : String) (kept : Kept)
  deriving DecidableEq, Repr

inductive QueueReply where
  | done
  | page (page : StagingPage)
  | failed (message : String)
  deriving DecidableEq, Repr

inductive QueueCall where
  | loadPage (cursor : Option String) (limit : Nat)
  | clearQueue
  | hydrate (items : List StagingItem)
  | setActiveIndex (index : Int)
  | shiftActive (delta : Int)
  | triageItem (action itemId key : String)
  deriving DecidableEq, Repr

/-- mirrors webui/src/lib/stores/stagingQueue.svelte.js:47-55 -/
def loadPage (cursor : Option String) (limit : Nat) (s : QueueState) :
    QueueState × Option QueueTask :=
  ({ s with loading := (nonEmpty cursor).isSome || s.items.length == 0, error := none },
    some (.page cursor limit))

/-- mirrors webui/src/lib/stores/stagingQueue.svelte.js:56-99 -/
def loadPageResumed (cursor : Option String) (s : QueueState) : QueueReply → QueueState
  | .page page =>
    let list := resolved cursor page s
    { items := list.1
      activeIndex := list.2
      cursor := page.cursor
      total := page.total
      loading := false
      error := none }
  | .failed message => { s with loading := false, error := some message }
  | .done => s

/-- mirrors webui/src/lib/stores/stagingQueue.svelte.js:106-114 -/
def hydrate (items : List StagingItem) (s : QueueState) : QueueState :=
  { s with items := items, total := items.length, activeIndex := 0, error := none }

/-- `Math.max(0, Math.min(index, items.length - 1))` -/
def clampIndex (index : Int) (items : List StagingItem) : Nat :=
  (max 0 (min index ((items.length : Int) - 1))).toNat

/-- mirrors webui/src/lib/stores/stagingQueue.svelte.js:116-124 -/
def setActiveIndex (index : Int) (s : QueueState) : QueueState :=
  if s.items.length = 0 then { s with activeIndex := 0 }
  else { s with activeIndex := clampIndex index s.items }

/-- mirrors webui/src/lib/stores/stagingQueue.svelte.js:126-135 -/
def shiftActive (delta : Int) (s : QueueState) : QueueState :=
  if s.items.length = 0 then s
  else { s with activeIndex := clampIndex (s.activeIndex + delta) s.items }

def triageActionOf : String → Option TriageAction
  | "accept" => some .accept
  | "reject" => some .reject
  | "defer" => some .defer
  | _ => none

/-- The item taken out of the list, when it is there.
mirrors webui/src/lib/stores/stagingQueue.svelte.js:146-162 -/
def withoutItem (itemId : String) (s : QueueState) : QueueState :=
  if s.items.any fun item => item.sha256 = itemId then
    let items := s.items.filter fun item => item.sha256 ≠ itemId
    { items := items
      cursor := s.cursor
      total := s.total - 1
      activeIndex := min s.activeIndex (items.length - 1)
      loading := true
      error := none }
  else s

/-- Up to the POST. An action there is no function for fails at once, with the
state put back.
mirrors webui/src/lib/stores/stagingQueue.svelte.js:137-184 -/
def triageItem (action itemId key : String) (s : QueueState) : QueueState × Option QueueTask :=
  let removed := withoutItem itemId s
  let present := s.items.any fun item => item.sha256 = itemId
  let kept : Kept := ⟨s, max s.items.length defaultPageLimit,
    if present then removed.activeIndex else 0⟩
  match triageActionOf action with
  | some a => (removed, some (.post a itemId key kept))
  | none => ({ s with error := some ("Unsupported triage action: " ++ action) }, none)

/-- mirrors webui/src/lib/stores/stagingQueue.svelte.js:186-208 -/
def refreshResumed (kept : Kept) (s : QueueState) : QueueReply → QueueState
  | .page page =>
    let items := mergeItemsByIdentity s.items page.items
    { items := items
      cursor := page.cursor
      total := page.total
      activeIndex := min kept.revalidatedActiveIndex (items.length - 1)
      loading := false
      error := none }
  | .failed message => { s with loading := false, error := some message }
  | .done => s

def replyOf : Except String StagingPage → QueueReply
  | .ok page => .page page
  | .error message => .failed message

/-- The store as a client. A request reaches its endpoint at a time, or fails with a
message; a page is no reply to a POST, and the other way round. -/
def stagingQueue : App QueueState QueueServer QueueTask QueueReply QueueCall
    (Except String String) Registry where
  call
    | .loadPage cursor limit, s => loadPage cursor limit s
    | .clearQueue, _ => (.initial, none)
    | .hydrate items, s => (hydrate items s, none)
    | .setActiveIndex index, s => (setActiveIndex index s, none)
    | .shiftActive delta, s => (shiftActive delta s, none)
    | .triageItem action itemId key, s => triageItem action itemId key s
  serve
    | .error message, _, server => (server, .failed message)
    | .ok _, .page cursor limit, server =>
      (server, replyOf (stagingRoute server.registry limit (nonEmpty cursor)))
    | .ok _, .refresh _ kept, server =>
      (server, replyOf (stagingRoute server.registry kept.refreshLimit none))
    | .ok now, .post a itemId key _, server =>
      match triageRoute server a itemId key now with
      | .ok server' => (server', .done)
      | .error message => (server, .failed message)
  resume
    | .page cursor _, reply, s => (loadPageResumed cursor s reply, none)
    | .post _ itemId _ kept, .done, s => (s, some (.refresh itemId kept))
    | .post _ _ _ kept, .failed message, _ => ({ kept.snapshot with error := some message }, none)
    | .post _ _ _ _, .page _, s => (s, none)
    | .refresh _ kept, reply, s => (refreshResumed kept s reply, none)
  change r server := { server with registry := r }

abbrev Queue := Async QueueState QueueServer QueueTask QueueReply

abbrev QueueEvent := AsyncEvent QueueCall (Except String String) Registry

/-! ## The limits it asks with -/

/-- The limit of a request for a page. -/
def QueueTask.pageLimit : QueueTask → Option Nat
  | .page _ limit => some limit
  | .post _ _ _ _ => none
  | .refresh _ kept => some kept.refreshLimit

/-- Every page the store has asked for has a limit the endpoint accepts. -/
def LimitsAccepted (s : Queue) : Prop :=
  ∀ w ∈ s.waiting, ∀ limit ∈ w.task.pageLimit, acceptsLimit limit = true

/-- `loadPage` is called with its default limit. -/
def defaultLimit : QueueEvent → Bool
  | .call (.loadPage _ limit) => limit == defaultPageLimit
  | _ => true

/-- A triage whose POST succeeded was called with no more than 100 items. -/
def fewItems (s : Queue) : QueueEvent → Bool
  | .deliver i =>
    match s.waiting[i]? with
    | some ⟨_, _, .post _ _ _ kept, some .done⟩ => decide (kept.snapshot.items.length ≤ 100)
    | _ => true
  | _ => true

/-- The limit a triage will refresh with, computed from the list at its call. -/
def QueueTask.Computed : QueueTask → Prop
  | .page _ limit => limit = defaultPageLimit
  | .post _ _ _ kept => kept.refreshLimit = max kept.snapshot.items.length defaultPageLimit
  | .refresh _ kept => kept.refreshLimit = max kept.snapshot.items.length defaultPageLimit

def Computed (s : Queue) : Prop := ∀ w ∈ s.waiting, w.task.Computed

/-- The first request of a call. -/
theorem computed_call {s s' : QueueState} {a : QueueCall} {task : QueueTask}
    (hlimit : ∀ cursor limit, a = .loadPage cursor limit → limit = defaultPageLimit)
    (h : stagingQueue.call a s = (s', some task)) :
    task.Computed ∧ ∀ limit ∈ task.pageLimit, limit = defaultPageLimit := by
  cases a with
  | loadPage cursor limit =>
    obtain rfl := Option.some.inj (Prod.mk.inj h).2
    have hl := hlimit cursor limit rfl
    exact ⟨hl, fun limit' h' => by rw [← Option.some.inj h']; exact hl⟩
  | triageItem action itemId key =>
    simp only [stagingQueue, triageItem] at h
    split at h
    · obtain rfl := Option.some.inj (Prod.mk.inj h).2
      exact ⟨rfl, fun limit h' => by cases h'⟩
    · cases h
  | clearQueue | hydrate | setActiveIndex | shiftActive => cases h

/-- Only a triage goes on, and it keeps what it computed. -/
theorem resume_again {task next : QueueTask} {reply : QueueReply} {s s' : QueueState}
    (h : stagingQueue.resume task reply s = (s', some next)) :
    ∃ a itemId key kept, task = .post a itemId key kept ∧ reply = .done ∧
      next = .refresh itemId kept ∧ s' = s := by
  cases task with
  | post a itemId key kept =>
    cases reply with
    | done =>
      obtain ⟨rfl, hnext⟩ := Prod.mk.inj h
      exact ⟨a, itemId, key, kept, rfl, rfl, (Option.some.inj hnext).symm, rfl⟩
    | page | failed => cases h
  | page | refresh => cases h

theorem defaultLimit_page {a : QueueCall} (h : defaultLimit (.call a) = true) :
    ∀ cursor limit, a = .loadPage cursor limit → limit = defaultPageLimit := by
  intro cursor limit ha
  subst ha
  exact beq_iff_eq.mp h

theorem computed_step {s s' : Queue} {e : QueueEvent} (hok : defaultLimit e = true)
    (h : Computed s)
    (hstep : stagingQueue.Step s e s') : Computed s' := by
  cases hstep with
  | end_ => exact h
  | ask hcall =>
    refine List.forall_mem_append.mpr ⟨h, ?_⟩
    simpa using (computed_call (defaultLimit_page hok) hcall).1
  | serve =>
    simp only [Computed, List.forall_mem_append, List.forall_mem_cons] at h ⊢
    exact h
  | again hresume =>
    simp only [Computed, List.forall_mem_append, List.forall_mem_cons] at h ⊢
    obtain ⟨a, itemId, key, kept, rfl, rfl, rfl, rfl⟩ := resume_again hresume
    exact h
  | settle =>
    simp only [Computed, List.forall_mem_append, List.forall_mem_cons] at h ⊢
    exact ⟨h.1, h.2.2⟩
  | change => exact h

/-- A computed limit is accepted exactly when the list was short. -/
theorem acceptsLimit_computed (n : Nat) :
    acceptsLimit (max n defaultPageLimit) = true ↔ n ≤ 100 := by
  simp [acceptsLimit, defaultPageLimit]

structure Limited (s : Queue) : Prop where
  computed : Computed s
  accepted : LimitsAccepted s

theorem limited_start (server : QueueServer) : Limited (.start .initial server) :=
  ⟨fun _ h => absurd h List.not_mem_nil, fun _ h => absurd h List.not_mem_nil⟩

theorem limited_step {s s' : Queue} {e : QueueEvent}
    (hok : defaultLimit e = true ∧ fewItems s e = true) (h : Limited s)
    (hstep : stagingQueue.Step s e s') : Limited s' := by
  obtain ⟨hdefault, hfew⟩ := hok
  obtain ⟨hcomputed, haccepted⟩ := h
  refine ⟨computed_step hdefault hcomputed hstep, ?_⟩
  cases hstep with
  | end_ => exact haccepted
  | ask hcall =>
    refine List.forall_mem_append.mpr ⟨haccepted, List.forall_mem_singleton.mpr ?_⟩
    intro limit hlimit
    rw [(computed_call (defaultLimit_page hdefault) hcall).2 limit hlimit]
    rfl
  | serve =>
    simp only [LimitsAccepted, List.forall_mem_append, List.forall_mem_cons] at haccepted ⊢
    exact haccepted
  | again hresume =>
    obtain ⟨a, itemId, key, kept, rfl, rfl, rfl, rfl⟩ := resume_again hresume
    simp only [Computed, LimitsAccepted, List.forall_mem_append, List.forall_mem_cons]
      at hcomputed haccepted ⊢
    refine ⟨haccepted.1, fun limit hlimit => ?_, haccepted.2.2⟩
    obtain rfl := Option.some.inj hlimit
    have hkept : kept.refreshLimit = max kept.snapshot.items.length defaultPageLimit :=
      hcomputed.2.1
    rw [hkept, acceptsLimit_computed]
    simpa [fewItems] using hfew
  | settle =>
    simp only [LimitsAccepted, List.forall_mem_append, List.forall_mem_cons] at haccepted ⊢
    exact ⟨haccepted.1, haccepted.2.2⟩
  | change => exact haccepted

/-- A refresh that is accepted belongs to a triage with few items. -/
theorem fewItems_of_accepted {s s' : Queue} {e : QueueEvent} (hc : Computed s)
    (hstep : stagingQueue.step s e = some s') (h : LimitsAccepted s') : fewItems s e = true := by
  cases e with
  | deliver i =>
    simp only [fewItems]
    split
    · next id since a itemId key kept hw =>
      simp only [App.step, hw] at hstep
      obtain rfl := Option.some.inj hstep
      have hi : i < s.waiting.length := (List.getElem?_eq_some_iff.mp hw).1
      have hmem : (⟨id, since, .refresh itemId kept, none⟩ : AsyncCall QueueTask QueueReply) ∈
          s.waiting.set i ⟨id, since, .refresh itemId kept, none⟩ := List.mem_set hi _
      have hkept : kept.refreshLimit = max kept.snapshot.items.length defaultPageLimit :=
        hc _ (List.mem_of_getElem? hw)
      have haccepts := h _ hmem kept.refreshLimit rfl
      rw [hkept, acceptsLimit_computed] at haccepts
      exact decide_eq_true haccepts
    · rfl
  | call | serve | change => rfl

/-- By induction on the run: each event leads to a state whose limits are accepted. -/
theorem fewItems_of_always {s s' : Queue} {es : List QueueEvent}
    (h : stagingQueue.Runs (fun _ e => defaultLimit e = true) s es s') : Computed s →
      stagingQueue.Always LimitsAccepted s es →
      stagingQueue.Runs (fun s e => defaultLimit e = true ∧ fewItems s e = true) s es s' := by
  induction h with
  | nil => exact fun _ _ => .nil
  | cons hok he _ ih =>
    intro hc halways
    have htail := halways.tail he
    exact .cons ⟨hok, fewItems_of_accepted hc he htail.head⟩ he
      (ih (computed_step hok hc (App.step_of he)) htail)

/-- For every run of calls and answers, with `loadPage` at its default limit: every
page the store asks for, in every state, has a limit the endpoint accepts, exactly
when every triage whose POST succeeds was called with at most 100 items. -/
theorem limits_accepted_iff (server : QueueServer) (es : List QueueEvent) (s : Queue)
    (h : stagingQueue.Runs (fun _ e => defaultLimit e = true) (.start .initial server) es s) :
    stagingQueue.Always LimitsAccepted (.start .initial server) es ↔
      stagingQueue.Runs (fun s e => defaultLimit e = true ∧ fewItems s e = true)
        (.start .initial server) es s := by
  constructor
  · exact fewItems_of_always h (limited_start server).computed
  · intro hruns es₁ s₁ hpre hexec
    exact (hruns.always limited_step (limited_start server) es₁ s₁ hpre hexec).accepted

/-- An item of a page, and a triage of it that succeeds. -/
def oneTriage : List QueueEvent :=
  [.call (.loadPage none 100), .serve 0 (.ok "t"), .deliver 0,
    .call (.triageItem "reject" "s1" "key-0001"), .serve 0 (.ok "t"), .deliver 0, .serve 0 (.ok "t")]

theorem oneTriage_accepted :
    stagingQueue.Always LimitsAccepted (.start .initial ⟨twoOrigins, []⟩) oneTriage := by
  have hrun : (stagingQueue.check (fun s e => defaultLimit e = true ∧ fewItems s e = true) oneTriage
      (.start .initial ⟨twoOrigins, []⟩)).isSome = true := by decide +kernel
  obtain ⟨s, hs⟩ := Option.isSome_iff_exists.mp hrun
  have hruns := App.runs_of_check hs
  exact (limits_accepted_iff ⟨twoOrigins, []⟩ oneTriage s (hruns.mono fun h => h.1)).mpr hruns

/-- This many pending files, named by numbers in their order. -/
def manyPending (n : Nat) : Registry :=
  { Registry.empty with
    files := ⟨(List.range n).map fun i => ⟨toString (1000 + i), pendingRow⟩, by
      have hinj : Function.Injective fun i : Nat => toString (1000 + i) := fun a b h => by
        have ha := cursorId_toString (1000 + a)
        simp only at h
        rw [h, cursorId_toString] at ha
        omega
      simpa [List.NodupKeys, List.keys, Function.comp_def] using List.nodup_range.map hinj⟩ }

/-- The second page is loaded behind the first, and the first item accepted. -/
def twoPages : List QueueEvent :=
  [.call (.loadPage none 100), .serve 0 (.ok "t"), .deliver 0,
    .call (.loadPage (some "1099") 100), .serve 0 (.ok "t"), .deliver 0,
    .call (.triageItem "accept" "1000" "key-0001"), .serve 0 (.ok "t"), .deliver 0]

theorem limit_rejected : ∃ s,
    stagingQueue.exec twoPages (.start .initial ⟨manyPending 101, []⟩) = some s ∧
      s.waiting.map (·.task.pageLimit) = [some 101] ∧
      stagingRoute s.server.registry 101 none = .error "API request failed: 422" ∧
      ¬ LimitsAccepted s := by
  have hrun : (stagingQueue.exec twoPages (.start .initial ⟨manyPending 101, []⟩)).map
      (fun s => s.waiting.map (·.task.pageLimit)) = some [some 101] := by decide +kernel
  obtain ⟨s, hs, hlimits⟩ := Option.map_eq_some_iff.mp hrun
  refine ⟨s, hs, hlimits, rfl, fun h => ?_⟩
  have hmem : some 101 ∈ s.waiting.map (·.task.pageLimit) := by rw [hlimits]; simp
  obtain ⟨w, hw, hlimit⟩ := List.mem_map.mp hmem
  exact absurd (h w hw 101 hlimit) (by decide)

end Nightfall.Web
