import Nightfall.L8Web.StagingQueue

/-!
# The active index of the staging queue

The store of `StagingQueue` against any server: a request is answered with any page or
any failure, whatever the server does meanwhile. Some calls update the store more than
once; `updates` lists every state they set, in order, also the ones a later update of
the same call replaces.

`activeIndex_valid`: in every state of every run the active index points into the list,
or the list is empty and the index is 0.
-/
namespace Nightfall.Web
open Nightfall.Core

/-- The list is empty and the index 0, or the index points into the list. -/
def IndexValid (s : QueueState) : Prop :=
  (s.items = [] ∧ s.activeIndex = 0) ∨ s.activeIndex < s.items.length

/-! ## Every update -/

/-- The states a call sets. A triage with an action there is no function for takes the
item out, puts the list back and sets the error. -/
def callUpdates : QueueCall → QueueState → List QueueState
  | .triageItem action itemId key, s =>
    match triageActionOf action with
    | some _ => [withoutItem itemId s]
    | none => [withoutItem itemId s, s, (triageItem action itemId key s).1]
  | a, s => [(stagingQueue.call a s).1]

/-- The states a reply sets. A POST that fails puts the list back and sets the error. -/
def replyUpdates : QueueTask → QueueReply → QueueState → List QueueState
  | .post a itemId key kept, .failed message, s =>
    [kept.snapshot, (stagingQueue.resume (.post a itemId key kept) (.failed message) s).1]
  | task, reply, s => [(stagingQueue.resume task reply s).1]

section
variable {ω ε δ : Type}

/-- The store against a server that answers as `serve` says. -/
def against (serve : ε → QueueTask → ω → ω × QueueReply) (change : δ → ω → ω) :
    App QueueState ω QueueTask QueueReply QueueCall ε δ where
  call := stagingQueue.call
  serve := serve
  resume := stagingQueue.resume
  change := change

/-- The states an event sets. -/
def eventUpdates (s : Async QueueState ω QueueTask QueueReply) :
    AsyncEvent QueueCall ε δ → List QueueState
  | .call a => callUpdates a s.store
  | .deliver i =>
    match s.waiting[i]? with
    | some ⟨_, _, task, some reply⟩ => replyUpdates task reply s.store
    | _ => []
  | _ => []

/-- Every state the store has from the first on; an event that cannot happen ends the
run. -/
def updates (app : App QueueState ω QueueTask QueueReply QueueCall ε δ) :
    List (AsyncEvent QueueCall ε δ) → Async QueueState ω QueueTask QueueReply → List QueueState
  | [], s => [s.store]
  | e :: es, s =>
    s.store :: eventUpdates s e ++
      match app.step s e with
      | some s' => updates app es s'
      | none => []

/-! ## One update -/

theorem indexValid_initial : IndexValid .initial := .inl ⟨rfl, rfl⟩

theorem min_valid {s : QueueState} {k : Nat} (h : s.activeIndex = min k (s.items.length - 1)) :
    IndexValid s := by
  unfold IndexValid
  cases hitems : s.items with
  | nil =>
    rw [hitems] at h
    simp only [List.length_nil, Nat.zero_sub, Nat.min_zero] at h
    exact .inl ⟨rfl, h⟩
  | cons item items =>
    right
    rw [hitems, List.length_cons] at h
    rw [List.length_cons]
    omega

theorem clampIndex_lt (index : Int) {items : List StagingItem} (h : items.length ≠ 0) :
    clampIndex index items < items.length := by
  unfold clampIndex
  omega

theorem withoutItem_valid {s : QueueState} (h : IndexValid s) (itemId : String) :
    IndexValid (withoutItem itemId s) := by
  unfold withoutItem
  split
  · exact min_valid rfl
  · exact h

/-- The active item is found in the new list, or the old index is cut down to it. -/
theorem refocused_valid (s : QueueState) (items : List StagingItem) (cursor : Option String)
    (total : Nat) (loading : Bool) (error : Option String) :
    IndexValid ⟨items, cursor, total, refocused s items, loading, error⟩ := by
  unfold refocused
  dsimp only
  split
  · exact min_valid rfl
  · next activeSha _ =>
    cases hfound : items.findIdx? fun item => item.sha256 = activeSha with
    | none => exact min_valid rfl
    | some i => exact .inr (List.findIdx?_eq_some_iff_getElem.mp hfound).1

theorem resolved_valid {s : QueueState} (h : IndexValid s) (cursor cursor' : Option String)
    (page : StagingPage) (total : Nat) (loading : Bool) (error : Option String) :
    IndexValid ⟨(resolved cursor page s).1, cursor', total, (resolved cursor page s).2, loading,
      error⟩ := by
  unfold resolved
  split
  · rcases h with ⟨hitems, hindex⟩ | hlt
    · -- the first page is appended to an empty list
      cases hpage : page.items with
      | nil => exact .inl ⟨by simp [hitems], hindex⟩
      | cons item items =>
        right
        simp [hindex]
    · right
      simp only [List.length_append]
      omega
  · split
    · cases hpage : page.items with
      | nil => exact .inl ⟨rfl, rfl⟩
      | cons item items => exact .inr (by simp)
    · exact refocused_valid s _ _ _ _ _

theorem loadPageResumed_valid {s : QueueState} (h : IndexValid s) (cursor : Option String)
    (reply : QueueReply) : IndexValid (loadPageResumed cursor s reply) := by
  cases reply with
  | page page => exact resolved_valid h cursor _ page _ _ _
  | failed | done => exact h

theorem refreshResumed_valid {s : QueueState} (h : IndexValid s) (kept : Kept)
    (reply : QueueReply) : IndexValid (refreshResumed kept s reply) := by
  cases reply with
  | page page => exact min_valid rfl
  | failed | done => exact h

/-! ## Calls and replies -/

/-- The list a triage may put back is one the store has shown. -/
def QueueTask.SnapshotValid : QueueTask → Prop
  | .post _ _ _ kept => IndexValid kept.snapshot
  | _ => True

theorem callUpdates_valid {s : QueueState} (h : IndexValid s) (a : QueueCall) :
    ∀ st ∈ callUpdates a s, IndexValid st := by
  cases a with
  | triageItem action itemId key =>
    cases haction : triageActionOf action with
    | some a =>
      simp only [callUpdates, haction, List.forall_mem_singleton]
      exact withoutItem_valid h itemId
    | none =>
      simp only [callUpdates, triageItem, haction, List.forall_mem_cons]
      exact ⟨withoutItem_valid h itemId, h, h, by simp⟩
  | loadPage cursor limit =>
    simp only [callUpdates, List.forall_mem_singleton]
    exact h
  | clearQueue =>
    simp only [callUpdates, List.forall_mem_singleton]
    exact indexValid_initial
  | hydrate items =>
    simp only [callUpdates, List.forall_mem_singleton]
    cases items with
    | nil => exact .inl ⟨rfl, rfl⟩
    | cons item items => exact .inr (Nat.succ_pos _)
  | setActiveIndex index =>
    simp only [callUpdates, List.forall_mem_singleton, stagingQueue, setActiveIndex]
    split
    · next hempty => exact .inl ⟨List.eq_nil_of_length_eq_zero hempty, rfl⟩
    · next hne => exact .inr (clampIndex_lt index hne)
  | shiftActive delta =>
    simp only [callUpdates, List.forall_mem_singleton, stagingQueue, shiftActive]
    split
    · exact h
    · next hne => exact .inr (clampIndex_lt _ hne)

theorem replyUpdates_valid {s : QueueState} (h : IndexValid s) {task : QueueTask}
    (htask : task.SnapshotValid) (reply : QueueReply) :
    ∀ st ∈ replyUpdates task reply s, IndexValid st := by
  cases task with
  | page cursor limit =>
    simpa [replyUpdates, stagingQueue] using loadPageResumed_valid h cursor reply
  | refresh itemId kept =>
    simpa [replyUpdates, stagingQueue] using refreshResumed_valid h kept reply
  | post a itemId key kept =>
    cases reply with
    | failed message =>
      simp only [replyUpdates, stagingQueue, List.forall_mem_cons]
      exact ⟨htask, htask, by simp⟩
    | done | page => simpa [replyUpdates, stagingQueue] using h

/-- The last state a call sets is the one it leaves. -/
theorem call_mem_updates {a : QueueCall} {s s' : QueueState} {task : Option QueueTask}
    (hcall : stagingQueue.call a s = (s', task)) : s' ∈ callUpdates a s := by
  obtain rfl : s' = (stagingQueue.call a s).1 := by rw [hcall]
  cases a with
  | triageItem action itemId key =>
    cases haction : triageActionOf action <;>
      simp [callUpdates, stagingQueue, triageItem, haction]
  | loadPage | clearQueue | hydrate | setActiveIndex | shiftActive => simp [callUpdates]

theorem resume_mem_updates {task : QueueTask} {reply : QueueReply} {s s' : QueueState}
    {next : Option QueueTask} (hresume : stagingQueue.resume task reply s = (s', next)) :
    s' ∈ replyUpdates task reply s := by
  obtain rfl : s' = (stagingQueue.resume task reply s).1 := by rw [hresume]
  unfold replyUpdates
  split <;> simp

theorem call_snapshot {s s' : QueueState} (h : IndexValid s) {a : QueueCall} {task : QueueTask}
    (hcall : stagingQueue.call a s = (s', some task)) : task.SnapshotValid := by
  cases a with
  | loadPage cursor limit =>
    obtain rfl := Option.some.inj (Prod.mk.inj hcall).2
    trivial
  | triageItem action itemId key =>
    simp only [stagingQueue, triageItem] at hcall
    split at hcall
    · obtain rfl := Option.some.inj (Prod.mk.inj hcall).2
      exact h
    · cases hcall
  | clearQueue | hydrate | setActiveIndex | shiftActive => cases hcall

/-! ## Runs -/

/-- The store is in bounds, and so is every list that may be put back. -/
structure IndexInv (s : Async QueueState ω QueueTask QueueReply) : Prop where
  store : IndexValid s.store
  snapshots : ∀ w ∈ s.waiting, w.task.SnapshotValid

variable {serve : ε → QueueTask → ω → ω × QueueReply} {change : δ → ω → ω}
  {s s' : Async QueueState ω QueueTask QueueReply} {e : AsyncEvent QueueCall ε δ}

theorem eventUpdates_valid (h : IndexInv s) (e : AsyncEvent QueueCall ε δ) :
    ∀ st ∈ eventUpdates s e, IndexValid st := by
  cases e with
  | call a => exact callUpdates_valid h.store a
  | deliver i =>
    simp only [eventUpdates]
    split
    · next id since task reply hi =>
      exact replyUpdates_valid h.store (h.snapshots _ (List.mem_of_getElem? hi)) reply
    · simp
  | serve | change => simp [eventUpdates]

theorem indexInv_step (h : IndexInv s) (hstep : (against serve change).Step s e s') :
    IndexInv s' := by
  obtain ⟨hstore, hsnapshots⟩ := h
  cases hstep with
  | end_ hcall => exact ⟨callUpdates_valid hstore _ _ (call_mem_updates hcall), hsnapshots⟩
  | ask hcall =>
    refine ⟨callUpdates_valid hstore _ _ (call_mem_updates hcall),
      List.forall_mem_append.mpr ⟨hsnapshots, ?_⟩⟩
    simpa using call_snapshot hstore hcall
  | serve =>
    refine ⟨hstore, ?_⟩
    simp only [List.forall_mem_append, List.forall_mem_cons] at hsnapshots ⊢
    exact hsnapshots
  | again hresume =>
    obtain ⟨a, itemId, key, kept, rfl, rfl, rfl, rfl⟩ := resume_again hresume
    refine ⟨hstore, ?_⟩
    simp only [List.forall_mem_append, List.forall_mem_cons] at hsnapshots ⊢
    exact ⟨hsnapshots.1, trivial, hsnapshots.2.2⟩
  | settle hresume =>
    simp only [List.forall_mem_append, List.forall_mem_cons] at hsnapshots
    refine ⟨replyUpdates_valid hstore hsnapshots.2.1 _ _ (resume_mem_updates hresume), ?_⟩
    simp only [List.forall_mem_append]
    exact ⟨hsnapshots.1, hsnapshots.2.2⟩
  | change => exact ⟨hstore, hsnapshots⟩

theorem updates_valid : ∀ (es : List (AsyncEvent QueueCall ε δ))
    (s : Async QueueState ω QueueTask QueueReply), IndexInv s →
      ∀ st ∈ updates (against serve change) es s, IndexValid st
  | [], s, h => by simpa [updates] using h.store
  | e :: es, s, h => by
    have hmore : ∀ st ∈ (match (against serve change).step s e with
        | some s' => updates (against serve change) es s'
        | none => []), IndexValid st := by
      cases hstep : (against serve change).step s e with
      | none => simp
      | some s' => exact updates_valid es s' (indexInv_step h (App.step_of hstep))
    simp only [updates, List.cons_append, List.forall_mem_cons, List.forall_mem_append]
    exact ⟨h.store, eventUpdates_valid h e, hmore⟩

/-- For every server, whatever it answers, and every order of calls, answers and
deliveries: every state the store is ever set to has an empty list and index 0, or an
index that points into its list. -/
theorem activeIndex_valid (serve : ε → QueueTask → ω → ω × QueueReply) (change : δ → ω → ω)
    (server : ω) (es : List (AsyncEvent QueueCall ε δ)) :
    ∀ s ∈ updates (against serve change) es (.start .initial server), IndexValid s :=
  updates_valid es _ ⟨indexValid_initial, fun _ h => absurd h List.not_mem_nil⟩

end

/-- The server of `StagingQueue` is one of them. -/
theorem stagingQueue_eq_against :
    stagingQueue = against stagingQueue.serve stagingQueue.change := rfl

/-- A page of three items is loaded and the index shifted past its end. -/
def loadThenShift : List QueueEvent :=
  [.call (.loadPage none 20), .serve 0 (.ok "t"), .deliver 0, .call (.shiftActive 7)]

theorem loadThenShift_valid : ∃ s ∈ updates (against stagingQueue.serve stagingQueue.change)
    loadThenShift (.start .initial ⟨manyPending 3, []⟩),
      s.items.length = 3 ∧ s.activeIndex = 2 ∧ IndexValid s := by
  have hlast : (updates (against stagingQueue.serve stagingQueue.change) loadThenShift
      (.start .initial ⟨manyPending 3, []⟩)).getLast?.map
        (fun s => (s.items.length, s.activeIndex)) = some (3, 2) := by decide +kernel
  obtain ⟨s, hs, hview⟩ := Option.map_eq_some_iff.mp hlast
  obtain ⟨hlength, hindex⟩ := Prod.mk.inj hview
  have hmem := List.mem_of_getLast? hs
  exact ⟨s, hmem, hlength, hindex, activeIndex_valid stagingQueue.serve stagingQueue.change
    ⟨manyPending 3, []⟩ loadThenShift s hmem⟩

end Nightfall.Web
