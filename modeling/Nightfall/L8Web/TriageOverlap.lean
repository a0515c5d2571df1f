import Nightfall.L8Web.StagingQueue

/-!
# Triage calls that overlap

A triage that fails puts back the whole list it found at its call, and one that
succeeds replaces the list by the page of its refresh. Either can undo what another
call did to the list in the meantime.

* `inOrder`: a failed call puts its list back only over failures of calls made after
  it, and a refresh arrives only without an item of a success that has settled.
* `Restores`: a list that could be shown at a point of the run: the decided items in
  it belong to calls that have not settled, and it lacks only items of open calls.
* `triage_settled`: over all runs in that order, once all calls have settled the list
  has no decided item, and every pending item that was shown and is in the last page.
* `decided_shown`: a call fails behind the success of another.
-/
namespace Nightfall.Web
open Nightfall.Core Storage

def shas (items : List StagingItem) : List String := items.map (·.sha256)

/-! ## Calls and their items -/

/-- The item a triage is about. -/
def QueueTask.item : QueueTask → Option String
  | .page _ _ => none
  | .post _ itemId _ _ => some itemId
  | .refresh itemId _ => some itemId

/-- The list a triage found at its call. -/
def QueueTask.found : QueueTask → List String
  | .page _ _ => []
  | .post _ _ _ kept => shas kept.snapshot.items
  | .refresh _ kept => shas kept.snapshot.items

def QueueTask.isPost : QueueTask → Bool
  | .post _ _ _ _ => true
  | _ => false

def QueueTask.isRefresh : QueueTask → Bool
  | .refresh _ _ => true
  | _ => false

abbrev OpenCall := AsyncCall QueueTask QueueReply

abbrev SettledCall := AsyncEnd QueueTask QueueReply

/-- The page of a refresh that has settled. -/
def pageOf (d : SettledCall) : Option (List String) :=
  match d.task, d.reply with
  | .refresh _ _, .page page => some (shas page.items)
  | _, _ => none

/-- The hash is on the page that was refreshed last, if there was one. -/
def OnPage (settled : List SettledCall) (sha : String) : Prop :=
  ∀ page, (settled.filterMap pageOf).getLast? = some page → sha ∈ page

/-- A call for this item has not settled. -/
def Open (ws : List OpenCall) (sha : String) : Prop := ∃ w ∈ ws, w.task.item = some sha

/-- One of them that was made before call `id`. -/
def OpenBefore (id : Nat) (ws : List OpenCall) (sha : String) : Prop :=
  ∃ w ∈ ws, w.id < id ∧ w.task.item = some sha

@[simp] theorem open_cons {w : OpenCall} {ws : List OpenCall} {sha : String} :
    Open (w :: ws) sha ↔ w.task.item = some sha ∨ Open ws sha := by
  simp [Open]

@[simp] theorem open_append {xs ys : List OpenCall} {sha : String} :
    Open (xs ++ ys) sha ↔ Open xs sha ∨ Open ys sha := by
  simp [Open, or_and_right, exists_or]

theorem open_nil {sha : String} : ¬ Open [] sha := by
  simp [Open]

@[simp] theorem openBefore_cons {id : Nat} {w : OpenCall} {ws : List OpenCall} {sha : String} :
    OpenBefore id (w :: ws) sha ↔ (w.id < id ∧ w.task.item = some sha) ∨ OpenBefore id ws sha := by
  simp [OpenBefore]

@[simp] theorem openBefore_append {id : Nat} {xs ys : List OpenCall} {sha : String} :
    OpenBefore id (xs ++ ys) sha ↔ OpenBefore id xs sha ∨ OpenBefore id ys sha := by
  simp [OpenBefore, or_and_right, exists_or]

theorem OpenBefore.mono {id id' : Nat} {ws : List OpenCall} {sha : String} (hle : id ≤ id')
    (h : OpenBefore id ws sha) : OpenBefore id' ws sha := by
  obtain ⟨w, hw, hlt, hitem⟩ := h
  exact ⟨w, hw, by omega, hitem⟩

theorem onPage_failed {settled : List SettledCall} {d : SettledCall} (hd : pageOf d = none)
    (sha : String) : OnPage (settled ++ [d]) sha ↔ OnPage settled sha := by
  simp [OnPage, List.filterMap_append, hd]

theorem onPage_refreshed {settled : List SettledCall} {d : SettledCall} {page : List String}
    (hd : pageOf d = some page) (sha : String) : OnPage (settled ++ [d]) sha ↔ sha ∈ page := by
  simp [OnPage, List.filterMap_append, hd]

/-! ## A list that may be shown -/

/-- A list with nothing decided but by open calls, that lacks nothing but the items
of open calls made before `id`. -/
structure Restores (shown decided : List String) (ws : List OpenCall) (settled : List SettledCall)
    (id : Nat) (list : List String) : Prop where
  undecided : ∀ sha ∈ list, sha ∈ decided → Open ws sha
  complete : ∀ sha ∈ shown, sha ∉ decided → OnPage settled sha → ¬ OpenBefore id ws sha → sha ∈ list

section
variable {shown decided list : List String} {ws xs ys : List OpenCall}
  {settled : List SettledCall} {id : Nat}

/-- A call is made; the list is one it does not touch. -/
theorem Restores.ask (h : Restores shown decided ws settled id list) (w : OpenCall) :
    Restores shown decided (ws ++ [w]) settled id list := by
  refine ⟨fun sha hsha hd => ?_, fun sha hsha hd hpage hopen => ?_⟩
  · simp [h.undecided sha hsha hd]
  · refine h.complete sha hsha hd hpage fun hb => hopen ?_
    simp [hb]

/-- A call is made and takes its item out of the list. -/
theorem Restores.remove (h : Restores shown decided ws settled id list) {w : OpenCall}
    {itemId : String} (hw : w.task.item = some itemId) (hid : w.id = id) :
    Restores shown decided (ws ++ [w]) settled (id + 1) (list.filter fun sha => sha ≠ itemId) := by
  refine ⟨fun sha hsha hd => ?_, fun sha hsha hd hpage hopen => ?_⟩
  · simp [h.undecided sha (List.mem_of_mem_filter hsha) hd]
  · have hne : sha ≠ itemId := by
      intro heq
      subst heq
      exact hopen (by simp [hw, hid])
    have hin := h.complete sha hsha hd hpage fun hb => hopen (by simp [hb.mono (Nat.le_succ id)])
    simp [hin, hne]

/-- The POST of an open call succeeds. -/
theorem Restores.decide (h : Restores shown decided ws settled id list) {itemId : String}
    (hopen : Open ws itemId) : Restores shown (itemId :: decided) ws settled id list := by
  refine ⟨fun sha hsha hd => ?_, fun sha hsha hd hpage hb => ?_⟩
  · rcases List.mem_cons.mp hd with rfl | hd
    · exact hopen
    · exact h.undecided sha hsha hd
  · exact h.complete sha hsha (fun hin => hd (List.mem_cons_of_mem _ hin)) hpage hb

/-- An open call goes on. -/
theorem Restores.replace {w w' : OpenCall}
    (h : Restores shown decided (xs ++ w :: ys) settled id list)
    (hitem : w'.task.item = w.task.item) (hid : w'.id = w.id) :
    Restores shown decided (xs ++ w' :: ys) settled id list := by
  refine ⟨fun sha hsha hd => ?_, fun sha hsha hd hpage hb => ?_⟩
  · have := h.undecided sha hsha hd
    simpa [hitem] using this
  · refine h.complete sha hsha hd hpage ?_
    simpa [hitem, hid] using hb

/-- A call fails: what was a list before it or at it is one for all calls behind. -/
theorem Restores.fail {w : OpenCall} {d : SettledCall} {id' : Nat}
    (h : Restores shown decided (xs ++ w :: ys) settled id list)
    (hw : ∀ sha, w.task.item = some sha → sha ∉ decided) (hd : pageOf d = none) (hle : id ≤ w.id)
    (hle' : id ≤ id') : Restores shown decided (xs ++ ys) (settled ++ [d]) id' list := by
  refine ⟨fun sha hsha hdec => ?_, fun sha hsha hdec hpage hb => ?_⟩
  · have hopen := h.undecided sha hsha hdec
    simp only [open_append, open_cons] at hopen ⊢
    rcases hopen with hx | hx | hy
    · exact .inl hx
    · exact absurd hdec (hw sha hx)
    · exact .inr hy
  · refine h.complete sha hsha hdec ((onPage_failed hd sha).mp hpage) fun hbefore => hb ?_
    simp only [openBefore_append, openBefore_cons] at hbefore ⊢
    rcases hbefore with hx | hx | hy
    · exact .inl (hx.mono hle')
    · omega
    · exact .inr (hy.mono hle')

end

/-! ## The list and the server -/

theorem shas_mergeItemsByIdentity (currentItems serverItems : List StagingItem) :
    shas (mergeItemsByIdentity currentItems serverItems) = shas serverItems := by
  simp only [shas, mergeItemsByIdentity, List.map_map]
  refine List.map_congr_left fun serverItem _ => ?_
  simp only [Function.comp_apply]
  split
  · rfl
  · cases hfind : currentItems.reverse.find? fun item => item.sha256 = serverItem.sha256 with
    | none => rfl
    | some item => simpa using List.find?_some hfind

theorem shas_withoutItem (itemId : String) (s : QueueState) :
    shas (withoutItem itemId s).items = (shas s.items).filter fun sha => sha ≠ itemId := by
  unfold withoutItem
  split
  · simp [shas, List.filter_map, Function.comp_def]
  · next habsent =>
    refine (List.filter_eq_self.mpr fun sha hsha => ?_).symm
    obtain ⟨item, hitem, rfl⟩ := List.mem_map.mp hsha
    simp only [List.any_eq_true, decide_eq_true_eq, not_exists, not_and] at habsent
    simpa using habsent item hitem

/-- A page holds pending items only. -/
theorem pending_of_page {r : Registry} {limit : Nat} {page : StagingPage} {sha : String}
    (h : stagingRoute r limit none = .ok page) (hsha : sha ∈ shas page.items) :
    r.statusOf sha = some .pending := by
  unfold stagingRoute at h
  split at h
  · obtain rfl := Except.ok.inj h
    rw [shas, page_items from_first] at hsha
    have hrow := List.mem_of_mem_take hsha
    rw [rowShas_eq, List.mem_flatMap] at hrow
    obtain ⟨f, hf, hin⟩ := hrow
    rw [List.eq_of_mem_replicate hin]
    exact mem_pendingFiles.mp (List.mem_map_of_mem hf)
  · cases h

/-- A POST that succeeds decides its item, and no other. -/
theorem triageRoute_ok {server server' : QueueServer} {a : TriageAction} {itemId key now : String}
    (ha : a ≠ .defer) (h : triageRoute server a itemId key now = .ok server') :
    server'.decided = itemId :: server.decided ∧
      server'.registry.statusOf itemId ≠ some .pending ∧
      ∀ sha, sha ≠ itemId → server'.registry.statusOf sha = server.registry.statusOf sha := by
  unfold triageRoute at h
  rw [if_neg ha] at h
  split at h
  case isTrue => cases h
  split at h
  case isTrue => cases h
  split at h
  · cases h
  · next r hr =>
    obtain rfl := Except.ok.inj h
    obtain ⟨old, -, hfiles⟩ := Registry.files_triageApply hr
    refine ⟨rfl, ?_, fun sha hne => ?_⟩
    · cases a with
      | defer => exact absurd rfl ha
      | accept | reject => simp [Registry.statusOf, hfiles, TriageAction.state]
    · simp [Registry.statusOf, hfiles, Table.get_put, hne]

/-! ## The runs -/

def QueueReply.isPage : QueueReply → Bool
  | .page _ => true
  | _ => false

/-- Triage calls that accept or reject items, each item once. The server answers every
refresh with a page, and a decided item does not become pending again. -/
def triageOnly (s : Queue) : QueueEvent → Bool
  | .call (.triageItem action itemId _) => (action == "accept" || action == "reject") &&
      s.waiting.all (fun w => w.task.item != some itemId) &&
      s.settled.all fun d => d.task.item != some itemId
  | .call _ => false
  | .serve i how =>
    match s.waiting[i]? with
    | some ⟨_, _, .refresh itemId kept, none⟩ =>
      (stagingQueue.serve how (.refresh itemId kept) s.server).2.isPage
    | _ => true
  | .deliver _ => true
  | .change r => s.server.decided.all fun sha => r.statusOf sha != some .pending

/-- The calls that settled since a failed call was made were made after it, and failed
too. A refresh holds no item of a call that has settled with success. -/
def inOrder (s : Queue) : QueueEvent → Bool
  | .deliver i =>
    match s.waiting[i]? with
    | some ⟨id, since, .post _ _ _ _, some (.failed _)⟩ =>
      (s.settled.drop since).all fun d => decide (id < d.id) && d.task.isPost
    | some ⟨_, _, .refresh _ _, some (.page page)⟩ =>
      s.settled.all fun d => !(d.task.isRefresh && (shas page.items).any (d.task.item == some ·))
    | _ => true
  | _ => true

/-! ## The invariant -/

/-- The list a call would put back, should it fail. -/
def Snap (shown decided : List String) (ws : List OpenCall) (settled : List SettledCall)
    (id since : Nat) (list : List String) : Prop :=
  (∀ d ∈ settled.drop since, id < d.id ∧ d.task.isPost = true) →
    Restores shown decided ws settled id list

/-- The open calls, by what they wait for. -/
inductive CallOk (shown decided : List String) (ws : List OpenCall) (settled : List SettledCall) :
    OpenCall → Prop
  | asked {id since : Nat} {a : TriageAction} {itemId key : String} {kept : Kept}
      (ha : a ≠ .defer) (hnot : itemId ∉ decided)
      (hsnap : Snap shown decided ws settled id since (shas kept.snapshot.items)) :
      CallOk shown decided ws settled ⟨id, since, .post a itemId key kept, none⟩
  | failed {id since : Nat} {a : TriageAction} {itemId key message : String} {kept : Kept}
      (hnot : itemId ∉ decided)
      (hsnap : Snap shown decided ws settled id since (shas kept.snapshot.items)) :
      CallOk shown decided ws settled ⟨id, since, .post a itemId key kept, some (.failed message)⟩
  | done {id since : Nat} {a : TriageAction} {itemId key : String} {kept : Kept}
      (hin : itemId ∈ decided) :
      CallOk shown decided ws settled ⟨id, since, .post a itemId key kept, some .done⟩
  | refreshing {id since : Nat} {itemId : String} {kept : Kept} (hin : itemId ∈ decided) :
      CallOk shown decided ws settled ⟨id, since, .refresh itemId kept, none⟩
  | refreshed {id since : Nat} {itemId : String} {kept : Kept} {page : StagingPage}
      (hin : itemId ∈ decided) (hnot : itemId ∉ shas page.items) :
      CallOk shown decided ws settled ⟨id, since, .refresh itemId kept, some (.page page)⟩

/-- What holds in every state of a run. -/
structure TriageInv (shown : List String) (s : Queue) : Prop where
  numbered : Numbered s
  distinct : (s.waiting.map (·.task.item)).Nodup
  gone : ∀ sha ∈ s.server.decided, s.server.registry.statusOf sha ≠ some .pending
  known : ∀ sha ∈ s.server.decided, Open s.waiting sha ∨
    ∃ d ∈ s.settled, d.task.isRefresh = true ∧ d.task.item = some sha
  calls : ∀ w ∈ s.waiting, CallOk shown s.server.decided s.waiting s.settled w
  list : Restores shown s.server.decided s.waiting s.settled s.made (shas s.store.items)

section
variable {shown decided decided' list : List String} {ws ws' xs ys : List OpenCall}
  {settled settled' : List SettledCall} {id since : Nat} {w : OpenCall}

theorem CallOk.frame (h : CallOk shown decided ws settled w)
    (hsub : ∀ sha ∈ decided, sha ∈ decided')
    (hnew : ∀ sha, w.task.item = some sha → sha ∈ decided' → sha ∈ decided)
    (hsnap : ∀ list, Snap shown decided ws settled w.id w.since list →
      Snap shown decided' ws' settled' w.id w.since list) :
    CallOk shown decided' ws' settled' w := by
  cases h with
  | asked ha hnot hs => exact .asked ha (fun hin => hnot (hnew _ rfl hin)) (hsnap _ hs)
  | failed hnot hs => exact .failed (fun hin => hnot (hnew _ rfl hin)) (hsnap _ hs)
  | done hin => exact .done (hsub _ hin)
  | refreshing hin => exact .refreshing (hsub _ hin)
  | refreshed hin hnot => exact .refreshed (hsub _ hin) hnot

theorem drop_settled {d : SettledCall} (hlen : since ≤ settled.length) :
    (settled ++ [d]).drop since = settled.drop since ++ [d] :=
  List.drop_append_of_le_length hlen

/-- A call that fails leaves the lists of the calls made before it as they are. -/
theorem Snap.fail {d : SettledCall} (h : Snap shown decided (xs ++ w :: ys) settled id since list)
    (hlen : since ≤ settled.length) (hw : ∀ sha, w.task.item = some sha → sha ∉ decided)
    (hd : pageOf d = none) (hid : d.id = w.id) :
    Snap shown decided (xs ++ ys) (settled ++ [d]) id since list := by
  intro hall
  rw [drop_settled hlen] at hall
  have hlt : id < d.id := (hall d (by simp)).1
  have hbefore := h fun d' hd' => hall d' (by simp [hd'])
  exact hbefore.fail hw hd (by omega) le_rfl

/-- Over a refresh no list is put back. -/
theorem snap_refreshed {d : SettledCall} (hlen : since ≤ settled.length)
    (hd : d.task.isPost = false) : Snap shown decided ws (settled ++ [d]) id since list := by
  intro hall
  rw [drop_settled hlen] at hall
  have := (hall d (by simp)).2
  simp [hd] at this

end

/-! ## What an event keeps -/

section
variable {shown : List String} {store store' : QueueState} {server server' : QueueServer}
  {ws xs ys : List OpenCall} {settled : List SettledCall} {made id since : Nat}

/-- The calls of such a run. -/
theorem triageOnly_call {s : Queue} {a : QueueCall} (h : triageOnly s (.call a) = true) :
    ∃ action itemId key tr, a = .triageItem action itemId key ∧ triageActionOf action = some tr ∧
      tr ≠ .defer ∧ (∀ w ∈ s.waiting, w.task.item ≠ some itemId) ∧
      ∀ d ∈ s.settled, d.task.item ≠ some itemId := by
  cases a with
  | triageItem action itemId key =>
    simp only [triageOnly, Bool.and_eq_true, Bool.or_eq_true, beq_iff_eq, List.all_eq_true,
      bne_iff_ne] at h
    obtain ⟨⟨haction, hwaiting⟩, hsettled⟩ := h
    rcases haction with rfl | rfl
    · exact ⟨_, itemId, key, .accept, rfl, rfl, by simp, hwaiting, hsettled⟩
    · exact ⟨_, itemId, key, .reject, rfl, rfl, by simp, hwaiting, hsettled⟩
  | loadPage | clearQueue | hydrate | setActiveIndex | shiftActive => cases h

theorem triageInv_ask {itemId key : String} {tr : TriageAction} {kept : Kept}
    (h : TriageInv shown ⟨store, server, ws, settled, made⟩) (hdefer : tr ≠ .defer)
    (hwaiting : ∀ w ∈ ws, w.task.item ≠ some itemId)
    (hsettled : ∀ d ∈ settled, d.task.item ≠ some itemId) (hkept : kept.snapshot = store)
    (hn : Numbered (⟨withoutItem itemId store, server,
      ws ++ [⟨made, settled.length, .post tr itemId key kept, none⟩], settled, made + 1⟩ : Queue)) :
    TriageInv shown ⟨withoutItem itemId store, server,
      ws ++ [⟨made, settled.length, .post tr itemId key kept, none⟩], settled, made + 1⟩ := by
  obtain ⟨-, hdistinct, hgone, hknown, hcalls, hlist⟩ := h
  simp only at hdistinct hgone hknown hcalls hlist
  have hnot : itemId ∉ server.decided := by
    intro hin
    rcases hknown itemId hin with ⟨w, hw, hitem⟩ | ⟨d, hd, -, hitem⟩
    · exact hwaiting w hw hitem
    · exact hsettled d hd hitem
  refine ⟨hn, ?_, hgone, ?_, ?_, ?_⟩
  · simp only [List.map_append, List.map_singleton, QueueTask.item]
    refine List.nodup_append.mpr ⟨hdistinct, by simp, ?_⟩
    intro item hitem item' hitem'
    obtain ⟨w, hw, rfl⟩ := List.mem_map.mp hitem
    rw [List.mem_singleton.mp hitem']
    exact hwaiting w hw
  · intro sha hsha
    rcases hknown sha hsha with ho | hd
    · exact .inl (by simp [ho])
    · exact .inr hd
  · refine List.forall_mem_append.mpr ⟨fun w hw => ?_, List.forall_mem_singleton.mpr ?_⟩
    · exact (hcalls w hw).frame (fun _ h => h) (fun _ _ h => h) fun list hs hd => (hs hd).ask _
    · refine .asked hdefer hnot fun _ => ?_
      rw [hkept]
      exact hlist.ask _
  · simp only [shas_withoutItem]
    exact hlist.remove rfl rfl

/-- The other open calls are about other items. -/
theorem item_ne {w w' : OpenCall} (h : ((xs ++ w :: ys).map (·.task.item)).Nodup)
    (hw' : w' ∈ xs ∨ w' ∈ ys) : w'.task.item ≠ w.task.item := by
  simp only [List.map_append, List.map_cons, List.nodup_append, List.nodup_cons, List.mem_map,
    List.mem_cons] at h
  obtain ⟨-, ⟨hys, -⟩, hcross⟩ := h
  rcases hw' with hx | hy
  · exact hcross _ ⟨w', hx, rfl⟩ _ (.inl rfl)
  · exact fun heq => hys ⟨w', hy, heq⟩

/-- A call goes on waiting for the same item, and nothing else changes. -/
theorem triageInv_replace {w w' : OpenCall}
    (h : TriageInv shown ⟨store, server, xs ++ w :: ys, settled, made⟩)
    (hitem : w'.task.item = w.task.item) (hid : w'.id = w.id)
    (hok : CallOk shown server.decided (xs ++ w' :: ys) settled w')
    (hn : Numbered (⟨store, server, xs ++ w' :: ys, settled, made⟩ : Queue)) :
    TriageInv shown ⟨store, server, xs ++ w' :: ys, settled, made⟩ := by
  obtain ⟨-, hdistinct, hgone, hknown, hcalls, hlist⟩ := h
  have hframe : ∀ v, CallOk shown server.decided (xs ++ w :: ys) settled v →
      CallOk shown server.decided (xs ++ w' :: ys) settled v := fun v hv =>
    hv.frame (fun _ h => h) (fun _ _ h => h) fun list hs hd => (hs hd).replace hitem hid
  refine ⟨hn, ?_, hgone, ?_, ?_, hlist.replace hitem hid⟩
  · simpa [hitem] using hdistinct
  · simpa [hitem] using hknown
  · simp only [List.forall_mem_append, List.forall_mem_cons] at hcalls ⊢
    exact ⟨fun v hv => hframe v (hcalls.1 v hv), hok, fun v hv => hframe v (hcalls.2.2 v hv)⟩

/-- The POST of a call succeeds. -/
theorem triageInv_decide {tr : TriageAction} {itemId key now : String} {kept : Kept}
    (h : TriageInv shown
      ⟨store, server, xs ++ ⟨id, since, .post tr itemId key kept, none⟩ :: ys, settled, made⟩)
    (hdefer : tr ≠ .defer) (hserve : triageRoute server tr itemId key now = .ok server')
    (hn : Numbered (⟨store, server',
      xs ++ ⟨id, since, .post tr itemId key kept, some .done⟩ :: ys, settled, made⟩ : Queue)) :
    TriageInv shown ⟨store, server',
      xs ++ ⟨id, since, .post tr itemId key kept, some .done⟩ :: ys, settled, made⟩ := by
  obtain ⟨-, hdistinct, hgone, hknown, hcalls, hlist⟩ := h
  obtain ⟨hdecided, hstatus, hothers⟩ := triageRoute_ok hdefer hserve
  simp only at hgone hknown hcalls hlist
  have hopen : Open (xs ++ ⟨id, since, .post tr itemId key kept, none⟩ :: ys) itemId := by
    simp [QueueTask.item]
  -- the other calls are about other items, so the new decision is none of theirs
  have hframe : ∀ v, v.task.item ≠ some itemId →
      CallOk shown server.decided
        (xs ++ ⟨id, since, .post tr itemId key kept, none⟩ :: ys) settled v →
      CallOk shown server'.decided
        (xs ++ ⟨id, since, .post tr itemId key kept, some .done⟩ :: ys) settled v := by
    intro v hne hv
    rw [hdecided]
    refine hv.frame (fun sha hsha => List.mem_cons_of_mem _ hsha) ?_ fun list hs hd => ?_
    · intro sha hitem hsha
      rcases List.mem_cons.mp hsha with rfl | hsha
      · exact absurd hitem hne
      · exact hsha
    · exact ((hs hd).decide hopen).replace rfl rfl
  refine ⟨hn, by simpa [QueueTask.item] using hdistinct, ?_, ?_, ?_, ?_⟩
  · intro sha hsha
    by_cases heq : sha = itemId
    · rw [heq]
      exact hstatus
    · rw [hothers sha heq]
      simp only [hdecided, List.mem_cons, heq, false_or] at hsha
      exact hgone sha hsha
  · intro sha hsha
    simp only [hdecided, List.mem_cons] at hsha
    rcases hsha with rfl | hsha
    · exact .inl (by simp [QueueTask.item])
    · simpa [QueueTask.item] using hknown sha hsha
  · simp only [List.forall_mem_append, List.forall_mem_cons] at hcalls ⊢
    refine ⟨fun v hv => hframe v ?_ (hcalls.1 v hv), .done (by simp [hdecided]),
      fun v hv => hframe v ?_ (hcalls.2.2 v hv)⟩
    · exact item_ne hdistinct (.inl hv)
    · exact item_ne hdistinct (.inr hv)
  · simp only [hdecided]
    exact (hlist.decide hopen).replace rfl rfl

/-- The failed POST of a call arrives, and its list is put back. -/
theorem triageInv_fail {w : OpenCall} {d : SettledCall}
    (h : TriageInv shown ⟨store, server, xs ++ w :: ys, settled, made⟩)
    (hitem : ∀ sha, w.task.item = some sha → sha ∉ server.decided)
    (hrestored : Restores shown server.decided (xs ++ w :: ys) settled w.id (shas store'.items))
    (hd : pageOf d = none) (hid : d.id = w.id)
    (hn : Numbered (⟨store', server, xs ++ ys, settled ++ [d], made⟩ : Queue)) :
    TriageInv shown ⟨store', server, xs ++ ys, settled ++ [d], made⟩ := by
  obtain ⟨hnumbered, hdistinct, hgone, hknown, hcalls, hlist⟩ := h
  simp only at hgone hknown hcalls
  have hframe : ∀ v ∈ xs ++ w :: ys, CallOk shown server.decided (xs ++ w :: ys) settled v →
      CallOk shown server.decided (xs ++ ys) (settled ++ [d]) v := fun v hv hok =>
    hok.frame (fun _ h => h) (fun _ _ h => h) fun list hs =>
      hs.fail (hnumbered v hv).2 hitem hd hid
  refine ⟨hn, ?_, hgone, ?_, ?_, ?_⟩
  · exact hdistinct.sublist (((List.sublist_cons_self w ys).append_left xs).map _)
  · intro sha hsha
    rcases hknown sha hsha with ho | ⟨d', hd', href, hsome⟩
    · simp only [open_append, open_cons] at ho ⊢
      rcases ho with hx | hw | hy
      · exact .inl (.inl hx)
      · exact absurd hsha (hitem sha hw)
      · exact .inl (.inr hy)
    · exact .inr ⟨d', by simp [hd'], href, hsome⟩
  · intro v hv
    have hv' : v ∈ xs ++ w :: ys := by
      rcases List.mem_append.mp hv with hx | hy
      · simp [hx]
      · simp [hy]
    exact hframe v hv' (hcalls v hv')
  · exact hrestored.fail hitem hd le_rfl (hnumbered w (by simp)).1.le

/-- A refresh arrives. -/
theorem triageInv_refresh {itemId : String} {kept : Kept} {page : StagingPage}
    (h : TriageInv shown ⟨store, server,
      xs ++ ⟨id, since, .refresh itemId kept, some (.page page)⟩ :: ys, settled, made⟩)
    (hnot : itemId ∉ shas page.items)
    (hpage : ∀ d ∈ settled, ∀ sha, d.task.isRefresh = true → d.task.item = some sha →
      sha ∉ shas page.items)
    (hn : Numbered (⟨refreshResumed kept store (.page page), server, xs ++ ys,
      settled ++ [⟨id, .refresh itemId kept, .page page⟩], made⟩ : Queue)) :
    TriageInv shown ⟨refreshResumed kept store (.page page), server, xs ++ ys,
      settled ++ [⟨id, .refresh itemId kept, .page page⟩], made⟩ := by
  obtain ⟨hnumbered, hdistinct, hgone, hknown, hcalls, hlist⟩ := h
  simp only at hgone hknown hcalls
  refine ⟨hn, ?_, hgone, ?_, ?_, ?_, ?_⟩
  · exact hdistinct.sublist (((List.sublist_cons_self _ ys).append_left xs).map _)
  · intro sha hsha
    rcases hknown sha hsha with ho | ⟨d, hd, href, hitem⟩
    · simp only [open_append, open_cons] at ho ⊢
      rcases ho with hx | hw | hy
      · exact .inl (.inl hx)
      · exact .inr ⟨_, List.mem_append_right _ (List.mem_singleton_self _), rfl, hw⟩
      · exact .inl (.inr hy)
    · exact .inr ⟨d, by simp [hd], href, hitem⟩
  · intro v hv
    have hv' : v ∈ xs ++ ⟨id, since, .refresh itemId kept, some (.page page)⟩ :: ys := by
      rcases List.mem_append.mp hv with hx | hy
      · simp [hx]
      · simp [hy]
    exact (hcalls v hv').frame (fun _ h => h) (fun _ _ h => h) fun list _ =>
      snap_refreshed (hnumbered v hv').2 rfl
  · -- a decided item on the page is still open, for no call that settled had it there
    intro sha hsha hdecided
    simp only [refreshResumed, shas_mergeItemsByIdentity] at hsha
    rcases hknown sha hdecided with ho | ⟨d, hd, href, hitem⟩
    · simp only [open_append, open_cons] at ho ⊢
      rcases ho with hx | hw | hy
      · exact .inl hx
      · obtain rfl := Option.some.inj hw
        exact absurd hsha hnot
      · exact .inr hy
    · exact absurd hsha (hpage d hd sha href hitem)
  · intro sha _ _ hon _
    simp only [refreshResumed, shas_mergeItemsByIdentity]
    exact (onPage_refreshed rfl sha).mp hon

theorem triageInv_serve {task : QueueTask} {how : Except String String} {reply : QueueReply}
    (h : TriageInv shown ⟨store, server, xs ++ ⟨id, since, task, none⟩ :: ys, settled, made⟩)
    (hok : triageOnly (⟨store, server, xs ++ ⟨id, since, task, none⟩ :: ys, settled, made⟩ : Queue)
      (.serve xs.length how) = true)
    (hserve : stagingQueue.serve how task server = (server', reply))
    (hn : Numbered (⟨store, server', xs ++ ⟨id, since, task, some reply⟩ :: ys, settled, made⟩ :
      Queue)) :
    TriageInv shown ⟨store, server', xs ++ ⟨id, since, task, some reply⟩ :: ys, settled, made⟩ := by
  have hcall := h.calls ⟨id, since, task, none⟩ (by simp)
  cases hcall with
  | @asked _ _ tr itemId key kept hdefer hnot hsnap =>
    have hfailed : ∀ message, CallOk shown server.decided
        (xs ++ ⟨id, since, .post tr itemId key kept, some (.failed message)⟩ :: ys) settled
        ⟨id, since, .post tr itemId key kept, some (.failed message)⟩ := fun message =>
      .failed hnot fun hd => (hsnap hd).replace rfl rfl
    cases how with
    | error message =>
      obtain ⟨rfl, rfl⟩ := Prod.mk.inj hserve
      exact triageInv_replace h rfl rfl (hfailed message) hn
    | ok now =>
      simp only [stagingQueue] at hserve
      split at hserve
      · next hroute =>
        obtain ⟨rfl, rfl⟩ := Prod.mk.inj hserve
        exact triageInv_decide h hdefer hroute hn
      · next message _ =>
        obtain ⟨rfl, rfl⟩ := Prod.mk.inj hserve
        exact triageInv_replace h rfl rfl (hfailed message) hn
  | @refreshing _ _ itemId kept hin =>
    simp only [triageOnly, App.at_place, hserve] at hok
    cases reply with
    | done | failed => cases hok
    | page page =>
      cases how with
      | error message => cases hserve
      | ok now =>
        obtain ⟨rfl, hreply⟩ := Prod.mk.inj hserve
        cases hroute : stagingRoute server.registry kept.refreshLimit none with
        | error message => rw [hroute] at hreply; cases hreply
        | ok page' =>
          rw [hroute] at hreply
          obtain rfl := QueueReply.page.inj hreply
          have hnot : itemId ∉ shas page'.items := fun hsha =>
            h.gone itemId hin (pending_of_page hroute hsha)
          exact triageInv_replace h rfl rfl (.refreshed hin hnot) hn

theorem triageInv_settle {task : QueueTask} {reply : QueueReply}
    (h : TriageInv shown ⟨store, server, xs ++ ⟨id, since, task, some reply⟩ :: ys, settled, made⟩)
    (hok : inOrder (⟨store, server, xs ++ ⟨id, since, task, some reply⟩ :: ys, settled, made⟩ :
      Queue) (.deliver xs.length) = true)
    (hresume : stagingQueue.resume task reply store = (store', none))
    (hn : Numbered (⟨store', server, xs ++ ys, settled ++ [⟨id, task, reply⟩], made⟩ : Queue)) :
    TriageInv shown ⟨store', server, xs ++ ys, settled ++ [⟨id, task, reply⟩], made⟩ := by
  have hcall := h.calls ⟨id, since, task, some reply⟩ (by simp)
  cases hcall with
  | @failed _ _ tr itemId key message kept hnot hsnap =>
    obtain ⟨rfl, -⟩ := Prod.mk.inj hresume
    simp only [inOrder, App.at_place, List.all_eq_true, Bool.and_eq_true, decide_eq_true_eq] at hok
    refine triageInv_fail h ?_ (hsnap hok) rfl rfl hn
    intro sha hitem
    obtain rfl := Option.some.inj hitem
    exact hnot
  | done => cases hresume
  | @refreshed _ _ itemId kept page hin hnot =>
    obtain ⟨rfl, -⟩ := Prod.mk.inj hresume
    simp only [inOrder, App.at_place, List.all_eq_true, Bool.not_eq_true', Bool.and_eq_false_iff]
      at hok
    refine triageInv_refresh h hnot (fun d hd sha href hitem hsha => ?_) hn
    rcases hok d hd with hfalse | hnone
    · simp [href] at hfalse
    · simp only [hitem, List.any_eq_false, beq_iff_eq, Option.some.injEq] at hnone
      exact hnone sha hsha rfl

theorem triageInv_step {s s' : Queue} {e : QueueEvent}
    (hok : triageOnly s e = true ∧ inOrder s e = true) (h : TriageInv shown s)
    (hstep : stagingQueue.Step s e s') : TriageInv shown s' := by
  have hn := numbered_step h.numbered hstep
  obtain ⟨honly, horder⟩ := hok
  cases hstep with
  | end_ hcall =>
    obtain ⟨action, itemId, key, tr, rfl, htr, -⟩ := triageOnly_call honly
    simp [stagingQueue, triageItem, htr] at hcall
  | ask hcall =>
    obtain ⟨action, itemId, key, tr, rfl, htr, hdefer, hwaiting, hsettled⟩ := triageOnly_call honly
    simp only [stagingQueue, triageItem, htr] at hcall
    obtain ⟨rfl, htask⟩ := Prod.mk.inj hcall
    obtain rfl := Option.some.inj htask
    exact triageInv_ask h hdefer hwaiting hsettled rfl hn
  | serve hserve => exact triageInv_serve h honly hserve hn
  | again hresume =>
    obtain ⟨a, itemId, key, kept, rfl, rfl, rfl, rfl⟩ := resume_again hresume
    have hcall := h.calls _ (List.mem_append_right _ List.mem_cons_self)
    cases hcall with
    | done hin => exact triageInv_replace h rfl rfl (.refreshing hin) hn
  | settle hresume => exact triageInv_settle h horder hresume hn
  | change =>
    obtain ⟨-, hdistinct, -, hknown, hcalls, hlist⟩ := h
    refine ⟨hn, hdistinct, fun sha hsha => ?_, hknown, hcalls, hlist⟩
    simp only [triageOnly, List.all_eq_true, bne_iff_ne] at honly
    exact honly sha hsha

end

theorem triageInv_start (shown : QueueState) (r : Registry) :
    TriageInv (shas shown.items) (.start shown ⟨r, []⟩) := by
  refine ⟨numbered_start _ _, List.nodup_nil, fun sha h => ?_, fun sha h => ?_, fun w h => ?_, ?_⟩
  · exact absurd h List.not_mem_nil
  · exact absurd h List.not_mem_nil
  · exact absurd h List.not_mem_nil
  · exact ⟨fun sha _ h => absurd h List.not_mem_nil, fun sha hsha _ _ _ => hsha⟩

/-- For every run of overlapping accepts and rejects of distinct items, from any list
and registry, in order: once all calls have settled, the list holds no item whose POST
succeeded, and it holds every pending item that was shown before and is on the page
refreshed last. -/
theorem triage_settled (shown : QueueState) (r : Registry) (es : List QueueEvent) (s : Queue)
    (h : stagingQueue.Runs (fun s e => triageOnly s e = true ∧ inOrder s e = true)
      (.start shown ⟨r, []⟩) es s) (hsettled : s.waiting = []) :
    (∀ sha ∈ s.server.decided, sha ∉ shas s.store.items) ∧
      ∀ sha ∈ shas shown.items, s.server.registry.statusOf sha = some .pending →
        OnPage s.settled sha → sha ∈ shas s.store.items := by
  have hinv := h.inv triageInv_step (triageInv_start shown r)
  obtain ⟨-, -, hgone, -, -, hlist⟩ := hinv
  rw [hsettled] at hlist
  refine ⟨fun sha hsha hin => open_nil (hlist.undecided sha hin hsha), ?_⟩
  intro sha hsha hpending hpage
  refine hlist.complete sha hsha (fun hdecided => hgone sha hdecided hpending) hpage ?_
  intro hbefore
  obtain ⟨w, hw, -⟩ := hbefore
  exact absurd hw List.not_mem_nil

/-- The store shows the first page of these files. -/
def showing (r : Registry) : QueueState :=
  { QueueState.initial with items := (getStagingItems r 100 none).items }

/-- Two calls overlap; the first fails before the second succeeds. -/
def failsFirst : List QueueEvent :=
  [.call (.triageItem "accept" "1000" "key-0001"), .call (.triageItem "reject" "1001" "key-0002"),
    .serve 0 (.error "network unavailable"), .deliver 0,
    .serve 0 (.ok "t"), .deliver 0, .serve 0 (.ok "t"), .deliver 0]

theorem failsFirst_settled : ∃ s,
    stagingQueue.exec failsFirst (.start (showing (manyPending 3)) ⟨manyPending 3, []⟩) = some s ∧
      s.server.decided = ["1001"] ∧ shas s.store.items = ["1000", "1002"] ∧
      (∀ sha ∈ s.server.decided, sha ∉ shas s.store.items) ∧
      ∀ sha ∈ shas (showing (manyPending 3)).items,
        s.server.registry.statusOf sha = some .pending →
          OnPage s.settled sha → sha ∈ shas s.store.items := by
  have hrun : (stagingQueue.check (fun s e => triageOnly s e = true ∧ inOrder s e = true) failsFirst
      (.start (showing (manyPending 3)) ⟨manyPending 3, []⟩)).map
        (fun s => (s.waiting.length, s.server.decided, shas s.store.items)) =
      some (0, ["1001"], ["1000", "1002"]) := by decide +kernel
  obtain ⟨s, hs, hview⟩ := Option.map_eq_some_iff.mp hrun
  simp only [Prod.mk.injEq] at hview
  obtain ⟨hwaiting, hdecided, hitems⟩ := hview
  have hruns := App.runs_of_check hs
  exact ⟨s, hruns.exec, hdecided, hitems,
    triage_settled (showing (manyPending 3)) (manyPending 3) failsFirst s hruns
      (List.eq_nil_of_length_eq_zero hwaiting)⟩

/-- The second call succeeds and settles before the first one fails. -/
def failsLast : List QueueEvent :=
  [.call (.triageItem "accept" "1000" "key-0001"), .call (.triageItem "reject" "1001" "key-0002"),
    .serve 1 (.ok "t"), .deliver 1, .serve 1 (.ok "t"), .deliver 1,
    .serve 0 (.error "network unavailable"), .deliver 0]

theorem decided_shown : ∃ s,
    stagingQueue.Runs (fun s e => triageOnly s e = true)
        (.start (showing (manyPending 3)) ⟨manyPending 3, []⟩) failsLast s ∧
      s.waiting = [] ∧ "1001" ∈ s.server.decided ∧ "1001" ∈ shas s.store.items := by
  have hrun : (stagingQueue.check (fun s e => triageOnly s e = true) failsLast
      (.start (showing (manyPending 3)) ⟨manyPending 3, []⟩)).map
        (fun s => (s.waiting.length, s.server.decided, shas s.store.items)) =
      some (0, ["1001"], ["1000", "1001", "1002"]) := by decide +kernel
  obtain ⟨s, hs, hview⟩ := Option.map_eq_some_iff.mp hrun
  simp only [Prod.mk.injEq] at hview
  obtain ⟨hwaiting, hdecided, hitems⟩ := hview
  exact ⟨s, App.runs_of_check hs, List.eq_nil_of_length_eq_zero hwaiting, by simp [hdecided],
    by simp [hitems]⟩

end Nightfall.Web
