import Nightfall.L7OneDrive.PageLimit
import Nightfall.L7OneDrive.Retries

/-!
# The ghost breaker (`adapters/onedrive/client.py`)

Ghosts are counted while the candidates of a page are downloaded, and the counts
of the pages are added up. The breaker looks at the sum once the traversal is
over, when the cursor has been stored: it does not hold the cursor of the run,
it keeps the next polls from starting.

* `tallied_deltaPages`: the counts of the traversal are the ghosts recorded.
* `ghost_breaker_cools`: a page with too many ghosts arms the cooldown, which the
  retries of the same run may replace by theirs, and no poll before its end asks
  for a page or stores a cursor.
* `cursor_passes_ghosts`: the run itself stores the link of such a page.
-/
namespace Nightfall.OneDrive
open Nightfall.Core Storage Prog

/-! ## Pages in a trace -/

def ClientOp.isGhost : ClientOp → Bool
  | .countGhost _ _ => true
  | _ => false

def ClientOp.readsClock : ClientOp → Bool
  | .monotonic => true
  | _ => false

/-- The ghosts recorded by these operations. -/
def ghostCount (es : ClientTrace) : Nat := (es.filter fun e => e.op.isGhost).length

/-- The operations of a turn: those up to the next reading of the clock. -/
def turnOf (after : ClientTrace) : ClientTrace := after.takeWhile fun e => !e.op.readsClock

/-- A request for `url` was answered with the page. -/
def FetchedIn (out : Outside) (es : ClientTrace) (url : String) (p : Payload) : Prop :=
  ∃ e ∈ es, ∃ token r, e.op = .get url (some token) ∧
    out.get e.pre.tick url (some token) = .response r ∧ r.status < 400 ∧ r.json = some (.obj p)

/-- Page `p` was fetched in the turn that `after` starts with. -/
structure PageTurn (out : Outside) (es after : ClientTrace) (p : Payload) : Prop where
  opened : ∃ before e, es = before ++ e :: after ∧ e.op = .monotonic
  fetched : ∃ url, (after.head?.bind fun e => e.op.asked) = some url ∧
    FetchedIn out (turnOf after) url p

/-- A link of the page, or of a page fetched after it. -/
def Beyond (py : PyValues) (out : Outside) (after : ClientTrace) (p : Payload) (link : String) :
    Prop :=
  ∃ q, (q = p ∨ ∃ later, PageTurn out after later q) ∧
    (nextLink py q = some link ∨ deltaLink py q = some link)

/-- After a page with more ghosts than the threshold allows, no link beyond it is
stored. -/
def HoldsCursor (py : PyValues) (out : Outside) (a : PollArgs) (es : ClientTrace) : Prop :=
  ∀ after p, PageTurn out es after p → a.deltaBreakerGhostThreshold < ghostCount (turnOf after) →
    ∀ e ∈ after, ∀ link, e.op = .file (.saveCursor link) → ¬ Beyond py out after p link

/-! ## Counting ghosts -/

theorem sum_kerase (reason : String) : ∀ rows : List (Sigma fun _ : String => Nat),
    ((rows.kerase reason).map fun row => row.2).sum + (rows.dlookup reason).getD 0 =
      (rows.map fun row => row.2).sum
  | [] => rfl
  | ⟨k, v⟩ :: rows => by
    by_cases h : reason = k
    · subst h
      simp [Nat.add_comm]
    · have ih := sum_kerase reason rows
      rw [List.kerase_cons_ne h, List.dlookup_cons_ne rows ⟨k, v⟩ h, List.map_cons, List.map_cons,
        List.sum_cons, List.sum_cons]
      omega

theorem total_recordGhostReason (counts : Counts) (reason : String) (n : Nat) :
    total (recordGhostReason counts reason n) = total counts + n := by
  have hsum := sum_kerase reason counts.entries
  simp only [total, recordGhostReason, Table.put, AList.entries_insert, List.map_cons,
    List.sum_cons, Table.get, AList.lookup]
  omega

theorem total_foldl (rows : List (Sigma fun _ : String => Nat)) : ∀ counts : Counts,
    total (rows.foldl (fun counts row => recordGhostReason counts row.1 row.2) counts) =
      total counts + (rows.map fun row => row.2).sum := by
  induction rows with
  | nil => intro counts; rfl
  | cons row rows ih =>
    intro counts
    rw [List.foldl_cons, ih, total_recordGhostReason, List.map_cons, List.sum_cons, Nat.add_assoc]

/-- From `w` to `w'` as many ghosts were recorded as the sum grew. -/
def Tallied (w : ClientState) (before after : Nat) (w' : ClientState) : Prop :=
  w'.ghosts.length + before = w.ghosts.length + after

/-- Operations that record no ghost. -/
def ClientOp.NoGhost (o : ClientOp) : Prop := o.isGhost = false

theorem ghosts_of_noGhost (out : Outside) (o : ClientOp) (w : ClientState) (h : o.NoGhost) :
    (clientHandle out o w).2.ghosts = w.ghosts := by
  cases o with
  | countGhost _ _ => cases h
  | get url bearer => cases bearer <;> rfl
  | pageHandoff _ rows => simp only [clientHandle, effect]; split <;> rfl
  | file f =>
    simp only [clientHandle, effect]
    split
    · rfl
    · cases f with
      | replace src dst => simp only [FileOp.apply]; split <;> rfl
      | _ => rfl
  | _ => rfl

theorem ghosts_of_calls {out : Outside} {α : Type} {p : ClientFlow α} {w : ClientState}
    (h : p.Calls ClientOp.NoGhost) :
    p.Wp (clientHandle out) w fun _ w' => w'.ghosts = w.ghosts :=
  h.wp (R := fun (w w' : ClientState) => w'.ghosts = w.ghosts) (fun _ => rfl)
    (fun _ _ _ h h' => h'.trans h) (ghosts_of_noGhost out) fun _ _ h => h

theorem ClientOp.Asks.noGhost {url : String} {o : ClientOp} (h : o.Asks url) : o.NoGhost := by
  cases o <;> first | rfl | exact h.elim

theorem ClientOp.Transfers.noGhost {o : ClientOp} (h : o.Transfers) : o.NoGhost := by
  cases o <;> first | rfl | exact h.elim

theorem ClientOp.Aside.noGhost {o : ClientOp} (h : o.Aside) : o.NoGhost := by
  cases o <;> first | rfl | exact h.elim

section Tallied
variable {out : Outside} {lib : ClientLib} {a : PollArgs} {w : ClientState}

/-- A flow that records no ghost keeps the tally. -/
theorem tallied_quiet {α : Type} {p : ClientFlow α} (n : Nat) (h : p.Calls ClientOp.NoGhost) :
    p.Wp (clientHandle out) w (onOk fun _ w' => Tallied w n n w') := by
  refine wp_mono (fun r w' hw' => ?_) (ghosts_of_calls h)
  cases r with
  | error e => trivial
  | ok x => show w'.ghosts.length + n = _; rw [hw']

/-- A bound flow, from its parts. -/
theorem tallied_bind {α β : Type} {p : ClientFlow α} {f : α → ClientFlow β} {n : Nat} {m : α → Nat}
    {k : β → Nat} (hp : p.Wp (clientHandle out) w (onOk fun x w' => Tallied w n (m x) w'))
    (hf : ∀ x w', (f x).Wp (clientHandle out) w' (onOk fun y w'' => Tallied w' (m x) (k y) w'')) :
    (p >>= f).Wp (clientHandle out) w (onOk fun y w' => Tallied w n (k y) w') := by
  refine wp_bind_onOk hp fun x w' hx => wp_mono (fun r w'' hr => ?_) (hf x w')
  cases r with
  | error e => trivial
  | ok y =>
    have h1 : w'.ghosts.length + n = w.ghosts.length + m x := hx
    have h2 : w''.ghosts.length + m x = w'.ghosts.length + k y := hr
    show w''.ghosts.length + n = w.ghosts.length + k y
    omega

theorem tallied_ret {β : Type} {y : β} {k : β → Nat} {n : Nat} (h : k y = n) :
    (Prog.ret y : ClientFlow β).Wp (clientHandle out) w (onOk fun y w' => Tallied w n (k y) w') := by
  simp [Tallied, h]

theorem tallied_recordGhost (counts : Counts) (c : RemoteCandidate) (reason : String) :
    (recordGhost counts c reason).Wp (clientHandle out) w
      (onOk fun counts' w' => Tallied w (total counts) (total counts') w') := by
  refine wp_op.mpr (wp_ret.mpr ?_)
  show (w.ghosts ++ [(c, reason)]).length + total counts =
    w.ghosts.length + total (recordGhostReason counts reason 1)
  rw [total_recordGhostReason, List.length_append, List.length_singleton]
  omega

theorem noGhost_resolveDownloadUrlOnce (py : PyValues) (rq : Requests) (itemId : String) :
    (resolveDownloadUrlOnce py rq itemId).Calls ClientOp.NoGhost :=
  calls_resolveDownloadUrlOnce py rq fun _ => ClientOp.Asks.noGhost

theorem noGhost_tryDownload (a : PollArgs) (url : String) (tmp : Path) (c : RemoteCandidate) :
    (tryDownload a url tmp c).Calls ClientOp.NoGhost :=
  calls_tryDownload url fun _ h => h.transfers.noGhost

theorem noGhost_appendLifecycleEvent (a : PollArgs) (event : String) (c : RemoteCandidate)
    (path : Path) : (appendLifecycleEvent a event c path).Calls ClientOp.NoGhost :=
  .op rfl fun _ => calls_file rfl

/-- A ghost recorded at the end of a branch. -/
theorem tallied_ghosted {β : Type} (counts : Counts) (c : RemoteCandidate) (reason : String)
    {y : Counts → β} {k : β → Nat} (h : ∀ counts, k (y counts) = total counts) :
    (recordGhost counts c reason >>= fun counts => Prog.ret (y counts)).Wp (clientHandle out) w
      (onOk fun y w' => Tallied w (total counts) (k y) w') :=
  tallied_bind (tallied_recordGhost counts c reason) fun _ _ => tallied_ret (h _)

theorem tallied_initialDownloadUrl (c : RemoteCandidate) (ghosts : Counts) :
    (initialDownloadUrl lib a c ghosts).Wp (clientHandle out) w
      (onOk fun r w' => Tallied w (total ghosts) (total r.1) w') := by
  unfold initialDownloadUrl
  cases truthy c.downloadUrl with
  | some url => exact tallied_ret rfl
  | none =>
    refine tallied_bind (tallied_recordGhost ghosts c _) fun ghosts w' => ?_
    refine tallied_bind (tallied_quiet _ (noGhost_resolveDownloadUrlOnce _ _ _)) fun r w' => ?_
    cases r with
    | ok url => exact tallied_ret rfl
    | error reason => exact tallied_ghosted ghosts c reason fun _ => rfl

theorem tallied_downloadRefreshing (c : RemoteCandidate) (tmp : Path) (url : String)
    (ghosts : Counts) :
    (downloadRefreshing lib a c tmp url ghosts).Wp (clientHandle out) w
      (onOk fun r w' => Tallied w (total ghosts) (total r.1) w') := by
  refine tallied_bind (tallied_quiet _ (noGhost_tryDownload _ _ _ _)) fun r w' => ?_
  cases r with
  | ok _ => exact tallied_ret rfl
  | error e =>
    refine tallied_bind (tallied_quiet _ (calls_file rfl)) fun _ w' => ?_
    by_cases hreach : isDownloadUrlUnreachable e = true
    · simp only [hreach, Bool.not_true, Bool.false_eq_true, if_false]
      refine tallied_bind (tallied_quiet _ (noGhost_resolveDownloadUrlOnce _ _ _)) fun r w' => ?_
      cases r with
      | error reason => exact tallied_ghosted ghosts c reason fun _ => rfl
      | ok refreshed =>
        refine tallied_bind (tallied_quiet _ (noGhost_tryDownload _ _ _ _)) fun r w' => ?_
        cases r with
        | ok _ => exact tallied_ret rfl
        | error e =>
          refine tallied_bind (tallied_quiet _ (calls_file rfl)) fun _ w' => ?_
          by_cases hagain : isDownloadUrlUnreachable e = true
          · simp only [hagain, if_true]
            exact tallied_ghosted ghosts c _ fun _ => rfl
          · simp [hagain]
    · simp [hreach]

theorem tallied_finishDownload (c : RemoteCandidate) (base : String) (ghosts : Counts) :
    (finishDownload a c base ghosts).Wp (clientHandle out) w
      (onOk fun r w' => Tallied w (total ghosts) (total r.1) w') := by
  refine tallied_bind (tallied_quiet _ (noGhost_appendLifecycleEvent _ _ _ _)) fun _ w' => ?_
  split
  · refine tallied_bind (tallied_quiet _ (calls_file rfl)) fun _ w' => ?_
    refine tallied_bind (tallied_recordGhost ghosts c _) fun ghosts w' => ?_
    exact tallied_bind (tallied_quiet _ (noGhost_appendLifecycleEvent _ _ _ _)) fun _ w' =>
      tallied_ret rfl
  · refine tallied_bind (tallied_quiet _ (calls_file rfl)) fun _ w' => ?_
    refine tallied_bind (tallied_quiet _ (noGhost_appendLifecycleEvent _ _ _ _)) fun _ w' => ?_
    exact tallied_bind (tallied_quiet _ (calls_file rfl)) fun _ w' => tallied_ret rfl

theorem tallied_downloadCandidate (c : RemoteCandidate) (base : String) (ghosts : Counts) :
    (downloadCandidate lib a c base ghosts).Wp (clientHandle out) w
      (onOk fun r w' => Tallied w (total ghosts) (total r.1) w') := by
  unfold downloadCandidate
  split
  · exact tallied_ghosted ghosts c _ fun _ => rfl
  · refine tallied_bind (tallied_quiet _ (noGhost_appendLifecycleEvent _ _ _ _)) fun _ w' => ?_
    refine tallied_bind (tallied_initialDownloadUrl c ghosts) fun r w' => ?_
    obtain ⟨ghosts, url⟩ := r
    cases url with
    | none => exact tallied_ret rfl
    | some url =>
      refine tallied_bind (tallied_downloadRefreshing c _ url ghosts) fun r w' => ?_
      obtain ⟨ghosts, done⟩ := r
      cases done with
      | false => exact tallied_ret rfl
      | true => exact tallied_finishDownload c base ghosts

theorem tallied_downloadLoop (limit : Int) : ∀ (index : Nat) (cs : List RemoteCandidate)
    (used : List String) (d : Downloads) (w : ClientState),
    (downloadLoop lib a limit index cs used d).Wp (clientHandle out) w
      (onOk fun d' w' => Tallied w (total d.ghosts) (total d'.ghosts) w')
  | _, [], _, _, _ => tallied_ret rfl
  | index, c :: cs, used, d, w => by
    rw [downloadLoop]
    split
    · exact tallied_ret rfl
    · exact tallied_bind (tallied_downloadCandidate c _ d.ghosts) fun r w' =>
        tallied_downloadLoop limit _ cs _ _ w'

theorem tallied_downloadCandidates (candidates : List RemoteCandidate) (budget : Option Int)
    (n : Nat) :
    (downloadCandidates lib a candidates budget).Wp (clientHandle out) w
      (onOk fun d w' => Tallied w n (n + total d.ghosts) w') := by
  refine wp_op.mpr (wp_mono (fun r w' hr => ?_) (tallied_downloadLoop _ 0 candidates [] ⟨∅, []⟩ _))
  cases r with
  | error e => trivial
  | ok d =>
    have htally : w'.ghosts.length + 0 = w.ghosts.length + total d.ghosts := hr
    show w'.ghosts.length + n = w.ghosts.length + (n + total d.ghosts)
    omega

/-- The counts of a page join those of the traversal. -/
theorem tallied_downloadPage (t : Traversal) (candidates : List RemoteCandidate) :
    (downloadPage lib a t candidates).Wp (clientHandle out) w
      (onOk fun t' w' => Tallied w (total t.ghosts) (total t'.ghosts) w') := by
  unfold downloadPage
  dsimp only
  split
  · refine tallied_bind (tallied_downloadCandidates candidates _ (total t.ghosts)) fun d w' => ?_
    have hjoin := total_foldl d.ghosts.entries t.ghosts
    split
    · refine tallied_bind (tallied_quiet _ (.op rfl fun _ => .ret)) fun done w' => ?_
      cases done with
      | false => exact wp_err.mpr trivial
      | true => exact tallied_ret hjoin
    · exact tallied_ret hjoin
  · exact tallied_ret rfl

end Tallied

/-! ## The traversal -/

/-- Operations are counted, and what is recorded of resyncs stays. -/
structure Forward (w w' : ClientState) : Prop where
  tick : w.tick ≤ w'.tick
  resyncs : w.resyncs.length ≤ w'.resyncs.length

theorem Forward.trans {u v w : ClientState} (h : Forward u v) (h' : Forward v w) : Forward u w :=
  ⟨h.tick.trans h'.tick, h.resyncs.trans h'.resyncs⟩

theorem forward_step (out : Outside) (o : ClientOp) (w : ClientState) :
    Forward w (clientHandle out o w).2 := by
  refine ⟨Nat.le_succ _, ?_⟩
  cases o with
  | get url bearer => cases bearer <;> exact Nat.le_refl _
  | pageHandoff _ rows => simp only [clientHandle, effect]; split <;> exact Nat.le_refl _
  | file f =>
    simp only [clientHandle, effect]
    split
    · exact Nat.le_refl _
    · cases f with
      | markResync rejected marker => simp [FileOp.apply]
      | replace src dst => simp only [FileOp.apply]; split <;> exact Nat.le_refl _
      | _ => exact Nat.le_refl _
  | _ => exact Nat.le_refl _

theorem forward_run {α : Type} (out : Outside) : ∀ (p : ClientFlow α) (w : ClientState),
    Forward w (p.run (clientHandle out) w).2
  | .ret _, _ => ⟨Nat.le_refl _, Nat.le_refl _⟩
  | .err _, _ => ⟨Nat.le_refl _, Nat.le_refl _⟩
  | .op o _, w => (forward_step out o w).trans (forward_run out _ _)

section Turns
variable {out : Outside} {lib : ClientLib} {a : PollArgs} {w : ClientState}

theorem wp_forward {α : Type} (p : ClientFlow α) :
    p.Wp (clientHandle out) w fun _ w' => Forward w w' := wp_iff.mpr (forward_run out p w)

/-- How a turn or a traversal ends: the tally goes on, or a resync was recorded. -/
def Turned (w : ClientState) (n : Nat) : Outcome → ClientState → Prop
  | .next _ t, w' => Tallied w n (total t.ghosts) w'
  | .resync _, w' => w.resyncs.length < w'.resyncs.length

/-- The rest of a traversal, after a part that kept the tally. -/
theorem Tallied.turned {w' w'' : ClientState} {n m : Nat} (h : Tallied w n m w')
    (hforward : Forward w w') : ∀ {o : Outcome}, Turned w' m o w'' → Turned w n o w''
  | .next _ t, h' => by
    have h1 : w'.ghosts.length + n = w.ghosts.length + m := h
    have h2 : w''.ghosts.length + m = w'.ghosts.length + total t.ghosts := h'
    show w''.ghosts.length + n = w.ghosts.length + total t.ghosts
    omega
  | .resync _, h' => hforward.resyncs.trans_lt h'

theorem turned_bind {α : Type} {p : ClientFlow α} {f : α → ClientFlow Outcome} {n : Nat}
    {m : α → Nat}
    (hp : p.Wp (clientHandle out) w (onOk fun x w' => Tallied w n (m x) w'))
    (hf : ∀ x w', (f x).Wp (clientHandle out) w' (onOk (Turned w' (m x)))) :
    (p >>= f).Wp (clientHandle out) w (onOk (Turned w n)) := by
  refine wp_bind.mpr (wp_mono (fun r w' hr => ?_) (wp_and hp (wp_forward p)))
  cases r with
  | error e => trivial
  | ok x =>
    refine wp_mono (fun r w'' hr' => ?_) (hf x w')
    cases r with
    | error e => trivial
    | ok o => exact hr.1.turned hr.2 hr'

/-- Turn after turn: a resync ends the loop. -/
theorem turned_turn {p : ClientFlow Outcome} {f : Outcome → ClientFlow Outcome} {n : Nat}
    (hp : p.Wp (clientHandle out) w (onOk (Turned w n)))
    (hresync : ∀ counts, f (.resync counts) = .ret (.resync counts))
    (hnext : ∀ link t w', (f (.next link t)).Wp (clientHandle out) w'
      (onOk (Turned w' (total t.ghosts)))) :
    (p >>= f).Wp (clientHandle out) w (onOk (Turned w n)) := by
  refine wp_bind.mpr (wp_mono (fun r w' hr => ?_) (wp_and hp (wp_forward p)))
  match r, hr with
  | .error e, _ => trivial
  | .ok (.resync counts), hr =>
    rw [thenWp_ok, hresync]
    exact wp_ret.mpr hr.1
  | .ok (.next link t), hr =>
    refine wp_mono (fun r w'' hr' => ?_) (hnext link t w')
    cases r with
    | error e => trivial
    | ok o => exact Tallied.turned hr.1 hr.2 hr'

theorem wp_markResyncRequired (rejected reason : String) (resyncUrl : Option String) :
    (markResyncRequired a.accountName rejected reason resyncUrl).Wp (clientHandle out) w
      (onOk fun _ w' => w.resyncs.length < w'.resyncs.length) := by
  refine wp_op.mpr (wp_file ?_ trivial)
  simp [FileOp.apply, clientHandle, effect]

/-- A resync is recorded and nothing takes it back. -/
theorem turned_resync {rejected reason : String} {resyncUrl : Option String} {n : Nat}
    {p : Unit → ClientFlow Outcome} (hp : ∀ w', (p ()).Wp (clientHandle out) w' (onOk fun o _ =>
      ∃ counts, o = .resync counts)) :
    (markResyncRequired a.accountName rejected reason resyncUrl >>= p).Wp (clientHandle out) w
      (onOk (Turned w n)) := by
  refine wp_bind_onOk (wp_markResyncRequired rejected reason resyncUrl) fun _ w' hw' => ?_
  refine wp_mono (fun r w'' hr => ?_) (wp_and (hp w') (wp_forward (p ())))
  match r, hr with
  | .error e, _ => trivial
  | .ok o, ⟨⟨counts, ho⟩, hforward⟩ =>
    subst ho
    exact lt_of_lt_of_le hw' hforward.resyncs

theorem noGhost_checkpoint (link : String) : (checkpoint link).Calls ClientOp.NoGhost :=
  .bind (calls_file rfl) fun _ => calls_file rfl

theorem noGhost_orRaise {α : Type} (x : Except Unit α) :
    (orRaise x).Calls ClientOp.NoGhost := by
  cases x with
  | error e => exact .err
  | ok y => exact .ret

theorem ghosts_noteReplays (py : PyValues) (t : Traversal) (payload : Payload) :
    (noteReplays py t payload).ghosts = t.ghosts := by
  unfold noteReplays
  dsimp only
  split <;> rfl

theorem turned_processDeltaPage (t : Traversal) (payload : Payload) :
    (processDeltaPage lib a t payload).Wp (clientHandle out) w
      (onOk (Turned w (total t.ghosts))) := by
  refine turned_bind (tallied_quiet (total t.ghosts) (.op rfl fun _ => .ret)) fun now w' => ?_
  refine turned_bind (tallied_quiet (total t.ghosts) (noGhost_orRaise _)) fun reducer w' => ?_
  refine turned_bind (tallied_quiet (total t.ghosts) (.op rfl fun _ => .ret)) fun now w' => ?_
  refine turned_bind (tallied_quiet (total t.ghosts) (noGhost_orRaise _)) fun candidates w' => ?_
  have hsame := congrArg total (ghosts_noteReplays lib.toPyValues t payload)
  rw [← hsame]
  refine turned_bind (tallied_downloadPage _ candidates) fun t w' => ?_
  unfold storeNextLink
  cases nextLink lib.toPyValues payload with
  | none => exact wp_ret.mpr rfl
  | some link =>
    exact turned_bind (tallied_quiet _ (noGhost_checkpoint link)) fun _ w' => wp_ret.mpr rfl

theorem turned_loopDetected (t : Traversal) (url : String) :
    (loopDetected a t url).Wp (clientHandle out) w (onOk (Turned w (total t.ghosts))) := by
  refine turned_bind (tallied_quiet (total t.ghosts)
    (aside_incrementLoopIncident.imp fun _ => ClientOp.Aside.noGhost)) fun n w' => ?_
  split
  · refine turned_resync fun w' => wp_bind_onOk (Q := fun _ _ => True) ?_ fun _ w' _ => ?_
    · exact wp_iff.mpr (by cases (resetLoopIncidents.run (clientHandle out) w').1 <;> trivial)
    · exact wp_ret.mpr ⟨_, rfl⟩
  · exact wp_err.mpr trivial

theorem turned_deltaPage (t : Traversal) (url : String) :
    (deltaPage lib a t url).Wp (clientHandle out) w (onOk (Turned w (total t.ghosts))) := by
  unfold deltaPage
  split
  · exact turned_loopDetected t url
  · refine turned_bind (tallied_quiet (total t.ghosts)
      ((calls_fetchDeltaPage a url).imp fun _ => ClientOp.Asks.noGhost)) fun r w' => ?_
    cases r with
    | error resyncUrl => exact turned_resync fun w' => wp_ret.mpr ⟨_, rfl⟩
    | ok payload => exact turned_processDeltaPage _ payload

/-- The page loop, by induction on the pages it may still fetch. -/
theorem turned_deltaPages (start : Int) : ∀ (remaining : Nat) (next : Option String)
    (t : Traversal) (w : ClientState),
    (deltaPages lib a start remaining next t).Wp (clientHandle out) w
      (onOk (Turned w (total t.ghosts)))
  | remaining, next, t, w => by
    unfold deltaPages
    cases truthy next with
    | none => exact wp_ret.mpr rfl
    | some url =>
      dsimp only
      split
      · exact wp_ret.mpr rfl
      refine turned_bind (tallied_quiet (total t.ghosts) (.op rfl fun _ => .ret)) fun now w' => ?_
      split
      · exact wp_err.mpr trivial
      cases remaining with
      | zero => exact wp_err.mpr trivial
      | succ remaining =>
        exact turned_turn (turned_deltaPage t url) (fun _ => rfl) fun link t w' =>
          turned_deltaPages start remaining link t w'

/-! ## The breaker -/

/-- The cooldown is set from a reading of the clock between the two states. -/
def Armed (out : Outside) (cooldownSeconds : Int) (w w' : ClientState) : Prop :=
  ∃ n, w.tick ≤ n ∧ n < w'.tick ∧
    w'.incidents.cooldownUntilEpoch = some (out.time n + seconds cooldownSeconds)

theorem Armed.earlier {cooldown : Int} {w w' w'' : ClientState} (h : Armed out cooldown w' w'')
    (hle : w.tick ≤ w'.tick) : Armed out cooldown w w'' := by
  obtain ⟨n, hn, hlt, hcool⟩ := h
  exact ⟨n, hle.trans hn, hlt, hcool⟩

theorem Armed.kept {cooldown : Int} {w w' w'' : ClientState} (h : Armed out cooldown w w')
    (hle : w'.tick ≤ w''.tick) (hkept : w''.incidents = w'.incidents) :
    Armed out cooldown w w'' := by
  obtain ⟨n, hn, hlt, hcool⟩ := h
  exact ⟨n, hn, hlt.trans_le hle, hkept ▸ hcool⟩

theorem wp_armBreakerCooldown (cooldown : Int) :
    (armBreakerCooldown cooldown).Wp (clientHandle out) w
      (onOk fun _ w' => Armed out cooldown w w') := by
  refine wp_op.mpr (wp_op.mpr (wp_file ?_ trivial))
  exact ⟨w.tick + 1, Nat.le_succ _, Nat.lt_succ_of_le (Nat.le_succ _), rfl⟩

theorem wp_armBreakers (t : Traversal) :
    (armBreakers a t).Wp (clientHandle out) w
      (onOk fun _ w' => a.deltaBreakerGhostThreshold ≤ total t.ghosts →
        Armed out a.deltaBreakerCooldownSeconds w w') := by
  unfold armBreakers
  split
  · exact wp_bind_onOk (wp_armBreakerCooldown _) fun _ w' hw' => wp_ret.mpr fun _ => hw'
  · split
    · exact wp_bind_onOk (wp_armBreakerCooldown _) fun _ w' hw' => wp_ret.mpr fun _ => hw'
    · next hfew => exact wp_ret.mpr fun h => absurd h hfew

theorem wp_finishPoll (t : Traversal) :
    (finishPoll a t).Wp (clientHandle out) w
      (onOk fun _ w' => a.deltaBreakerGhostThreshold ≤ total t.ghosts →
        Armed out a.deltaBreakerCooldownSeconds w w') := by
  unfold finishPoll
  split
  · exact wp_err.mpr trivial
  · refine wp_bind.mpr (wp_op.mpr (wp_ret.mpr ?_))
    refine wp_bind.mpr (wp_mono (fun r w' hforward => ?_) (wp_forward (storeDeltaLink t.deltaLink)))
    cases r with
    | error e => trivial
    | ok x =>
      refine wp_bind_onOk (wp_armBreakers t) fun _ w'' harm => wp_ret.mpr fun h => ?_
      exact (harm h).earlier ((Nat.le_succ _).trans hforward.tick)

theorem noGhost_finishPoll (t : Traversal) : (finishPoll a t).Calls ClientOp.NoGhost := by
  have hlink : (storeDeltaLink t.deltaLink).Calls ClientOp.NoGhost := by
    cases t.deltaLink with
    | none => exact .ret
    | some link => exact noGhost_checkpoint link
  refine .ite .err
    (.bind (.op rfl fun _ => .ret) fun _ => .bind hlink fun _ => .bind ?_ fun _ => .ret)
  exact (aside_armBreakers a t).imp fun _ => ClientOp.Aside.noGhost

/-- A poll that returns asked for nothing, recorded a resync, or has armed the
breaker if it met too many ghosts. -/
theorem wp_pollAccountOnce (lib : ClientLib) (a : PollArgs) (out : Outside) (w : ClientState) :
    (pollAccountOnce lib a).Wp (clientHandle out) w (onOk fun _ w' =>
      w'.requests = w.requests ∨ w.resyncs.length < w'.resyncs.length ∨
        (a.deltaBreakerGhostThreshold ≤ (w'.ghosts.length : Int) - w.ghosts.length →
          Armed out a.deltaBreakerCooldownSeconds w w')) := by
  refine wp_bind.mpr (wp_op.mpr (wp_ret.mpr ?_))
  have hprepare : (preparePoll a).Wp (clientHandle out) (clientHandle out .readCursor w).2
      fun _ w' => Untouched (clientHandle out .readCursor w).2 w' :=
    untouched_of_calls (aside_preparePoll a) fun _ _ h => h
  refine wp_bind.mpr (wp_mono (fun r w₁ hr => ?_) (wp_and hprepare (wp_forward _)))
  match r, hr with
  | .error e, _ => trivial
  | .ok none, ⟨hquiet, _⟩ => exact wp_ret.mpr (.inl hquiet.requests)
  | .ok (some start), ⟨hquiet, hstart⟩ =>
    refine wp_bind.mpr (wp_mono (fun r w₂ hr => ?_)
      (wp_and (turned_deltaPages start _ _ .start w₁) (wp_forward _)))
    match r, hr with
    | .error e, _ => trivial
    | .ok (.resync counts), ⟨hresync, _⟩ =>
      refine wp_ret.mpr (.inr (.inl ?_))
      have hlt : w₁.resyncs.length < w₂.resyncs.length := hresync
      rw [hquiet.resyncs] at hlt
      exact hlt
    | .ok (.next link t), ⟨htally, hforward⟩ =>
      refine wp_mono (fun r w₃ hr => ?_)
        (wp_and (wp_finishPoll t) (ghosts_of_calls (noGhost_finishPoll t)))
      cases r with
      | error e => trivial
      | ok x =>
        refine .inr (.inr fun hmany => ?_)
        have htotal : w₂.ghosts.length + total Traversal.start.ghosts =
          w₁.ghosts.length + total t.ghosts := htally
        have hnone : total Traversal.start.ghosts = 0 := rfl
        have hbefore : w₁.ghosts = w.ghosts := hquiet.ghosts
        have hafter : w₃.ghosts = w₂.ghosts := hr.2
        rw [hafter, ← hbefore] at hmany
        have htick : w.tick ≤ w₁.tick := (Nat.le_succ _).trans hstart.tick
        exact (hr.1 (by omega)).earlier (htick.trans hforward.tick)

/-! ## Polls during the cooldown -/

theorem wp_isBreakerCooldownActive {s : IncidentState} {stop : Int}
    (hcool : s.cooldownUntilEpoch = some stop) {Q : Except ClientError Bool → ClientState → Prop}
    (h : Q (.ok (decide (out.time w.tick < stop))) { w with tick := w.tick + 1 }) :
    (isBreakerCooldownActive s).Wp (clientHandle out) w Q := by
  rw [isBreakerCooldownActive, hcool]
  exact wp_op.mpr (wp_ret.mpr h)

/-- A poll whose clock lies before the end of the cooldown sends nothing and
stores nothing. -/
theorem wp_poll_cooling (lib : ClientLib) (a : PollArgs) {stop : Int}
    (hcool : w.incidents.cooldownUntilEpoch = some stop) :
    (pollAccountOnce lib a).Wp (clientHandle out) w fun _ w' =>
      (∀ m, w.tick ≤ m → m < w'.tick → out.time m < stop) →
        w'.cursorFile = w.cursorFile ∧ w'.requests = w.requests ∧
          w'.incidents = w.incidents ∧ w'.retries = w.retries := by
  refine wp_bind.mpr (wp_op.mpr (wp_ret.mpr ?_))
  refine wp_bind.mpr (wp_bind.mpr (wp_op.mpr (wp_ret.mpr ?_)))
  refine wp_bind.mpr (wp_file ?_ fun _ => ⟨rfl, rfl, rfl, rfl⟩)
  refine wp_bind.mpr (wp_op.mpr (wp_ret.mpr ?_))
  refine wp_bind.mpr (wp_isBreakerCooldownActive hcool ?_)
  show Wp _ (if decide (out.time (w.tick + 4) < stop) = true then _ else _) _ _
  by_cases hnow : out.time (w.tick + 4) < stop
  · simp only [hnow, decide_true, if_true]
    refine wp_ret.mpr (wp_ret.mpr fun _ => ?_)
    simp [clientHandle, FileOp.apply, effect]
  · simp only [hnow, decide_false, Bool.false_eq_true, if_false]
    -- the clock read late: the poll goes on, and the reading is one of its own
    refine wp_bind.mp (wp_mono (fun _ w' hforward hclock => ?_) (wp_forward _))
    have hlast : w.tick + 4 < w'.tick := hforward.tick
    exact absurd (hclock (w.tick + 4) (Nat.le_add_right _ _) hlast) hnow

/-- What follows a poll with few retries leaves the cooldown alone. -/
theorem wp_settlePoll_few {retries : List Bool} (hfew : ¬ a.backpressure.Reached retries) :
    (settlePoll a retries).Wp (clientHandle out) w fun _ w' => w'.incidents = w.incidents := by
  refine wp_op.mpr ?_
  show Wp _ (if _ = true then _ else applyAdaptiveBackpressure a retries) _ _
  rw [applyAdaptiveBackpressure, if_neg hfew]
  split
  · exact wp_err.mpr rfl
  · exact wp_ret.mpr rfl

/-- What follows a poll leaves the cooldown, or puts its own in its place. -/
theorem wp_settlePoll (out : Outside) (a : PollArgs) (w : ClientState) (retries : List Bool) :
    (settlePoll a retries).Wp (clientHandle out) w fun _ w' =>
      w'.incidents = w.incidents ∨
        a.backpressure.Reached retries ∧ Armed out a.backpressure.cooldownSeconds w w' := by
  by_cases hreached : a.backpressure.Reached retries
  · refine wp_op.mpr ?_
    show Wp _ (if _ = true then _ else applyAdaptiveBackpressure a retries) _ _
    rw [applyAdaptiveBackpressure, if_pos hreached]
    split
    · exact wp_err.mpr (.inl rfl)
    · refine wp_op.mpr (wp_op.mpr (wp_file ?_ (.inl rfl)))
      have hlater : w.tick + 2 < w.tick + 4 := by omega
      exact .inr ⟨hreached, w.tick + 2, Nat.le_add_right _ _, hlater, rfl⟩
  · exact wp_mono (fun _ _ => .inl) (wp_settlePoll_few hreached)

/-- No retry reaches no threshold. -/
theorem Backpressure.not_reached_nil (b : Backpressure) : ¬ b.Reached [] := by
  intro ⟨_, h⟩
  have hretry := b.retryThreshold_pos
  have htransport := b.transportErrorThreshold_pos
  rw [List.length_nil, List.count_nil] at h
  omega

end Turns

theorem forward_pollSingleAccount (lib : ClientLib) (out : Outside) (a : PollArgs)
    (w : ClientState) :
    Forward ((pollAccountOnce lib a).run (clientHandle out) w).2
      (pollSingleAccount lib out a w) := by
  rw [pollSingleAccount]
  cases (pollAccountOnce lib a).run (clientHandle out) w with
  | mk r w' =>
    cases r with
    | error e => exact ⟨Nat.le_refl _, Nat.le_refl _⟩
    | ok res => exact forward_run out _ w'

theorem forward_runPolls (lib : ClientLib) (out : Outside) : ∀ (polls : List PollArgs)
    (w : ClientState), Forward w (runPolls lib out polls w)
  | [], _ => ⟨Nat.le_refl _, Nat.le_refl _⟩
  | a :: polls, w => (forward_run out (pollAccountOnce lib a) w).trans
      ((forward_pollSingleAccount lib out a w).trans (forward_runPolls lib out polls _))

/-- A poll of an account that cools down, with what follows it. -/
theorem pollSingleAccount_cooling {lib : ClientLib} {out : Outside} {a : PollArgs} {stop : Int}
    {w : ClientState} (hcool : w.incidents.cooldownUntilEpoch = some stop)
    (hclock : ∀ m, w.tick ≤ m → m < (pollSingleAccount lib out a w).tick → out.time m < stop) :
    (pollSingleAccount lib out a w).cursorFile = w.cursorFile ∧
      (pollSingleAccount lib out a w).requests = w.requests ∧
        (pollSingleAccount lib out a w).incidents = w.incidents := by
  have hafter := untouched_pollSingleAccount lib out a w
  have hforward := forward_pollSingleAccount lib out a w
  obtain ⟨hcursor, hrequests, hincidents, hretries⟩ :=
    wp_iff.mp (wp_poll_cooling lib a hcool) fun m hm hlt =>
      hclock m hm (hlt.trans_le hforward.tick)
  refine ⟨hafter.cursorFile.trans hcursor, hafter.requests.trans hrequests, ?_⟩
  refine Eq.trans ?_ hincidents
  -- without a request no retry was counted
  have hnone : (((pollAccountOnce lib a).run (clientHandle out) w).2.retries.drop
      w.retries.length) = [] := by rw [hretries, List.drop_length]
  rw [pollSingleAccount]
  cases hrun : (pollAccountOnce lib a).run (clientHandle out) w with
  | mk r w' =>
    rw [hrun] at hnone
    cases r with
    | error e => rfl
    | ok res =>
      dsimp only at hnone ⊢
      rw [hnone]
      exact wp_iff.mp (wp_settlePoll_few a.backpressure.not_reached_nil)

theorem runPolls_cooling {lib : ClientLib} {out : Outside} {stop : Int} :
    ∀ (polls : List PollArgs) {w : ClientState}, w.incidents.cooldownUntilEpoch = some stop →
      (∀ m, w.tick ≤ m → m < (runPolls lib out polls w).tick → out.time m < stop) →
      (runPolls lib out polls w).cursorFile = w.cursorFile ∧
        (runPolls lib out polls w).requests = w.requests
  | [], _, _, _ => ⟨rfl, rfl⟩
  | a :: polls, w, hcool, hclock => by
    have hrest := forward_runPolls lib out polls (pollSingleAccount lib out a w)
    have hpoll := (forward_run out (pollAccountOnce lib a) w).trans
      (forward_pollSingleAccount lib out a w)
    obtain ⟨hcursor, hrequests, hincidents⟩ := pollSingleAccount_cooling hcool fun m hm hlt =>
      hclock m hm (hlt.trans_le hrest.tick)
    obtain ⟨hcursor', hrequests'⟩ := runPolls_cooling polls (hincidents ▸ hcool) fun m hm hlt =>
      hclock m (hpoll.tick.trans hm) hlt
    exact ⟨hcursor'.trans hcursor, hrequests'.trans hrequests⟩

/-! ## What a trace says of the end -/

theorem ghosts_trace {α : Type} (out : Outside) : ∀ (p : ClientFlow α) (w : ClientState),
    (p.run (clientHandle out) w).2.ghosts.length =
      w.ghosts.length + ghostCount (p.trace (clientHandle out) w)
  | .ret _, _ => rfl
  | .err _, _ => rfl
  | .op o k, w => by
    rw [run_op, ghosts_trace out]
    by_cases ho : o.isGhost = true
    · cases o with
      | countGhost c reason =>
        simp [Prog.trace, ghostCount, clientHandle, effect, ClientOp.isGhost]
        omega
      | _ => cases ho
    · rw [ghosts_of_noGhost out o w (by simpa [ClientOp.NoGhost] using ho)]
      simp [Prog.trace, ghostCount, ho]

theorem requests_trace {α : Type} (out : Outside) : ∀ (p : ClientFlow α) (w : ClientState),
    (p.run (clientHandle out) w).2.requests =
      w.requests ++ (p.trace (clientHandle out) w).filterMap fun e => e.op.asked
  | .ret _, _ => (List.append_nil _).symm
  | .err _, _ => (List.append_nil _).symm
  | .op o k, w => by
    rw [run_op, requests_trace out, Prog.trace]
    cases o with
    | get url bearer => cases bearer <;> simp [clientHandle, effect, ClientOp.asked]
    | pageHandoff _ rows =>
      simp only [clientHandle, effect, List.filterMap_cons, ClientOp.asked]
      split <;> rfl
    | file f =>
      simp only [clientHandle, effect, List.filterMap_cons, ClientOp.asked]
      split
      · rfl
      · cases f with
        | replace src dst => simp only [FileOp.apply]; split <;> rfl
        | _ => rfl
    | _ => rfl

/-- A run that fetched a page has sent a request. -/
theorem PageTurn.requests_ne {α : Type} {out : Outside} {q : ClientFlow α} {w : ClientState}
    {after : ClientTrace} {p : Payload} (h : PageTurn out (q.trace (clientHandle out) w) after p) :
    (q.run (clientHandle out) w).2.requests ≠ w.requests := by
  obtain ⟨before, e, hes, -⟩ := h.opened
  obtain ⟨url, -, e', he', token, r, hop, -⟩ := h.fetched
  have hmem : e' ∈ q.trace (clientHandle out) w := by
    rw [hes]
    exact List.mem_append_right _ (List.mem_cons_of_mem e ((List.takeWhile_sublist _).subset he'))
  have hasked : url ∈ (q.trace (clientHandle out) w).filterMap fun e => e.op.asked :=
    List.mem_filterMap.mpr ⟨e', hmem, by rw [hop]; rfl⟩
  rw [requests_trace]
  intro heq
  rw [List.append_right_eq_self.mp heq] at hasked
  cases hasked

theorem ghostCount_turnOf {out : Outside} {es after : ClientTrace} {p : Payload}
    (h : PageTurn out es after p) : ghostCount (turnOf after) ≤ ghostCount es := by
  obtain ⟨before, e, hes, -⟩ := h.opened
  have hsub : (turnOf after).Sublist es := by
    rw [hes]
    exact (List.takeWhile_sublist _).trans
      ((List.sublist_cons_self e after).trans (List.sublist_append_right before _))
  exact (hsub.filter _).length_le

/-- Until the cooldown in `w` is over, no poll sends a request or stores a cursor. -/
def Rests (lib : ClientLib) (out : Outside) (stop : Int) (w : ClientState) : Prop :=
  ∀ polls : List PollArgs,
    (∀ m, w.tick ≤ m → m < (runPolls lib out polls w).tick → out.time m < stop) →
      (runPolls lib out polls w).cursorFile = w.cursorFile ∧
        (runPolls lib out polls w).requests = w.requests

/-- A page with more ghosts than the threshold arms the breaker, where the
traversal comes to its end. From a clock reading of the run on the account rests
for the cooldown of the breaker, or for that of the backpressure if the retries of
the same run reach one of its thresholds. -/
theorem ghost_breaker_cools {lib : ClientLib} {out : Outside} {a : PollArgs} {w w₁ : ClientState}
    {res : PollResult} (hrun : (pollAccountOnce lib a).run (clientHandle out) w = (.ok res, w₁))
    (hresync : w₁.resyncs = w.resyncs) {after : ClientTrace} {p : Payload}
    (hpage : PageTurn out ((pollAccountOnce lib a).trace (clientHandle out) w) after p)
    (hghosts : a.deltaBreakerGhostThreshold < ghostCount (turnOf after)) :
    ∃ n cooldown, w.tick ≤ n ∧ n < (pollSingleAccount lib out a w).tick ∧
      (cooldown = a.deltaBreakerCooldownSeconds ∨
        a.backpressure.Reached (w₁.retries.drop w.retries.length) ∧
          cooldown = a.backpressure.cooldownSeconds) ∧
      Rests lib out (out.time n + seconds cooldown) (pollSingleAccount lib out a w) := by
  have hcount := ghosts_trace out (pollAccountOnce lib a) w
  have hle := ghostCount_turnOf hpage
  have hend := wp_iff.mp (wp_pollAccountOnce lib a out w)
  have hasked := hpage.requests_ne
  rw [hrun] at hend hcount hasked
  have hmany : a.deltaBreakerGhostThreshold ≤ (w₁.ghosts.length : Int) - w.ghosts.length := by
    simp only at hcount
    omega
  have harmed : Armed out a.deltaBreakerCooldownSeconds w w₁ := by
    rcases hend with hidle | hmarked | harmed
    · exact absurd hidle hasked
    · exact absurd hmarked (by rw [hresync]; exact Nat.lt_irrefl _)
    · exact harmed hmany
  have hpoll := forward_run out (pollAccountOnce lib a) w
  have hforward := forward_pollSingleAccount lib out a w
  rw [hrun] at hpoll hforward
  have hsettled := wp_iff.mp (wp_settlePoll out a w₁ (w₁.retries.drop w.retries.length))
  have hafter : pollSingleAccount lib out a w =
      ((settlePoll a (w₁.retries.drop w.retries.length)).run (clientHandle out) w₁).2 := by
    rw [pollSingleAccount, hrun]
  rw [← hafter] at hsettled
  rcases hsettled with hkept | ⟨hreached, harmed'⟩
  · obtain ⟨n, hn, hlt, hcool⟩ := harmed.kept hforward.tick hkept
    exact ⟨n, _, hn, hlt, .inl rfl, fun polls hclock => runPolls_cooling polls hcool hclock⟩
  · obtain ⟨n, hn, hlt, hcool⟩ := harmed'.earlier hpoll.tick
    exact ⟨n, _, hn, hlt, .inr ⟨hreached, rfl⟩, fun polls hclock =>
      runPolls_cooling polls hcool hclock⟩

/-! ## A page of ghosts -/

/-- A file without a size. -/
def unsizedItem (id : String) : Json :=
  .obj [("id", .str id), ("name", .str (id ++ ".jpg")), ("file", .obj []),
    ("lastModifiedDateTime", .str "2024-01-01T00:00:00Z"),
    ("@microsoft.graph.downloadUrl", .str ("https://content/" ++ id))]

def ghostPage : Payload :=
  [("value", .arr [unsizedItem "a", unsizedItem "b"]),
    ("@odata.deltaLink", .str "https://graph/delta?1")]

/-- Every request is answered with the page. -/
def ghostServer : Outside where
  get _ _ _ := .response ⟨200, some (.obj ghostPage), [], none, none⟩
  refresh _ := .raises
  monotonic n := n
  time n := n
  utcnow _ _ := "2024-01-01T00:00:00+00:00"
  age _ _ := 0
  jitter _ := 0.0
  driftCritical _ := false
  fails _ _ := false
  processor _ _ := true

/-- Both files are ghosts in strict mode, one more than the threshold. -/
def ghostArgs : PollArgs := { plainArgs with deltaBreakerGhostThreshold := 1 }

def ghostTrace : ClientTrace :=
  (pollAccountOnce plainLib ghostArgs).trace (clientHandle ghostServer) emptyState

/-- What follows the reading of the clock before the page. -/
def ghostTail : ClientTrace := ghostTrace.drop 7

/-- A turn is opened where the clock is read. -/
theorem opened_at {es : ClientTrace} {n : Nat} (h : es[n]?.any (fun e => e.op.readsClock) = true) :
    ∃ before e, es = before ++ e :: es.drop (n + 1) ∧ e.op = .monotonic := by
  obtain ⟨e, he, hreads⟩ := (Option.any_eq_true _ _).mp h
  obtain ⟨hn, hget⟩ := List.getElem?_eq_some_iff.mp he
  have hop : e.op = .monotonic := by
    cases ho : e.op <;> rw [ho] at hreads <;> first | rfl | cases hreads
  refine ⟨es.take n, e, ?_, hop⟩
  rw [← hget, ← List.drop_eq_getElem_cons hn, List.take_append_drop]

/-- The request for the first page. -/
def ClientOp.asksFirst : ClientOp → Bool
  | .get url (some token) => url == buildInitialDeltaUrl "/Camera Roll" && token == "token"
  | _ => false

theorem ClientOp.eq_of_asksFirst {o : ClientOp} (h : o.asksFirst = true) :
    o = .get (buildInitialDeltaUrl "/Camera Roll") (some "token") := by
  unfold ClientOp.asksFirst at h
  split at h
  · rw [Bool.and_eq_true, beq_iff_eq, beq_iff_eq] at h
    rw [h.1, h.2]
  · cases h

/-- A write of the link to the cursor file. -/
def ClientOp.savesLink (link : String) : ClientOp → Bool
  | .file (.saveCursor link') => link' == link
  | _ => false

theorem ClientOp.eq_of_savesLink {o : ClientOp} {link : String} (h : o.savesLink link = true) :
    o = .file (.saveCursor link) := by
  unfold ClientOp.savesLink at h
  split at h
  · rw [beq_iff_eq.mp h]
  · cases h

theorem ghostPage_fetched : PageTurn ghostServer ghostTrace ghostTail ghostPage where
  opened := opened_at (by decide +kernel)
  fetched := by
    have hany : (turnOf ghostTail).any (fun e => e.op.asksFirst) = true := by decide +kernel
    obtain ⟨e, he, hasks⟩ := List.any_eq_true.mp hany
    exact ⟨_, by decide +kernel, e, he, "token", _, ClientOp.eq_of_asksFirst hasks, rfl,
      by decide, rfl⟩

theorem ghosts_exceed : ghostArgs.deltaBreakerGhostThreshold < ghostCount (turnOf ghostTail) := by
  decide +kernel

/-- The link of the page is stored all the same. -/
theorem cursor_passes_ghosts :
    ¬ HoldsCursor plainLib.toPyValues ghostServer ghostArgs
      ((pollAccountOnce plainLib ghostArgs).trace (clientHandle ghostServer) emptyState) := by
  intro h
  have hany : ghostTail.any (fun e => e.op.savesLink "https://graph/delta?1") = true := by
    decide +kernel
  obtain ⟨e, he, hsaves⟩ := List.any_eq_true.mp hany
  exact h ghostTail ghostPage ghostPage_fetched ghosts_exceed e he _
    (ClientOp.eq_of_savesLink hsaves)
    ⟨ghostPage, .inl rfl, .inr rfl⟩

/-- The cooldown holds back the next poll, five minutes long. -/
theorem ghosts_cool_down :
    let w := ((pollAccountOnce plainLib ghostArgs).run (clientHandle ghostServer) emptyState).2
    let w' := pollSingleAccount plainLib ghostServer ghostArgs emptyState
    ∃ n cooldown, emptyState.tick ≤ n ∧ n < w'.tick ∧
      (cooldown = ghostArgs.deltaBreakerCooldownSeconds ∨
        ghostArgs.backpressure.Reached (w.retries.drop emptyState.retries.length) ∧
          cooldown = ghostArgs.backpressure.cooldownSeconds) ∧
      Rests plainLib ghostServer (ghostServer.time n + seconds cooldown) w' := by
  obtain ⟨res, hres⟩ : ∃ res, ((pollAccountOnce plainLib ghostArgs).run
      (clientHandle ghostServer) emptyState).1 = .ok res := ⟨_, rfl⟩
  exact ghost_breaker_cools (run_of_result hres) (by decide +kernel) ghostPage_fetched ghosts_exceed

end Nightfall.OneDrive
