import Nightfall.L7OneDrive.Poll

/-!
# How far a traversal goes

The server decides which link a page goes on with. The loop checks its runtime
right before it asks for a page, so in the operations of a poll a page is a
request with the token right behind a reading of the monotonic clock
(`pageUrls`); every other request with the token asks about an item.

* `walked_deltaPages`: what the loop asks for, by induction on the pages it may
  still fetch; the links it has seen are the ones it does not ask for again.
* `deltaWhile_eq`: the loop as the source writes it, counting pages up, ends
  within one turn more than it may fetch pages.
* `poll_ends`: both, for a whole poll and any server.
-/
namespace Nightfall.OneDrive
open Nightfall.Core Storage Prog

/-- The URL of a request that carries the token. -/
def ClientOp.asked : ClientOp → Option String
  | .get url (some _) => some url
  | _ => none

/-- The page asked for by the operation behind a reading of the clock. -/
def pageAt : ClientOp → Option ClientOp → Option String
  | .monotonic, some o => o.asked
  | _, _ => none

/-- The URLs fetched as pages, in order. -/
def pageUrls : List ClientOp → List String
  | [] => []
  | o :: os => (pageAt o os.head?).toList ++ pageUrls os

theorem pageAt_of_ne {o : ClientOp} (h : o ≠ .monotonic) (next : Option ClientOp) :
    pageAt o next = none := by
  cases o with
  | monotonic => exact absurd rfl h
  | _ => rfl

theorem pageAt_of_asked {next : Option ClientOp} (h : next.bind ClientOp.asked = none)
    (o : ClientOp) : pageAt o next = none := by
  cases next with
  | none => cases o <;> rfl
  | some n => cases o <;> first | exact h | rfl

/-- Where the clock is not read, no page is fetched. -/
theorem pageUrls_quiet {xs : List ClientOp} (ys : List ClientOp)
    (h : ∀ o ∈ xs, o ≠ .monotonic) : pageUrls (xs ++ ys) = pageUrls ys := by
  induction xs with
  | nil => rfl
  | cons x xs ih =>
    rw [List.cons_append, pageUrls, pageAt_of_ne (h x (by simp)),
      ih fun o ho => h o (List.mem_cons_of_mem x ho)]
    rfl

theorem pageUrls_of_not_asked {xs : List ClientOp} (h : ∀ o ∈ xs, o.asked = none) :
    pageUrls xs = [] := by
  induction xs with
  | nil => rfl
  | cons x xs ih =>
    have hnext : xs.head?.bind ClientOp.asked = none := by
      cases xs with
      | nil => rfl
      | cons y ys => exact h y (by simp)
    rw [pageUrls, pageAt_of_asked hnext, ih fun o ho => h o (List.mem_cons_of_mem x ho)]
    rfl

theorem pageUrls_append {xs ys : List ClientOp} (h : ys.head?.bind ClientOp.asked = none) :
    pageUrls (xs ++ ys) = pageUrls xs ++ pageUrls ys := by
  induction xs with
  | nil => rfl
  | cons x xs ih =>
    cases xs with
    | nil =>
      show (pageAt x ys.head?).toList ++ pageUrls ys = _
      rw [pageAt_of_asked h, pageUrls, pageAt_of_asked rfl]
      rfl
    | cons x' xs =>
      show (pageAt x (some x')).toList ++ pageUrls (x' :: xs ++ ys) =
        (pageAt x (some x')).toList ++ pageUrls (x' :: xs) ++ pageUrls ys
      rw [ih, List.append_assoc]

/-! ## The loop -/

/-- Operations that belong to no page: the clock is not read, and the token goes
along with questions about items only. -/
def ClientOp.OffPage : ClientOp → Prop
  | .get url (some _) => ∃ itemId, url = itemUrl itemId
  | .monotonic => False
  | _ => True

theorem ClientOp.ForItems.offPage {o : ClientOp} (h : o.ForItems) : o.OffPage := by
  cases o with
  | get url bearer => cases bearer <;> exact h
  | monotonic => exact h
  | _ => trivial

/-- At most `n` pages, each once and none of `seen`; what else is asked with the
token is about an item. -/
structure Walked (seen : List String) (n : Nat) (os : List ClientOp) : Prop where
  bounded : (pageUrls os).length ≤ n
  once : (pageUrls os).Nodup
  fresh : ∀ url ∈ pageUrls os, url ∉ seen
  rest : ∀ o ∈ os, ∀ url, o.asked = some url → url ∈ pageUrls os ∨ ∃ itemId, url = itemUrl itemId

/-- Nothing is asked. -/
theorem walked_of_not_asked {os : List ClientOp} (h : ∀ o ∈ os, o.asked = none)
    (seen : List String) (n : Nat) : Walked seen n os := by
  have hpages := pageUrls_of_not_asked h
  refine ⟨by simp [hpages], by simp [hpages], by simp [hpages], fun o ho url hurl => ?_⟩
  rw [h o ho] at hurl
  cases hurl

/-- A page and what is done for its items, before the rest of the walk. -/
theorem Walked.page {url : String} {seen : List String} {n : Nat} {fetch items os : List ClientOp}
    (hfetch : ∀ o ∈ fetch, o.Asks url) (hhead : fetch.head?.bind ClientOp.asked = some url)
    (hitems : ∀ o ∈ items, o.OffPage) (hnew : url ∉ seen) (h : Walked (url :: seen) n os) :
    Walked seen (n + 1) (.monotonic :: (fetch ++ (items ++ os))) := by
  have hfetch' : ∀ o ∈ fetch, o ≠ .monotonic := by
    rintro o ho rfl
    exact hfetch _ ho
  have hitems' : ∀ o ∈ items, o ≠ .monotonic := by
    rintro o ho rfl
    exact hitems _ ho
  have hpages : pageUrls (.monotonic :: (fetch ++ (items ++ os))) = url :: pageUrls os := by
    cases fetch with
    | nil => cases hhead
    | cons o fetch =>
      have ho : o.asked = some url := hhead
      rw [pageUrls, pageUrls_quiet _ hfetch', pageUrls_quiet _ hitems']
      show (o.asked).toList ++ pageUrls os = _
      rw [ho]; rfl
  refine ⟨?_, ?_, ?_, ?_⟩ <;> rw [hpages]
  · have := h.bounded
    simp only [List.length_cons]
    omega
  · exact List.nodup_cons.mpr ⟨fun hmem => h.fresh url hmem (by simp), h.once⟩
  · intro u hu
    rcases List.mem_cons.mp hu with rfl | hu
    · exact hnew
    · exact fun hseen => h.fresh u hu (List.mem_cons_of_mem _ hseen)
  · intro o ho u hu
    simp only [List.mem_cons, List.mem_append] at ho
    rcases ho with rfl | ho | ho | ho
    · cases hu
    · refine .inl ?_
      cases o with
      | get v bearer =>
        cases bearer with
        | none => cases hu
        | some _ =>
          obtain rfl : v = url := hfetch _ ho
          cases hu
          exact List.mem_cons_self
      | _ => cases hu
    · refine .inr ?_
      cases o with
      | get v bearer =>
        cases bearer with
        | none => cases hu
        | some _ => cases hu; exact hitems _ ho
      | _ => cases hu
    · rcases h.rest o ho u hu with hmem | hitem
      · exact .inl (List.mem_cons_of_mem _ hmem)
      · exact .inr hitem

section
variable {out : Outside}

/-- A page is asked for at once, unless no attempt is allowed. -/
theorem fetchDeltaPage_cases (a : PollArgs) (url : String) :
    (∃ e, fetchDeltaPage a url = .err e) ∨
      ∃ k, fetchDeltaPage a url = .op (.get url (some a.accessToken)) k := by
  unfold fetchDeltaPage graphGetJson
  cases a.policy.maxAttempts.toNat with
  | zero => exact .inl ⟨_, rfl⟩
  | succ n => exact .inr ⟨_, rfl⟩

theorem offPage_markResyncRequired (name url reason : String) (resyncUrl : Option String) :
    (markResyncRequired name url reason resyncUrl).Calls ClientOp.OffPage :=
  .op trivial fun _ => calls_file trivial

theorem offPage_processDeltaPage (lib : ClientLib) (a : PollArgs) (t : Traversal)
    (payload : Payload) : (processDeltaPage lib a t payload).Calls ClientOp.OffPage := by
  have hraise : ∀ {α : Type} (x : Except Unit α), (orRaise x).Calls ClientOp.OffPage := fun x => by
    cases x with
    | error _ => exact .err
    | ok _ => exact .ret
  have hnow : (call (S := ClientOps) (ε := ClientError) .utcnow).Calls ClientOp.OffPage :=
    .op trivial fun _ => .ret
  refine .bind hnow fun _ => .bind (hraise _) fun _ => .bind hnow fun _ => .bind (hraise _)
    fun _ => .bind ((items_downloadPage ..).imp fun _ => ClientOp.ForItems.offPage) fun t => ?_
  cases nextLink lib.toPyValues payload with
  | none => exact .ret
  | some link =>
    exact .bind (.bind (calls_file trivial) fun _ => calls_file trivial) fun _ => .ret

/-- The loop is left; nothing was asked. -/
theorem not_asked_loopDetected (a : PollArgs) (t : Traversal) (url : String) :
    (loopDetected a t url).Calls fun o : ClientOp => o.asked = none := by
  refine .bind (.op rfl fun _ => .bind (p := file (.saveIncidentState _)) (calls_file rfl)
    fun _ => .ret) fun n => .ite ?_ .err
  refine .bind (.op rfl fun _ => calls_file rfl) fun _ => .bind ?_ fun _ => .ret
  exact .op rfl fun _ => calls_file rfl

theorem yields_loopDetected (a : PollArgs) (t : Traversal) (url : String) :
    (loopDetected a t url).Yields fun r => ∃ counts, r = .resync counts := by
  refine yields_bind (R := fun _ => True) yields_true fun n _ => ?_
  by_cases h : a.deltaLoopResyncThreshold ≤ n
  · simp only [if_pos h]
    exact yields_bind yields_true fun _ _ => yields_bind yields_true fun _ _ => ⟨_, rfl⟩
  · simp only [if_neg h]
    trivial

theorem seen_noteReplays (py : PyValues) (t : Traversal) (payload : Payload) :
    (noteReplays py t payload).seenNextLinks = t.seenNextLinks := by
  unfold noteReplays
  simp only
  split <;> rfl

theorem yields_downloadPage (lib : ClientLib) (a : PollArgs) (t : Traversal)
    (cs : List RemoteCandidate) :
    (downloadPage lib a t cs).Yields fun t' => t'.seenNextLinks = t.seenNextLinks := by
  unfold downloadPage
  simp only
  by_cases h : cs ≠ [] ∧ ∀ n ∈ remainingDownloadBudget a t, 0 < n
  · rw [if_pos h]
    refine yields_bind yields_true fun d _ => ?_
    by_cases hp : a.hasProcessor ∧ d.rows ≠ []
    · simp only [if_pos hp]
      refine yields_bind (R := fun _ => True) yields_true fun done _ => ?_
      cases done with
      | false => trivial
      | true => rfl
    · simp only [if_neg hp]
      rfl
  · rw [if_neg h]
    rfl

/-- Only the loop itself adds to the links seen. -/
theorem yields_processDeltaPage (lib : ClientLib) (a : PollArgs) (t : Traversal)
    (payload : Payload) : (processDeltaPage lib a t payload).Yields fun r =>
      ∀ link t', r = .next link t' → t'.seenNextLinks = t.seenNextLinks := by
  refine yields_bind yields_true fun _ _ => yields_bind yields_true fun reducer _ =>
    yields_bind yields_true fun _ _ => yields_bind yields_true fun cs _ =>
    yields_bind (yields_downloadPage lib a _ cs) fun t' ht' => ?_
  have hseen : t'.seenNextLinks = t.seenNextLinks := ht'.trans (seen_noteReplays _ t payload)
  cases nextLink lib.toPyValues payload with
  | none => rintro link t'' ⟨⟩; exact hseen
  | some l =>
    refine yields_bind yields_true fun _ _ => ?_
    rintro link t'' ⟨⟩
    exact hseen

/-- Behind a link that was fetched, a stretch that is part of no page. -/
theorem Walked.fetched {a : PollArgs} {url : String} {seen : List String} {n : Nat}
    {items os : List ClientOp} (hitems : ∀ o ∈ items, o.OffPage) (hnew : url ∉ seen)
    (h : Walked (url :: seen) n os) (w : ClientState) {r : Except (Option String) Payload}
    {w' : ClientState} (hrun : (fetchDeltaPage a url).run (clientHandle out) w = (.ok r, w')) :
    Walked seen (n + 1)
      (.monotonic :: ((fetchDeltaPage a url).ops (clientHandle out) w ++ (items ++ os))) := by
  refine Walked.page ((calls_fetchDeltaPage a url).ops w) ?_ hitems hnew h
  rcases fetchDeltaPage_cases a url with ⟨e, he⟩ | ⟨k, hk⟩
  · rw [he] at hrun
    cases hrun
  · rw [hk]
    rfl

theorem walked_nil (seen : List String) (n : Nat) : Walked seen n [] :=
  walked_of_not_asked (by simp) seen n

/-- One turn of the loop, when the rest of the walk is as it should be. -/
theorem walked_turn (lib : ClientLib) (a : PollArgs) (t : Traversal) (url : String) (n : Nat)
    {rest : Outcome → ClientFlow Outcome} (hresync : ∀ counts, rest (.resync counts) =
      .ret (.resync counts))
    (hnext : ∀ link t' w, Walked t'.seenNextLinks n ((rest (.next link t')).ops (clientHandle out) w))
    (w : ClientState) :
    Walked t.seenNextLinks (n + 1)
      (.monotonic :: (deltaPage lib a t url >>= rest).ops (clientHandle out) w) := by
  unfold deltaPage
  by_cases hseen : t.seenNextLinks.contains url = true
  · rw [if_pos hseen]
    have hnone := (not_asked_loopDetected a t url).ops (H := clientHandle out) w
    refine walked_of_not_asked ?_ _ _
    rcases hr : (loopDetected a t url).run (clientHandle out) w with ⟨e | r, w'⟩
    · rw [ops_bind_error hr]
      simpa [ClientOp.asked] using hnone
    · obtain ⟨counts, rfl⟩ := (yields_loopDetected a t url).of_run (congrArg Prod.fst hr)
      rw [ops_bind_ok hr, hresync]
      simpa [ClientOp.asked] using hnone
  · rw [if_neg hseen, Prog.bind_assoc]
    have hnew : url ∉ t.seenNextLinks := by simpa using hseen
    rcases hr : (fetchDeltaPage a url).run (clientHandle out) w with ⟨e | r, w'⟩
    · rw [ops_bind_error hr]
      rcases fetchDeltaPage_cases a url with ⟨e, he⟩ | ⟨k, hk⟩
      · rw [he]
        exact walked_of_not_asked (by simp [ClientOp.asked]) _ _
      · have hpage : Walked t.seenNextLinks (n + 1)
            (.monotonic :: ((fetchDeltaPage a url).ops (clientHandle out) w ++ ([] ++ []))) :=
          Walked.page ((calls_fetchDeltaPage a url).ops w) (by rw [hk]; rfl) (by simp) hnew
            (walked_nil _ n)
        simpa using hpage
    · rw [ops_bind_ok hr]
      cases r with
      | error resyncUrl =>
        simp only [Prog.bind_assoc]
        have hoff := (offPage_markResyncRequired a.accountName url "delta_resync_required_410"
          resyncUrl).ops (H := clientHandle out) w'
        rcases hm : (markResyncRequired a.accountName url "delta_resync_required_410"
          resyncUrl).run (clientHandle out) w' with ⟨e | u, w''⟩
        · rw [ops_bind_error hm]
          simpa using Walked.fetched hoff hnew (walked_nil _ n) w hr
        · rw [ops_bind_ok hm]
          simpa [hresync] using Walked.fetched hoff hnew (walked_nil _ n) w hr
      | ok payload =>
        simp only
        have hoff := (offPage_processDeltaPage lib a
          { t with seenNextLinks := url :: t.seenNextLinks } payload).ops (H := clientHandle out) w'
        rcases hp : (processDeltaPage lib a { t with seenNextLinks := url :: t.seenNextLinks }
          payload).run (clientHandle out) w' with ⟨e | r, w''⟩
        · rw [ops_bind_error hp]
          simpa using Walked.fetched hoff hnew (walked_nil _ n) w hr
        · rw [ops_bind_ok hp]
          refine Walked.fetched hoff hnew ?_ w hr
          cases r with
          | resync counts =>
            rw [hresync]
            exact walked_nil _ n
          | next link t' =>
            have hlinks : t'.seenNextLinks = url :: t.seenNextLinks :=
              (yields_processDeltaPage lib a _ payload).of_run (congrArg Prod.fst hp) link t' rfl
            rw [← hlinks]
            exact hnext link t' w''

theorem walked_deltaPages (out : Outside) (lib : ClientLib) (a : PollArgs) (start : Int) :
    ∀ (remaining : Nat) (next : Option String) (t : Traversal) (w : ClientState),
      Walked t.seenNextLinks remaining
        ((deltaPages lib a start remaining next t).ops (clientHandle out) w) := by
  intro remaining
  induction remaining with
  | zero =>
    intro next t w
    have hcalls : (deltaPages lib a start 0 next t).Calls fun o : ClientOp => o.asked = none := by
      unfold deltaPages
      cases truthy next with
      | none => exact .ret
      | some url => exact .ite .ret (.op rfl fun _ => .ite .err .err)
    exact walked_of_not_asked (hcalls.ops w) _ _
  | succ remaining ih =>
    intro next t w
    unfold deltaPages
    cases truthy next with
    | none => exact walked_of_not_asked (by simp) _ _
    | some url =>
      simp only
      split
      · exact walked_of_not_asked (by simp) _ _
      · rw [call_bind, ops_op]
        split
        · exact walked_of_not_asked (by simp [ClientOp.asked]) _ _
        · refine walked_turn lib a t url remaining ?_ ?_ _
          · exact fun _ => rfl
          · exact fun link t' w => ih link t' w

theorem head_deltaPages (out : Outside) (lib : ClientLib) (a : PollArgs) (start : Int)
    (remaining : Nat) (next : Option String) (t : Traversal) (w : ClientState) :
    ((deltaPages lib a start remaining next t).ops (clientHandle out) w).head?.bind
      ClientOp.asked = none := by
  unfold deltaPages
  cases truthy next with
  | none => rfl
  | some url =>
    simp only
    split
    · rfl
    · rw [call_bind, ops_op]
      rfl

/-! ## One poll -/

theorem ClientOp.Aside.asked {o : ClientOp} (h : o.Aside) : o.asked = none := by
  cases o with
  | get url bearer =>
    cases bearer with
    | none => rfl
    | some _ => exact h.elim
  | _ => rfl

theorem not_asked_finishPoll (a : PollArgs) (t : Traversal) :
    (finishPoll a t).Calls fun o : ClientOp => o.asked = none := by
  refine .ite .err (.bind (.op rfl fun _ => .ret) fun _ => .bind ?_ fun _ =>
    .bind ((aside_armBreakers a t).imp fun _ => ClientOp.Aside.asked) fun _ => .ret)
  cases t.deltaLink with
  | none => exact .ret
  | some link => exact .bind (calls_file rfl) fun _ => calls_file rfl

/-- Operations that ask nothing, before and behind a walk. -/
theorem Walked.between {seen : List String} {n : Nat} {xs os ys : List ClientOp}
    (hxs : ∀ o ∈ xs, o.asked = none) (hhead : os.head?.bind ClientOp.asked = none)
    (h : Walked seen n os) (hys : ∀ o ∈ ys, o.asked = none) : Walked seen n (xs ++ (os ++ ys)) := by
  have hheadys : ys.head?.bind ClientOp.asked = none := by
    cases ys with
    | nil => rfl
    | cons y ys => exact hys y (by simp)
  have hheados : (os ++ ys).head?.bind ClientOp.asked = none := by
    cases os with
    | nil => exact hheadys
    | cons o os => exact hhead
  have hpages : pageUrls (xs ++ (os ++ ys)) = pageUrls os := by
    rw [pageUrls_append hheados, pageUrls_of_not_asked hxs, pageUrls_append hheadys,
      pageUrls_of_not_asked hys, List.nil_append, List.append_nil]
  refine ⟨?_, ?_, ?_, fun o ho url hurl => ?_⟩ <;> rw [hpages]
  · exact h.bounded
  · exact h.once
  · exact h.fresh
  · simp only [List.mem_append] at ho
    rcases ho with ho | ho | ho
    · rw [hxs o ho] at hurl; cases hurl
    · exact h.rest o ho url hurl
    · rw [hys o ho] at hurl; cases hurl

theorem walked_pollAccountOnce (lib : ClientLib) (a : PollArgs) (out : Outside) (w : ClientState) :
    Walked [] a.maxDeltaPages.toNat ((pollAccountOnce lib a).ops (clientHandle out) w) := by
  have hcalls : loadCursor.Calls fun o : ClientOp => o.asked = none :=
    .bind (.op rfl fun _ => .ret) fun _ => .ret
  have hload := hcalls.ops (H := clientHandle out) w
  unfold pollAccountOnce
  rcases hl : loadCursor.run (clientHandle out) w with ⟨e | cursor, w₁⟩
  · rw [ops_bind_error hl]
    exact walked_of_not_asked hload _ _
  · rw [ops_bind_ok hl]
    have hprepare := ((aside_preparePoll a).imp fun _ => ClientOp.Aside.asked).ops
      (H := clientHandle out) w₁
    rcases hp : (preparePoll a).run (clientHandle out) w₁ with ⟨e | start, w₂⟩
    · rw [ops_bind_error hp]
      exact walked_of_not_asked (List.forall_mem_append.mpr ⟨hload, hprepare⟩) _ _
    · rw [ops_bind_ok hp, ← List.append_assoc]
      have hbefore := List.forall_mem_append.mpr ⟨hload, hprepare⟩
      cases start with
      | none => exact walked_of_not_asked (by simpa using hbefore) _ _
      | some start =>
        have hwalk : Walked [] _ _ := walked_deltaPages out lib a start a.maxDeltaPages.toNat
          (cursor.getD a.initialUrl) .start w₂
        have hhead := head_deltaPages out lib a start a.maxDeltaPages.toNat
          (cursor.getD a.initialUrl) .start w₂
        simp only
        rcases hd : (deltaPages lib a start a.maxDeltaPages.toNat (cursor.getD a.initialUrl)
          .start).run (clientHandle out) w₂ with ⟨e | r, w₃⟩
        · rw [ops_bind_error hd]
          simpa using hwalk.between hbefore hhead (List.forall_mem_nil _)
        · rw [ops_bind_ok hd]
          cases r with
          | resync counts => exact hwalk.between hbefore hhead (by simp)
          | next link t => exact hwalk.between hbefore hhead ((not_asked_finishPoll a t).ops w₃)

end

/-! ## The loop as it is written -/

/-- `while next_url`, with the pages counted up; `none` when the turns run out.
mirrors src/nightfall_photo_ingress/adapters/onedrive/client.py:671-859 -/
def deltaWhile (lib : ClientLib) (a : PollArgs) (startMonotonic : Int) :
    Nat → Nat → Option String → Traversal → ClientFlow (Option Outcome)
  | 0, _, _, _ => return none
  | turns + 1, pageCount, next, t =>
    match truthy next with
    | none => return some (.next none t)
    | some url =>
      if 0 < a.maxDownloads ∧ a.maxDownloads ≤ t.downloadedPaths.length then
        return some (.next next { t with haltedDueDownloadBudget := true })
      else do
        let now ← call (S := ClientOps) .monotonic
        if seconds a.maxRuntimeSeconds < now - startMonotonic then
          throw (pollError ("Delta polling exceeded runtime limit for account '" ++ a.accountName
            ++ "'") "delta_runtime_limit_exceeded")
        else if a.maxDeltaPages ≤ pageCount then
          throw (pollError ("Delta polling exceeded max pages for account '" ++ a.accountName
            ++ "'") "delta_page_limit_exceeded")
        else do
          match ← deltaPage lib a t url with
          | .resync counts => return some (.resync counts)
          | .next link t => deltaWhile lib a startMonotonic turns (pageCount + 1) link t

/-- `pollAccountOnce` with this loop, given a number of turns. -/
def pollWhile (lib : ClientLib) (a : PollArgs) (turns : Nat) : ClientFlow (Option PollResult) := do
  let cursor ← loadCursor
  let deltaUrl := cursor.getD a.initialUrl
  match ← preparePoll a with
  | none => return some ⟨[], 0, ∅, recordGhostReason ∅ "delta_breaker_cooldown_active" 1⟩
  | some startMonotonic => do
    match ← deltaWhile lib a startMonotonic turns 0 deltaUrl .start with
    | none => return none
    | some (.resync counts) => return some ⟨[], 0, ∅, counts⟩
    | some (.next _ t) => return some (← finishPoll a t)

theorem deltaWhile_eq (lib : ClientLib) (a : PollArgs) (start : Int) :
    ∀ (turns pageCount : Nat) (next : Option String) (t : Traversal),
      a.maxDeltaPages.toNat - pageCount < turns →
      deltaWhile lib a start turns pageCount next t =
        (do return some (← deltaPages lib a start (a.maxDeltaPages.toNat - pageCount) next t)) := by
  intro turns
  induction turns with
  | zero => intro pageCount next t h; omega
  | succ turns ih =>
    intro pageCount next t h
    unfold deltaWhile deltaPages
    cases truthy next with
    | none => rfl
    | some url =>
      simp only
      split
      · rfl
      · rw [call_bind, call_bind, op_bind]
        refine congrArg _ (funext fun now => ?_)
        split
        · rfl
        · by_cases hmax : a.maxDeltaPages ≤ pageCount
          · have hzero : a.maxDeltaPages.toNat - pageCount = 0 := by omega
            rw [if_pos hmax, hzero]
            rfl
          · obtain ⟨left, hleft⟩ : ∃ left, a.maxDeltaPages.toNat - pageCount = left + 1 :=
              ⟨a.maxDeltaPages.toNat - pageCount - 1, by omega⟩
            have hnext : a.maxDeltaPages.toNat - (pageCount + 1) = left := by omega
            rw [if_neg hmax, hleft]
            simp only [Prog.bind_assoc]
            refine congrArg _ (funext fun r => ?_)
            cases r with
            | resync counts => rfl
            | next link t' =>
              simp only
              rw [ih (pageCount + 1) link t' (by omega), hnext]

/-- With more turns than it may fetch pages, the loop as it is written ends. -/
theorem pollWhile_eq (lib : ClientLib) (a : PollArgs) {turns : Nat}
    (h : a.maxDeltaPages.toNat < turns) :
    pollWhile lib a turns = (do return some (← pollAccountOnce lib a)) := by
  unfold pollWhile pollAccountOnce
  simp only [Prog.bind_assoc]
  refine congrArg _ (funext fun cursor => congrArg _ (funext fun prepared => ?_))
  cases prepared with
  | none => rfl
  | some start =>
    simp only [Prog.bind_assoc]
    rw [deltaWhile_eq lib a start turns 0 _ _ (by omega), Nat.sub_zero]
    simp only [Prog.bind_assoc]
    refine congrArg _ (funext fun r => ?_)
    cases r <;> rfl

/-- One poll against any server: at most `max_delta_pages` pages are fetched, no
URL twice, everything else asked with the token is about an item, and the loop
ends within one turn more than pages it may fetch. -/
theorem poll_ends (lib : ClientLib) (a : PollArgs) (out : Outside) (w : ClientState) :
    (pageUrls ((pollAccountOnce lib a).ops (clientHandle out) w)).length ≤ a.maxDeltaPages.toNat ∧
      (pageUrls ((pollAccountOnce lib a).ops (clientHandle out) w)).Nodup ∧
      (∀ o ∈ (pollAccountOnce lib a).ops (clientHandle out) w, ∀ url, o.asked = some url →
        url ∈ pageUrls ((pollAccountOnce lib a).ops (clientHandle out) w) ∨
          ∃ itemId, url = itemUrl itemId) ∧
      ∀ turns, a.maxDeltaPages.toNat < turns →
        pollWhile lib a turns = (do return some (← pollAccountOnce lib a)) := by
  have h := walked_pollAccountOnce lib a out w
  exact ⟨h.bounded, h.once, h.rest, fun turns hturns => pollWhile_eq lib a hturns⟩

end Nightfall.OneDrive
