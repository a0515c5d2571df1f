import Nightfall.L7OneDrive.Poll

/-!
# After a required resync

A poll that learns of a resync (a 410, or the loop threshold) writes a marker
beside the cursor file and returns. No code reads the marker back and the cursor
file stays, so the next poll asks for the rejected URL again.

* `polled_pollAccountOnce`: where one poll starts, and from where the next one
  will start after a resync was recorded.
* `first_request`: the first request of any later polls.
* `resync_honoured_iff`: exactly the runs in which whatever was rejected reads
  back as the initial URL, or nothing is requested any more, honour the resync.
-/
namespace Nightfall.OneDrive
open Nightfall.Core Storage Prog

/-- The URL a poll would start from. -/
def startUrl (initial : String) (w : ClientState) : String := (cursorOf w.cursorFile).getD initial

/-- What a stored link is read back as: a blank one as no cursor. -/
def readBack (initial link : String) : String := (cursorOf (some link)).getD initial

theorem startUrl_congr {initial : String} {w w' : ClientState} (h : w'.cursorFile = w.cursorFile) :
    startUrl initial w' = startUrl initial w := by rw [startUrl, startUrl, h]

theorem cursorOf_some {text : Option String} {url : String} (h : cursorOf text = some url) :
    url ≠ "" ∧ pyStrip url = url := by
  obtain ⟨s, rfl⟩ : ∃ s, text = some s := by
    cases text with
    | none => cases h
    | some s => exact ⟨s, rfl⟩
  simp only [cursorOf, truthy, Option.map_some, Option.filter_some] at h
  split at h
  · next hne =>
    cases h
    exact ⟨by simpa using hne, pyStrip_pyStrip s⟩
  · cases h

/-- A start URL is read back as it is. -/
theorem readBack_startUrl (root : String) (w : ClientState) :
    startUrl (buildInitialDeltaUrl root) w ≠ "" ∧
      readBack (buildInitialDeltaUrl root) (startUrl (buildInitialDeltaUrl root) w) =
        startUrl (buildInitialDeltaUrl root) w := by
  have hread : ∀ url : String, url ≠ "" → pyStrip url = url →
      readBack (buildInitialDeltaUrl root) url = url := by
    intro url hne hstrip
    simp [readBack, cursorOf, truthy, hstrip, hne, Option.filter_some]
  have hinit : buildInitialDeltaUrl root ≠ "" := by
    intro h
    have := congrArg String.toList h
    simp [buildInitialDeltaUrl, graphBase] at this
  unfold startUrl
  cases hc : cursorOf w.cursorFile with
  | none => exact ⟨hinit, hread _ hinit (pyStrip_buildInitialDeltaUrl root)⟩
  | some url => exact ⟨(cursorOf_some hc).1, hread _ (cursorOf_some hc).1 (cursorOf_some hc).2⟩

/-! ## Requests -/

/-- The requests sent since `w₀` began with the URL it would start from. -/
structure Started (initial : String) (w₀ w : ClientState) : Prop where
  requests : w₀.requests <+: w.requests
  first : ∀ u, w.requests[w₀.requests.length]? = some u → u = startUrl initial w₀

theorem Started.grow {initial : String} {w₀ w w' : ClientState} (h : Started initial w₀ w)
    (hsome : w.requests ≠ w₀.requests) (hgrow : w.requests <+: w'.requests) :
    Started initial w₀ w' := by
  refine ⟨h.requests.trans hgrow, fun u hu => h.first u ?_⟩
  have hlt : w₀.requests.length < w.requests.length := by
    refine lt_of_le_of_ne h.requests.length_le fun heq => hsome ?_
    exact (h.requests.eq_of_length heq).symm
  obtain ⟨more, hmore⟩ := hgrow
  rw [← hmore, List.getElem?_append_left hlt] at hu
  exact hu

/-- Requests for `url` alone. -/
structure Asked (url : String) (w w' : ClientState) : Prop where
  cursorFile : w'.cursorFile = w.cursorFile
  resyncs : w'.resyncs = w.resyncs
  requests : ∃ more, w'.requests = w.requests ++ more ∧ ∀ u ∈ more, u = url

theorem Asked.trans {url : String} {u v w : ClientState} (h : Asked url u v) (h' : Asked url v w) :
    Asked url u w := by
  refine ⟨h'.cursorFile.trans h.cursorFile, h'.resyncs.trans h.resyncs, ?_⟩
  obtain ⟨more, hmore, hall⟩ := h.requests
  obtain ⟨more', hmore', hall'⟩ := h'.requests
  refine ⟨more ++ more', by rw [hmore', hmore, List.append_assoc], fun x hx => ?_⟩
  exact (List.mem_append.mp hx).elim (hall x) (hall' x)

theorem asked_step {out : Outside} {url : String} (o : ClientOp) (w : ClientState)
    (h : o.Asks url) : Asked url w (clientHandle out o w).2 := by
  cases o with
  | get u bearer =>
    cases bearer with
    | none => exact h.elim
    | some _ => exact ⟨rfl, rfl, [u], rfl, fun x hx => (List.mem_singleton.mp hx).trans h⟩
  | refreshAccessToken => exact ⟨rfl, rfl, [], by simp [clientHandle, effect], by simp⟩
  | sleep _ _ _ => exact ⟨rfl, rfl, [], by simp [clientHandle, effect], by simp⟩
  | countRetry _ => exact ⟨rfl, rfl, [], by simp [clientHandle, effect], by simp⟩
  | _ => exact h.elim

theorem asked_of_calls {out : Outside} {α : Type} {url : String} {p : ClientFlow α}
    (h : p.Calls (ClientOp.Asks url)) {w : ClientState} :
    p.Wp (clientHandle out) w fun _ w' => Asked url w w' :=
  h.wp (R := Asked url) (fun _ => ⟨rfl, rfl, [], by simp, by simp⟩) (fun _ _ _ => Asked.trans)
    asked_step fun _ _ hw => hw

/-- A page, or the news that it is gone, comes from a request. -/
theorem asked_fetchDeltaPage {out : Outside} (a : PollArgs) (url : String) (w : ClientState) :
    (fetchDeltaPage a url).Wp (clientHandle out) w fun r w' =>
      Asked url w w' ∧ ∀ x, r = .ok x → w'.requests ≠ w.requests := by
  have hcalls := calls_fetchDeltaPage a url
  unfold fetchDeltaPage graphGetJson at hcalls ⊢
  generalize a.policy.maxAttempts.toNat = n at hcalls ⊢
  cases n with
  | zero =>
    refine wp_err.mpr ⟨⟨rfl, rfl, [], by simp, by simp⟩, fun x hx => by cases hx⟩
  | succ n =>
    refine wp_op.mpr (wp_mono ?_ (asked_of_calls (Calls.next hcalls _)))
    intro r w' hasked
    refine ⟨(asked_step (.get url (some a.accessToken)) w rfl).trans hasked, fun x _ heq => ?_⟩
    obtain ⟨more, hmore, -⟩ := hasked.requests
    have hlen := congrArg List.length (heq ▸ hmore)
    simp [clientHandle, effect] at hlen

/-- What the first request of a poll adds. -/
theorem Started.ask {initial url : String} {w₀ w w' : ClientState} (h : Started initial w₀ w)
    (hfirst : w.requests = w₀.requests → url = startUrl initial w₀) (hasked : Asked url w w') :
    Started initial w₀ w' := by
  obtain ⟨more, hmore, hall⟩ := hasked.requests
  by_cases hsome : w.requests = w₀.requests
  · refine ⟨hmore ▸ h.requests.trans (List.prefix_append _ _), fun u hu => ?_⟩
    rw [hmore, hsome, List.getElem?_append_right le_rfl, Nat.sub_self] at hu
    rw [hall u (List.mem_of_getElem? hu), hfirst hsome]
  · exact h.grow hsome (hmore ▸ List.prefix_append _ _)

/-! ## One poll -/

/-- Before a page: where the traversal stands, and that the cursor file reads
back as the link in hand. -/
structure Walk (initial : String) (w₀ w : ClientState) (t : Traversal) (next : Option String) :
    Prop where
  started : Started initial w₀ w
  resyncs : w.resyncs = w₀.resyncs
  idle : w.requests = w₀.requests → w.cursorFile = w₀.cursorFile ∧
    truthy next = some (startUrl initial w₀) ∧ t.deltaLink = none
  stored : ∀ url, truthy next = some url → startUrl initial w = readBack initial url

/-- After the poll: the next one starts from what was rejected, if anything was;
without a request it starts where this one would have. -/
structure Polled (initial : String) (w₀ w : ClientState) : Prop where
  started : Started initial w₀ w
  idle : w.requests = w₀.requests → startUrl initial w = startUrl initial w₀
  recorded : ∃ recs, w.resyncs = w₀.resyncs ++ recs ∧
    ∀ rec ∈ recs, startUrl initial w = readBack initial rec.1

/-- Once a page was fetched. -/
structure Fetched (initial : String) (w₀ w : ClientState) : Prop where
  started : Started initial w₀ w
  resyncs : w.resyncs = w₀.resyncs
  asked : w.requests ≠ w₀.requests

variable {initial : String} {w₀ w w' : ClientState} {t : Traversal}

theorem Started.congr (h : Started initial w₀ w) (hr : w'.requests = w.requests) :
    Started initial w₀ w' := ⟨hr ▸ h.requests, hr ▸ h.first⟩

theorem Walk.untouched {next : Option String} (h : Walk initial w₀ w t next)
    (hw : Untouched w w') : Walk initial w₀ w' t next where
  started := h.started.congr hw.requests
  resyncs := hw.resyncs.trans h.resyncs
  idle hr := by
    obtain ⟨hc, hrest⟩ := h.idle (hw.requests ▸ hr)
    exact ⟨hw.cursorFile.trans hc, hrest⟩
  stored url hurl := (startUrl_congr hw.cursorFile).trans (h.stored url hurl)

theorem Walk.polled {next : Option String} (h : Walk initial w₀ w t next) :
    Polled initial w₀ w where
  started := h.started
  idle hr := startUrl_congr (h.idle hr).1
  recorded := ⟨[], by simp [h.resyncs], by simp⟩

theorem Polled.untouched (h : Polled initial w₀ w) (hw : Untouched w w') :
    Polled initial w₀ w' where
  started := h.started.congr hw.requests
  idle hr := (startUrl_congr hw.cursorFile).trans (h.idle (hw.requests ▸ hr))
  recorded := by
    obtain ⟨recs, hrecs, hall⟩ := h.recorded
    exact ⟨recs, hw.resyncs.trans hrecs, fun rec hrec =>
      (startUrl_congr hw.cursorFile).trans (hall rec hrec)⟩

theorem Fetched.grow (h : Fetched initial w₀ w) (hreq : w.requests <+: w'.requests)
    (hres : w'.resyncs = w.resyncs) : Fetched initial w₀ w' where
  started := h.started.grow h.asked hreq
  resyncs := hres.trans h.resyncs
  asked heq := by
    have hle := (heq ▸ hreq).length_le
    have hge := h.started.requests.length_le
    exact h.asked (h.started.requests.eq_of_length (by omega)).symm

theorem Fetched.polled (h : Fetched initial w₀ w) : Polled initial w₀ w where
  started := h.started
  idle hr := absurd hr h.asked
  recorded := ⟨[], by simp [h.resyncs], by simp⟩

/-- A file operation is done or raises. -/
theorem wp_file {out : Outside} {f : FileOp} {Q : Except ClientError Unit → ClientState → Prop}
    (hdone : Q (.ok ()) { f.apply w with tick := w.tick + 1 })
    (hfail : Q (.error .raised) { w with tick := w.tick + 1 }) :
    (file f).Wp (clientHandle out) w Q := by
  refine wp_op.mpr ?_
  simp only [clientHandle, effect]
  split
  · exact wp_err.mpr hfail
  · exact wp_ret.mpr hdone

theorem wp_orRaise {out : Outside} {α : Type} {x : Except Unit α}
    {Q : Except ClientError α → ClientState → Prop} (herror : Q (.error .raised) w)
    (hok : ∀ a, x = .ok a → Q (.ok a) w) : (orRaise x).Wp (clientHandle out) w Q := by
  cases x with
  | error _ => exact wp_err.mpr herror
  | ok a => exact wp_ret.mpr (hok a rfl)

theorem truthy_of_ne {url : String} (h : url ≠ "") : truthy (some url) = some url := by
  simp [truthy, Option.filter_some, h]

/-- Recording a resync for the link in hand leaves the cursor file alone. -/
theorem polled_markResyncRequired {out : Outside} {url : String} (hne : url ≠ "")
    (h : Walk initial w₀ w t (some url)) (name reason : String) (resyncUrl : Option String) :
    (markResyncRequired name url reason resyncUrl).Wp (clientHandle out) w
      fun _ w' => Polled initial w₀ w' := by
  have hstored : startUrl initial w = readBack initial url := h.stored url (truthy_of_ne hne)
  refine wp_op.mpr (wp_file ?_ ?_)
  · refine ⟨h.started.congr rfl, fun hr => startUrl_congr (h.idle hr).1,
      [(url, resyncUrl)], ?_, ?_⟩
    · exact congrArg (· ++ [(url, resyncUrl)]) h.resyncs
    · intro rec hrec
      rw [List.mem_singleton.mp hrec]
      exact hstored
  · exact h.polled.untouched ⟨rfl, rfl, rfl, rfl, rfl⟩

/-- How a page leaves the traversal. -/
def PageDone (initial : String) (w₀ : ClientState) :
    Except ClientError Outcome → ClientState → Prop
  | .ok (.next link t), w => Walk initial w₀ w t link
  | _, w => Polled initial w₀ w

theorem done_loopDetected {out : Outside} (a : PollArgs) {url : String} (hne : url ≠ "")
    (h : Walk initial w₀ w t (some url)) :
    (loopDetected a t url).Wp (clientHandle out) w (PageDone initial w₀) := by
  refine wp_bind.mpr (untouched_of_calls aside_incrementLoopIncident fun r w' hw => ?_)
  have hwalk := h.untouched hw
  rcases r with e | n
  · exact hwalk.polled
  · rw [thenWp_ok]
    split
    · refine wp_bind.mpr (wp_mono ?_ (polled_markResyncRequired hne hwalk _ _ _))
      intro r w₁ hpolled
      rcases r with e | _
      · exact hpolled
      · refine wp_bind.mpr (untouched_of_calls aside_resetLoopIncidents fun r w₂ hw₂ => ?_)
        rcases r with e | _
        · exact hpolled.untouched hw₂
        · exact wp_ret.mpr (hpolled.untouched hw₂)
    · exact wp_err.mpr hwalk.polled

theorem fetched_checkpoint {out : Outside} (link : String) (h : Fetched initial w₀ w) :
    (checkpoint link).Wp (clientHandle out) w fun r w' =>
      Fetched initial w₀ w' ∧ (r = .ok () → w'.cursorFile = some link) := by
  refine wp_bind.mpr (wp_file ?_ ?_)
  · refine wp_file ?_ ?_
    · exact ⟨h.grow List.prefix_rfl rfl, fun _ => rfl⟩
    · exact ⟨h.grow List.prefix_rfl rfl, fun _ => rfl⟩
  · exact ⟨h.grow List.prefix_rfl rfl, fun hr => by cases hr⟩

theorem truthy_some {link url : String} (h : truthy (some link) = some url) :
    url = link ∧ url ≠ "" := by
  simp only [truthy, Option.filter_some] at h
  split at h
  · next hne =>
    cases h
    exact ⟨rfl, by simpa using hne⟩
  · cases h

theorem done_storeNextLink {out : Outside} (h : Fetched initial w₀ w) (link : Option String) :
    (storeNextLink t link).Wp (clientHandle out) w (PageDone initial w₀) := by
  cases link with
  | none =>
    exact wp_ret.mpr
      ⟨h.started, h.resyncs, fun hr => absurd hr h.asked, fun url hurl => by cases hurl⟩
  | some link =>
    refine wp_bind.mpr (wp_mono ?_ (fetched_checkpoint link h))
    rintro (e | _) w' ⟨h', hcursor⟩
    · exact h'.polled
    · refine wp_ret.mpr ⟨h'.started, h'.resyncs, fun hr => absurd hr h'.asked, ?_⟩
      intro url hurl
      rw [startUrl, hcursor rfl, (truthy_some hurl).1, readBack]

theorem done_processDeltaPage {out : Outside} (lib : ClientLib) (a : PollArgs) (payload : Payload)
    (h : Fetched initial w₀ w) :
    (processDeltaPage lib a t payload).Wp (clientHandle out) w (PageDone initial w₀) := by
  have hstep : ∀ {w : ClientState}, Fetched initial w₀ w →
      Fetched initial w₀ (clientHandle out .utcnow w).2 := fun h => h.grow List.prefix_rfl rfl
  rw [processDeltaPage, call_bind, wp_op]
  refine wp_bind.mpr (wp_orRaise (hstep h).polled fun reducer _ => ?_)
  rw [thenWp_ok, call_bind, wp_op]
  refine wp_bind.mpr (wp_orRaise (hstep (hstep h)).polled fun candidates _ => ?_)
  refine wp_bind.mpr (grows_of_calls
    ((items_downloadPage ..).imp fun _ => ClientOp.ForItems.keeps) fun r w' hgrow => ?_)
  have h' := (hstep (hstep h)).grow hgrow.requests hgrow.resyncs
  rcases r with e | t'
  · exact h'.polled
  · exact done_storeNextLink h' _

theorem done_deltaPage {out : Outside} (lib : ClientLib) (a : PollArgs) {url : String}
    (hne : url ≠ "") (h : Walk initial w₀ w t (some url)) :
    (deltaPage lib a t url).Wp (clientHandle out) w (PageDone initial w₀) := by
  unfold deltaPage
  split
  · exact done_loopDetected a hne h
  · refine wp_bind.mpr (wp_mono ?_ (asked_fetchDeltaPage a url w))
    rintro r w₁ ⟨hasked, hrequest⟩
    have hstarted : Started initial w₀ w₁ := by
      refine h.started.ask (fun hr => ?_) hasked
      have hstart := (h.idle hr).2.1
      rw [truthy_of_ne hne] at hstart
      exact Option.some.inj hstart
    have hwalk : Walk initial w₀ w₁ t (some url) := by
      refine ⟨hstarted, hasked.resyncs.trans h.resyncs, fun hr => ?_, fun u hu => ?_⟩
      · obtain ⟨more, hmore, -⟩ := hasked.requests
        obtain ⟨hc, hrest⟩ := h.idle (by
          have hle := h.started.requests.length_le
          have hlen := congrArg List.length (hr ▸ hmore)
          rw [List.length_append] at hlen
          exact (h.started.requests.eq_of_length (by omega)).symm)
        exact ⟨hasked.cursorFile.trans hc, hrest⟩
      · exact (startUrl_congr hasked.cursorFile).trans (h.stored u hu)
    rcases r with e | (resyncUrl | payload)
    · exact hwalk.polled
    · refine wp_bind.mpr (wp_mono ?_ (polled_markResyncRequired hne hwalk _ _ _))
      rintro (e | _) w₂ hpolled
      · exact hpolled
      · exact wp_ret.mpr hpolled
    · refine done_processDeltaPage lib a payload ⟨hstarted, hwalk.resyncs, fun hr => ?_⟩
      obtain ⟨more, hmore, -⟩ := hasked.requests
      have hle := h.started.requests.length_le
      have hlen := congrArg List.length (hr ▸ hmore)
      rw [List.length_append] at hlen
      refine hrequest _ rfl (hr.trans (h.started.requests.eq_of_length (by omega)))

/-- How the page loop ends: a traversal that may still store its delta link, or
the end of the poll. -/
def LoopDone (initial : String) (w₀ : ClientState) :
    Except ClientError Outcome → ClientState → Prop
  | .ok (.next _ t), w => Started initial w₀ w ∧ w.resyncs = w₀.resyncs ∧
      (w.requests = w₀.requests → w.cursorFile = w₀.cursorFile ∧ t.deltaLink = none)
  | _, w => Polled initial w₀ w

theorem Walk.loopDone {next link : Option String} {t' : Traversal}
    (h : Walk initial w₀ w t next) (ht : t'.deltaLink = t.deltaLink) :
    LoopDone initial w₀ (.ok (.next link t')) w :=
  ⟨h.started, h.resyncs, fun hr => ⟨(h.idle hr).1, ht.trans (h.idle hr).2.2⟩⟩

/-- Induction on the pages that may still be fetched. -/
theorem done_deltaPages {out : Outside} (lib : ClientLib) (a : PollArgs) (start : Int) :
    ∀ (remaining : Nat) {next : Option String} {t : Traversal} {w : ClientState},
      Walk initial w₀ w t next →
      (deltaPages lib a start remaining next t).Wp (clientHandle out) w (LoopDone initial w₀) := by
  intro remaining
  induction remaining with
  | zero =>
    intro next t w h
    unfold deltaPages
    split
    · exact wp_ret.mpr (h.loopDone rfl)
    · split
      · exact wp_ret.mpr (h.loopDone rfl)
      · rw [call_bind, wp_op]
        have h' := h.untouched (untouched_step out .monotonic w trivial)
        split <;> exact wp_err.mpr h'.polled
  | succ remaining ih =>
    intro next t w h
    unfold deltaPages
    split
    · exact wp_ret.mpr (h.loopDone rfl)
    · next url hurl =>
      split
      · exact wp_ret.mpr (h.loopDone rfl)
      · rw [call_bind, wp_op]
        have h' := h.untouched (untouched_step out .monotonic w trivial)
        split
        · exact wp_err.mpr h'.polled
        · have hnext : Walk initial w₀ (clientHandle out .monotonic w).2 t (some url) := by
            cases next with
            | none => cases hurl
            | some link => rwa [(truthy_some hurl).1]
          have hne : url ≠ "" := by
            cases next with
            | none => cases hurl
            | some link => exact (truthy_some hurl).2
          refine wp_bind.mpr (wp_mono ?_ (done_deltaPage lib a hne hnext))
          rintro (e | (⟨link, t'⟩ | counts)) w' hdone
          · exact hdone
          · exact ih hdone
          · exact wp_ret.mpr hdone

theorem polled_finishPoll {out : Outside} (a : PollArgs) {link : Option String}
    (h : LoopDone initial w₀ (.ok (.next link t)) w) :
    (finishPoll a t).Wp (clientHandle out) w fun _ w' => Polled initial w₀ w' := by
  obtain ⟨hstarted, hresyncs, hidle⟩ := h
  have hpolled : Polled initial w₀ w :=
    ⟨hstarted, fun hr => startUrl_congr (hidle hr).1, [], by simp [hresyncs], by simp⟩
  unfold finishPoll
  split
  · exact wp_err.mpr hpolled
  · rw [call_bind, wp_op]
    have hpolled' := hpolled.untouched (untouched_step out .monotonic w trivial)
    have hrest : ∀ {w : ClientState}, Polled initial w₀ w →
        (do
          let t ← armBreakers a t
          return (⟨t.downloadedPaths, (materializeReducedCandidates t.reducer).length, t.ghosts,
            t.reducer.anomalyCounts⟩ : PollResult) : ClientFlow PollResult).Wp (clientHandle out) w
          fun _ w' => Polled initial w₀ w' := by
      intro w hw
      refine wp_bind.mpr (untouched_of_calls (aside_armBreakers a t) fun r w' hw' => ?_)
      rcases r with e | t'
      · exact hw.untouched hw'
      · exact wp_ret.mpr (hw.untouched hw')
    cases hlink : t.deltaLink with
    | none => exact hrest hpolled'
    | some link =>
      have hfetched : Fetched initial w₀ (clientHandle out .monotonic w).2 := by
        refine ⟨hpolled'.started, hresyncs, fun hr => ?_⟩
        rw [(hidle hr).2] at hlink
        cases hlink
      refine wp_bind.mpr (wp_mono ?_ (fetched_checkpoint link hfetched))
      rintro (e | _) w' ⟨h', -⟩
      · exact h'.polled
      · exact hrest h'.polled

/-- One poll: it starts from the stored cursor, and what it records as rejected
is what the next one starts from. -/
theorem polled_pollAccountOnce (lib : ClientLib) (out : Outside) (a : PollArgs)
    (w : ClientState) :
    Polled a.initialUrl w ((pollAccountOnce lib a).run (clientHandle out) w).2 := by
  have hzero : Started a.initialUrl w w :=
    ⟨List.prefix_rfl, fun u hu => by simp at hu⟩
  suffices h : (pollAccountOnce lib a).Wp (clientHandle out) w
      fun _ w' => Polled a.initialUrl w w' from wp_iff.mp h
  refine wp_bind.mpr (wp_op.mpr (wp_ret.mpr (thenWp_ok.mpr ?_)))
  refine wp_bind.mpr (untouched_of_calls (aside_preparePoll a) fun r w' hw => ?_)
  have hun : Untouched w w' := ⟨hw.cursorFile, hw.resyncs, hw.requests, hw.handed, hw.ghosts⟩
  have hstart : Walk a.initialUrl w w' .start (some (startUrl a.initialUrl w)) := by
    refine ⟨hzero.congr hun.requests, hun.resyncs, fun _ => ⟨hun.cursorFile, ?_, rfl⟩, ?_⟩
    · exact truthy_of_ne (readBack_startUrl a.effectiveOnedriveRoot w).1
    · intro url hurl
      rw [startUrl_congr hun.cursorFile, (truthy_some hurl).1]
      exact (readBack_startUrl a.effectiveOnedriveRoot w).2.symm
  rcases r with e | (_ | startMonotonic)
  · exact hstart.polled
  · exact wp_ret.mpr hstart.polled
  · refine wp_bind.mpr (wp_mono ?_ (done_deltaPages lib a startMonotonic _ hstart))
    rintro (e | (⟨link, t⟩ | counts)) w₂ hdone
    · exact hdone
    · exact polled_finishPoll a hdone
    · exact wp_ret.mpr hdone

theorem polled_pollSingleAccount (lib : ClientLib) (out : Outside) (a : PollArgs)
    (w : ClientState) : Polled a.initialUrl w (pollSingleAccount lib out a w) := by
  have hpoll := polled_pollAccountOnce lib out a w
  have hafter := untouched_pollSingleAccount lib out a w
  have hurl : startUrl a.initialUrl (pollSingleAccount lib out a w) = startUrl a.initialUrl
      ((pollAccountOnce lib a).run (clientHandle out) w).2 := startUrl_congr hafter.cursorFile
  exact {
    started := hpoll.started.congr hafter.requests
    idle := fun h => hurl.trans (hpoll.idle (hafter.requests ▸ h))
    recorded := by rw [hafter.resyncs, hurl]; exact hpoll.recorded }

/-! ## Runs of polls -/

theorem runPolls_append (lib : ClientLib) (out : Outside) (before after : List PollArgs)
    (w : ClientState) :
    runPolls lib out (before ++ after) w = runPolls lib out after (runPolls lib out before w) := by
  induction before generalizing w with
  | nil => rfl
  | cons a before ih => exact ih _

/-- Whatever polls follow, their first request is for the URL the state would
start from; without one that URL stays. -/
theorem first_request {root : String} (lib : ClientLib) (out : Outside) :
    ∀ (polls : List PollArgs) (w : ClientState),
      (∀ a ∈ polls, a.effectiveOnedriveRoot = root) →
      Started (buildInitialDeltaUrl root) w (runPolls lib out polls w) ∧
      ((runPolls lib out polls w).requests = w.requests →
        startUrl (buildInitialDeltaUrl root) (runPolls lib out polls w) =
          startUrl (buildInitialDeltaUrl root) w)
  | [], w, _ => ⟨⟨List.prefix_rfl, fun u hu => by simp [runPolls] at hu⟩, fun _ => rfl⟩
  | a :: polls, w, hroot => by
    have hpoll := polled_pollSingleAccount lib out a w
    rw [PollArgs.initialUrl, hroot a List.mem_cons_self] at hpoll
    obtain ⟨hstarted, hidle⟩ := first_request lib out polls
      (pollSingleAccount lib out a w)
      fun b hb => hroot b (List.mem_cons_of_mem a hb)
    rw [runPolls]
    by_cases hsome : (pollSingleAccount lib out a w).requests = w.requests
    · refine ⟨⟨hsome ▸ hstarted.requests, fun u hu => ?_⟩, fun hr => ?_⟩
      · rw [← hpoll.idle hsome]
        exact hstarted.first u (hsome ▸ hu)
      · rw [hidle (hr.trans hsome.symm), hpoll.idle hsome]
    · refine ⟨hpoll.started.grow hsome hstarted.requests, fun hr => absurd ?_ hsome⟩
      have hle := hpoll.started.requests.length_le
      have hle' := (hr ▸ hstarted.requests).length_le
      exact (hpoll.started.requests.eq_of_length (by omega)).symm

/-- The requests the polls send from `w` on. -/
def requestsOf (lib : ClientLib) (out : Outside) (polls : List PollArgs) (w : ClientState) :
    List String := (runPolls lib out polls w).requests.drop w.requests.length

/-- The resyncs one poll records. -/
def resyncsOf (lib : ClientLib) (out : Outside) (a : PollArgs) (w : ClientState) :
    List (String × Option String) :=
  ((pollAccountOnce lib a).run (clientHandle out) w).2.resyncs.drop w.resyncs.length

/-- What is asked of the requests after a resync was recorded for `rejected`:
they begin with the recorded URL or the initial one, and none is for the cursor
that was rejected. The initial URL is no cursor. -/
structure Honoured (initial rejected : String) (resyncUrl : Option String) (later : List String) :
    Prop where
  start : ∀ u, later.head? = some u → resyncUrl = some u ∨ u = initial
  avoided : ∀ u ∈ later, u = readBack initial rejected → u = initial

/-- Every resync that some poll of the run records is honoured by the polls
after it. -/
def HonoursResyncs (lib : ClientLib) (out : Outside) (initial : String) (polls : List PollArgs)
    (w : ClientState) : Prop :=
  ∀ before a after, polls = before ++ a :: after →
    ∀ rec ∈ resyncsOf lib out a (runPolls lib out before w),
      Honoured initial rec.1 rec.2 (requestsOf lib out after (runPolls lib out (before ++ [a]) w))

/-- The first of the later requests is for what was rejected. -/
theorem head_requestsOf {root : String} {lib : ClientLib} {out : Outside} {a : PollArgs}
    {after : List PollArgs} {w : ClientState}
    (hroot : ∀ b ∈ a :: after, b.effectiveOnedriveRoot = root) {rec : String × Option String}
    (hrec : rec ∈ resyncsOf lib out a w) {u : String}
    (hu : (requestsOf lib out after (pollSingleAccount lib out a w)).head? =
      some u) : u = readBack (buildInitialDeltaUrl root) rec.1 := by
  have hpoll := polled_pollSingleAccount lib out a w
  rw [PollArgs.initialUrl, hroot a List.mem_cons_self] at hpoll
  obtain ⟨recs, hrecs, hall⟩ := hpoll.recorded
  rw [resyncsOf, ← (untouched_pollSingleAccount lib out a w).resyncs, hrecs, List.drop_left] at hrec
  rw [← hall rec hrec]
  have hstarted := (first_request lib out after (pollSingleAccount lib out a w)
    fun b hb => hroot b (List.mem_cons_of_mem a hb)).1
  refine hstarted.first u ?_
  rwa [requestsOf, List.head?_drop] at hu

/-- The resyncs of a run are honoured exactly when each of them is either the
last thing that happens, or the rejection of a URL that reads back as the initial
one. -/
theorem resync_honoured_iff {root : String} (lib : ClientLib) (out : Outside)
    (polls : List PollArgs) (w : ClientState)
    (hroot : ∀ a ∈ polls, a.effectiveOnedriveRoot = root) :
    HonoursResyncs lib out (buildInitialDeltaUrl root) polls w ↔
      ∀ before a after, polls = before ++ a :: after →
        ∀ rec ∈ resyncsOf lib out a (runPolls lib out before w),
          readBack (buildInitialDeltaUrl root) rec.1 = buildInitialDeltaUrl root ∨
            requestsOf lib out after (runPolls lib out (before ++ [a]) w) = [] := by
  refine forall_congr' fun before => forall_congr' fun a => forall_congr' fun after =>
    forall_congr' fun hsplit => forall_congr' fun rec => forall_congr' fun hrec => ?_
  have hafter : ∀ b ∈ a :: after, b.effectiveOnedriveRoot = root := fun b hb =>
    hroot b (hsplit ▸ List.mem_append_right before hb)
  have hone : runPolls lib out (before ++ [a]) w =
      pollSingleAccount lib out a (runPolls lib out before w) :=
    runPolls_append lib out before [a] w
  rw [hone]
  have hhead := fun u => head_requestsOf hafter hrec (u := u)
  generalize requestsOf lib out after _ = later at hhead ⊢
  cases later with
  | nil => exact ⟨fun _ => .inr rfl, fun _ => ⟨by simp, by simp⟩⟩
  | cons u later =>
    have hu : u = readBack (buildInitialDeltaUrl root) rec.1 := hhead u rfl
    constructor
    · intro h
      exact .inl (hu ▸ h.avoided u List.mem_cons_self hu)
    · rintro (hinit | hnil)
      · refine ⟨fun v hv => .inr ?_, fun v _ hv => hv.trans hinit⟩
        cases hv
        exact hu.trans hinit
      · cases hnil

/-! ## A cursor that is gone -/

def plainLib : ClientLib where
  str _ := ""
  int _ := .invalid
  sha256Text _ := ""

def plainArgs : PollArgs where
  accessToken := "token"
  hasRefresh := false
  policy := {}
  accountName := "alice"
  effectiveOnedriveRoot := "/Camera Roll"
  maxDownloads := 200
  stagingRoot := ["staging"]
  hasProcessor := true
  maxDeltaPages := 100
  maxRuntimeSeconds := 300
  tmpTtlMinutes := 120
  integrityMode := .strict
  deltaLoopResyncThreshold := 3
  deltaBreakerGhostThreshold := 10
  deltaBreakerStalePageThreshold := 10
  deltaBreakerCooldownSeconds := 300
  backpressure := ⟨true, 20, 5, 300, by decide, by decide⟩

def emptyState : ClientState :=
  ⟨none, none, ⟨none, none⟩, [], [], ∅, [], [], [], [], [], 0⟩

/-- A server that answers every request with 410. -/
def goneServer : Outside where
  get _ _ _ := .response ⟨410, none, [], some "https://graph/delta?token=new", none⟩
  refresh _ := .raises
  monotonic n := n
  time n := n
  utcnow _ _ := "2024-01-01T00:00:00+00:00"
  age _ _ := 0
  jitter _ := 0.0
  driftCritical _ := false
  fails _ _ := false
  processor _ _ := true

/-- A stored cursor is gone, the answer names another URL, and the next poll
asks for the stored cursor again. -/
theorem resync_ignored :
    ¬ HonoursResyncs plainLib goneServer (buildInitialDeltaUrl "/Camera Roll")
      [plainArgs, plainArgs]
        { emptyState with cursorFile := some "https://graph/delta?token=old" } := by
  intro h
  have hhon := h [] plainArgs [plainArgs] rfl
    ("https://graph/delta?token=old", some "https://graph/delta?token=new") (by decide +kernel)
  have hstart := hhon.start "https://graph/delta?token=old" (by decide +kernel)
  exact absurd hstart (by decide +kernel)

/-- The same server with no cursor stored: both polls ask for the initial URL. -/
theorem resync_honoured_fresh :
    HonoursResyncs plainLib goneServer (buildInitialDeltaUrl "/Camera Roll")
      [plainArgs, plainArgs] emptyState := by
  refine (resync_honoured_iff plainLib goneServer [plainArgs, plainArgs] emptyState
    (by simp [plainArgs])).mpr fun before a after hsplit => ?_
  rcases before with _ | ⟨b, _ | ⟨c, before⟩⟩
  · cases hsplit
    decide +kernel
  · cases hsplit
    decide +kernel
  · simp at hsplit

end Nightfall.OneDrive
