import Nightfall.L7OneDrive.Resync

/-!
# What a stored cursor has behind it

A cursor says where the next poll goes on, so whatever the pages before it
offered must have been dealt with when it is stored: handed to a page processor
that returned, or counted as a ghost. The download loop stops at the budget in
the middle of a page, and the link behind that page is stored all the same.

`Graph` is what is assumed of the server: behind each link lie exactly the pages
before the URL it came from, and the page that carried it.

* `given_downloadLoop`: a page whose candidates fit the budget is settled whole.
* `given_pollAccountOnce`: one poll stores no link with an unsettled page behind
  it.
* `poll_loses_none`: nor does any run of polls in which every page fits what is
  left of the budget and nothing is downloaded without a processor.
-/
namespace Nightfall.OneDrive
open Nightfall.Core Storage Prog

/-- The candidate was handed over or counted, its stand-in time apart. -/
def Settled (w : ClientState) (c : RemoteCandidate) : Prop :=
  (∃ c' path, c'.item = c.item ∧ handoffRow c' path ∈ w.handed) ∨
    ∃ c' reason, c'.item = c.item ∧ (c', reason) ∈ w.ghosts

/-- Everything selected from the page is settled. -/
def PageSettled (py : PyValues) (accountName : String) (w : ClientState) (p : Payload) : Prop :=
  ∀ readings cs, reduceDeltaPageCandidates py accountName readings p = .ok cs →
    ∀ c ∈ cs, Settled w c

/-- The server answered a request for `url` with the page `p`. -/
def Answered (out : Outside) (url : String) (p : Payload) : Prop :=
  ∃ n token r, out.get n url (some token) = .response r ∧ r.status < 400 ∧ r.json = some (.obj p)

/-- What is assumed of Graph: `before l` are the pages that lie before `l`. -/
structure Graph (py : PyValues) (out : Outside) (initial : String) where
  before : String → Set Payload
  before_initial : before initial = ∅
  before_link : ∀ url p l, Answered out url p → nextLink py p = some l ∨ deltaLink py p = some l →
    before l ⊆ before url ∪ {p}
  /-- a link is a URL: no blanks around it -/
  trimmed : ∀ url p l, Answered out url p → nextLink py p = some l ∨ deltaLink py p = some l →
    pyStrip l = l

theorem answered_graphAttempts {out : Outside} (rq : Requests) (url : String) :
    ∀ (n : Nat) (token : String) (refreshed : Bool) (w : ClientState),
      (graphAttempts rq url n token refreshed).Wp (clientHandle out) w
        fun r _ => ∀ p, r = .ok p → Answered out url p := by
  intro n
  induction n with
  | zero => exact fun _ _ _ => wp_err.mpr fun p hp => by cases hp
  | succ n ih =>
    intro token refreshed w
    have herr : ∀ {w : ClientState} {e : ClientError}, (Prog.err e : ClientFlow Payload).Wp
        (clientHandle out) w fun r _ => ∀ p, r = .ok p → Answered out url p :=
      wp_err.mpr fun p hp => by cases hp
    have hretry : ∀ {transport : Bool} {retryAfter : Option Float} {e : ClientError}
        {w : ClientState}, (retryOr rq.policy n transport retryAfter e
          (graphAttempts rq url n token refreshed)).Wp (clientHandle out) w
            fun r _ => ∀ p, r = .ok p → Answered out url p :=
      wp_retryOr (fun _ p hp => by cases hp) (fun _ p hp => by cases hp) (ih _ _)
    rw [graphAttempts, call_bind, wp_op]
    cases hget : (clientHandle out (.get url (some token)) w).1 with
    | raises => exact herr
    | requestError _ => exact hretry
    | response r =>
      simp only
      split
      · split
        · exact herr
        · rw [call_bind, wp_op]
          split
          · exact herr
          · exact herr
          · exact ih _ _ _
      · split
        · exact hretry
        · split
          · exact herr
          · split
            · exact herr
            · next hstatus =>
              split
              · exact herr
              · next p hp =>
                refine wp_ret.mpr fun q hq => ?_
                cases hq
                exact ⟨w.tick, token, r, hget, by omega, hp⟩
              · exact herr

/-! ## What stays settled -/

/-- What was handed over or counted stays so. -/
structure Remembers (w w' : ClientState) : Prop where
  handed : w.handed <+: w'.handed
  ghosts : w.ghosts <+: w'.ghosts

theorem Grows.remembers {w w' : ClientState} (h : Grows w w') : Remembers w w' :=
  ⟨h.handed, h.ghosts⟩

theorem Remembers.of_eq {w w' : ClientState} (h : w'.handed = w.handed)
    (h' : w'.ghosts = w.ghosts) : Remembers w w' :=
  ⟨h ▸ List.prefix_rfl, h' ▸ List.prefix_rfl⟩

theorem Settled.kept {w w' : ClientState} {c : RemoteCandidate} (h : Settled w c)
    (hw : Remembers w w') : Settled w' c := by
  rcases h with ⟨c', path, hc, hrow⟩ | ⟨c', reason, hc, hghost⟩
  · exact .inl ⟨c', path, hc, hw.handed.subset hrow⟩
  · exact .inr ⟨c', reason, hc, hw.ghosts.subset hghost⟩

/-- All pages before the link are settled. -/
def SettledBefore {py : PyValues} {out : Outside} {initial : String} (G : Graph py out initial)
    (accountName : String) (w : ClientState) (link : String) : Prop :=
  ∀ p ∈ G.before link, PageSettled py accountName w p

/-- An operation that stores a link leaves the pages before it settled. -/
def Stores {py : PyValues} {out : Outside} {initial : String} (G : Graph py out initial)
    (accountName : String) : ClientOp → ClientState → ClientState → Prop
  | .file (.saveCursor link), _, w' => SettledBefore G accountName w' link
  | _, _, _ => True

/-- The page fits what is left of the budget, and no download is finished
without a processor. -/
def Within (a : PollArgs) : ClientOp → ClientState → Prop
  | .enterDownload candidates (some budget), _ => (candidates.length : Int) ≤ budget
  | .file (.appendManifest _), _ => a.hasProcessor = true
  | _, _ => True

/-- A stretch that stores nothing: the history grows, and a result is as said. -/
def Ends {α : Type} (w : ClientState) (Q : α → ClientState → Prop) :
    Except ClientError α → ClientState → Prop
  | .ok x, w' => Grows w w' ∧ Q x w'
  | .error _, w' => Grows w w'

section Page
variable {lib : ClientLib} {out : Outside} {initial : String}
  {G : Graph lib.toPyValues out initial} {a : PollArgs} {name : String}

theorem SettledBefore.kept {link : String} {w w' : ClientState}
    (h : SettledBefore G name w link) (hw : Remembers w w') : SettledBefore G name w' link :=
  fun p hp readings cs hcs c hc => (h p hp readings cs hcs c hc).kept hw

theorem stores_of_keeps {o : ClientOp} (h : o.Keeps) (w w' : ClientState) :
    Stores G name o w w' := by
  cases o with
  | file f => cases f <;> first | exact h.elim | trivial
  | _ => trivial

theorem ends_of_keeps {α : Type} {p : ClientFlow α} (h : p.Calls ClientOp.Keeps)
    (w : ClientState) :
    p.Given (clientHandle out) (Within a) (Stores G name) w (Ends w fun _ _ => True) := by
  refine given_of_along (h.along Grows.refl (fun _ _ _ => Grows.trans)
    (fun o s ho => ⟨stores_of_keeps ho _ _, grows_step out o s ho⟩) fun r w' hw => ?_)
  cases r with
  | error _ => exact hw
  | ok _ => exact ⟨hw, trivial⟩

theorem ends_of_items {α : Type} {p : ClientFlow α} (h : p.Calls ClientOp.ForItems)
    (w : ClientState) :
    p.Given (clientHandle out) (Within a) (Stores G name) w (Ends w fun _ _ => True) :=
  ends_of_keeps (h.imp fun _ => ClientOp.ForItems.keeps) w

theorem ends_bind {α β : Type} {p : ClientFlow α} {f : α → ClientFlow β}
    {Q : α → ClientState → Prop} {R : β → ClientState → Prop} {w : ClientState}
    (hp : p.Given (clientHandle out) (Within a) (Stores G name) w (Ends w Q))
    (hf : ∀ x w', Grows w w' → Q x w' →
      (f x).Given (clientHandle out) (Within a) (Stores G name) w' (Ends w' R)) :
    (p >>= f).Given (clientHandle out) (Within a) (Stores G name) w (Ends w R) := by
  refine given_bind.mpr (given_mono ?_ hp)
  intro r w' hw
  cases r with
  | error e => exact hw
  | ok x =>
    refine given_mono ?_ (hf x w' hw.1 hw.2)
    intro r w'' hw'
    cases r with
    | error e => exact hw.1.trans hw'
    | ok y => exact ⟨hw.1.trans hw'.1, hw'.2⟩

theorem ends_ret {α : Type} {x : α} {Q : α → ClientState → Prop} {w : ClientState} (h : Q x w) :
    (Prog.ret x : ClientFlow α).Given (clientHandle out) (Within a) (Stores G name) w
      (Ends w Q) := ⟨.refl w, h⟩

theorem ends_err {α : Type} {e : ClientError} {Q : α → ClientState → Prop} {w : ClientState} :
    (Prog.err e : ClientFlow α).Given (clientHandle out) (Within a) (Stores G name) w
      (Ends w Q) := Grows.refl w

/-! ## The download loop -/

/-- Some ghost reason was counted for the candidate. -/
def Counted (c : RemoteCandidate) (w : ClientState) : Prop := ∃ reason, (c, reason) ∈ w.ghosts

theorem ends_recordGhost (counts : Counts) (c : RemoteCandidate) (reason : String)
    (w : ClientState) :
    (recordGhost counts c reason).Given (clientHandle out) (Within a) (Stores G name) w
      (Ends w fun _ w' => Counted c w') := by
  refine given_op.mpr fun _ => ⟨trivial, grows_step out (.countGhost c reason) w trivial, reason, ?_⟩
  simp [clientHandle, effect]

theorem ends_ghosted {α : Type} (counts : Counts) (c : RemoteCandidate) (reason : String)
    (w : ClientState) {x : Counts → α} {Q : α → ClientState → Prop}
    (hQ : ∀ counts w', Counted c w' → Q (x counts) w') :
    (do return x (← recordGhost counts c reason) : ClientFlow α).Given (clientHandle out)
      (Within a) (Stores G name) w (Ends w Q) :=
  ends_bind (ends_recordGhost counts c reason w) fun counts w' _ hw => ends_ret (hQ counts w' hw)

theorem ends_initialDownloadUrl (c : RemoteCandidate) (ghosts : Counts) (w : ClientState) :
    (initialDownloadUrl lib a c ghosts).Given (clientHandle out) (Within a) (Stores G name) w
      (Ends w fun x w' => x.2 = none → Counted c w') := by
  unfold initialDownloadUrl
  split
  · exact ends_ret fun h => by cases h
  · refine ends_bind (ends_recordGhost ghosts c _ w) fun ghosts w₁ _ _ => ?_
    refine ends_bind (ends_of_items
      (calls_resolveDownloadUrlOnce _ _ (admits_forItems c []).asks) w₁)
      fun r w₂ _ _ => ?_
    cases r with
    | ok url => exact ends_ret fun h => by cases h
    | error reason => exact ends_ghosted ghosts c reason w₂ fun _ _ hw _ => hw

theorem ends_downloadRefreshing (c : RemoteCandidate) (tmp : Path) (url : String) (ghosts : Counts)
    (w : ClientState) :
    (downloadRefreshing lib a c tmp url ghosts).Given (clientHandle out) (Within a)
      (Stores G name) w (Ends w fun x w' => x.2 = false → Counted c w') := by
  refine ends_bind (ends_of_items (calls_tryDownload _ (admits_forItems c tmp).transfers) w)
    fun r w₁ _ _ => ?_
  cases r with
  | ok _ => exact ends_ret fun h => by cases h
  | error e =>
    refine ends_bind (ends_of_keeps (calls_file (f := .unlink tmp) trivial) w₁) fun _ w₂ _ _ => ?_
    split
    · exact ends_err
    · refine ends_bind
        (ends_of_items (calls_resolveDownloadUrlOnce _ _ (admits_forItems c tmp).asks) w₂)
        fun r w₃ _ _ => ?_
      cases r with
      | error reason => exact ends_ghosted ghosts c reason w₃ fun _ _ hw _ => hw
      | ok refreshed =>
        refine ends_bind (ends_of_items (calls_tryDownload _ (admits_forItems c tmp).transfers) w₃)
          fun r w₄ _ _ => ?_
        cases r with
        | ok _ => exact ends_ret fun h => by cases h
        | error e =>
          refine ends_bind (ends_of_keeps (calls_file (f := .unlink tmp) trivial) w₄)
            fun _ w₅ _ _ => ?_
          split
          · exact ends_ghosted ghosts c _ w₅ fun _ _ hw _ => hw
          · exact ends_err

/-- What one candidate comes to: a row, with a processor to take it, or a
count. -/
def Dealt (a : PollArgs) (c : RemoteCandidate) (row : Option DownloadedHandoffCandidate)
    (w : ClientState) : Prop :=
  (a.hasProcessor = true ∧ ∃ path, row = some (handoffRow c path)) ∨ (row = none ∧ Counted c w)

theorem ends_finishDownload (c : RemoteCandidate) (base : String) (ghosts : Counts)
    (w : ClientState) :
    (finishDownload a c base ghosts).Given (clientHandle out) (Within a) (Stores G name) w
      (Ends w fun x w' => Dealt a c x.2 w') := by
  refine ends_bind (ends_of_items ((admits_forItems c []).appendLifecycleEvent _ _) w)
    fun _ w₁ _ _ => ?_
  simp only
  split
  · refine ends_bind (ends_of_keeps (calls_file (f := .replace _ _) trivial) w₁) fun _ w₂ _ _ => ?_
    refine ends_bind (ends_recordGhost ghosts c _ w₂) fun ghosts w₃ _ hcount => ?_
    refine ends_bind (ends_of_items ((admits_forItems c []).appendLifecycleEvent _ _) w₃)
      fun _ w₄ hgrow _ => ?_
    obtain ⟨reason, hreason⟩ := hcount
    exact ends_ret (.inr ⟨rfl, reason, hgrow.ghosts.subset hreason⟩)
  · refine ends_bind (ends_of_keeps (calls_file (f := .replace _ _) trivial) w₁) fun _ w₂ _ _ => ?_
    refine ends_bind (ends_of_items ((admits_forItems c []).appendLifecycleEvent _ _) w₂)
      fun _ w₃ _ _ => ?_
    -- The processor is known from the condition on the manifest entry.
    refine given_op.mpr fun hproc => ⟨trivial, ?_⟩
    have hgrow := grows_step out (.file (.appendManifest (handoffRow c
      (a.stagingDir ++ [base ++ safeExtension c.name])))) w₃ trivial
    cases hdone : (clientHandle out (.file (.appendManifest (handoffRow c
      (a.stagingDir ++ [base ++ safeExtension c.name])))) w₃).1 with
    | false => exact hgrow
    | true => exact ⟨hgrow, .inl ⟨hproc, _, rfl⟩⟩

theorem ends_downloadCandidate (c : RemoteCandidate) (base : String) (ghosts : Counts)
    (w : ClientState) :
    (downloadCandidate lib a c base ghosts).Given (clientHandle out) (Within a) (Stores G name) w
      (Ends w fun x w' => Dealt a c x.2 w') := by
  unfold downloadCandidate
  simp only
  split
  · exact ends_ghosted ghosts c _ w fun _ _ hw => .inr ⟨rfl, hw⟩
  · refine ends_bind (ends_of_items ((admits_forItems c []).appendLifecycleEvent _ _) w)
      fun _ w₁ _ _ => ?_
    refine ends_bind (ends_initialDownloadUrl c ghosts w₁) ?_
    rintro ⟨ghosts, url | url⟩ w₂ - hnone
    · exact ends_ret (.inr ⟨rfl, hnone rfl⟩)
    · refine ends_bind (ends_downloadRefreshing c _ url ghosts w₂) ?_
      rintro ⟨ghosts, done | done⟩ w₃ - hfalse
      · exact ends_ret (.inr ⟨rfl, hfalse rfl⟩)
      · exact ends_finishDownload c base ghosts w₃

/-- The rows and counts of the candidates so far. -/
structure Loaded (a : PollArgs) (cs : List RemoteCandidate) (d d' : Downloads) (w : ClientState) :
    Prop where
  rows : d.rows ⊆ d'.rows
  dealt : ∀ c ∈ cs, (∃ path, handoffRow c path ∈ d'.rows) ∨ Counted c w
  processor : d'.rows = d.rows ∨ a.hasProcessor = true

/-- Induction on the candidates; the limit is never reached. -/
theorem ends_downloadLoop {limit : Int} :
    ∀ (cs : List RemoteCandidate) (index : Nat) (used : List String) (d : Downloads)
      (w : ClientState), limit ≤ 0 ∨ (index + cs.length : Int) ≤ limit →
      (downloadLoop lib a limit index cs used d).Given (clientHandle out) (Within a)
        (Stores G name) w (Ends w fun d' w' => Loaded a cs d d' w') := by
  intro cs
  induction cs with
  | nil => exact fun _ _ _ _ _ => ends_ret ⟨fun _ h => h, by simp, .inl rfl⟩
  | cons c cs ih =>
    intro index used d w hlimit
    rw [List.length_cons] at hlimit
    rw [downloadLoop, if_neg (by omega)]
    refine ends_bind (ends_downloadCandidate c _ d.ghosts w) ?_
    rintro ⟨ghosts, row⟩ w₁ - (hdealt : Dealt a c row w₁)
    refine given_mono ?_ (ih (index + 1) _ _ w₁ (by omega))
    rintro (e | d') w₂ hends
    · exact hends
    · obtain ⟨hgrow, hrows, hall, hproc⟩ := hends
      refine ⟨hgrow, fun x hx => hrows (List.mem_append_left _ hx), fun c' hc' => ?_, ?_⟩
      · rcases List.mem_cons.mp hc' with rfl | hc'
        · rcases hdealt with ⟨-, path, hrow⟩ | ⟨-, reason, hghost⟩
          · exact .inl ⟨path, hrows (List.mem_append_right _ (by simp [hrow]))⟩
          · exact .inr ⟨reason, hgrow.ghosts.subset hghost⟩
        · exact hall c' hc'
      · rcases hdealt with ⟨hhas, -⟩ | ⟨hnone, -⟩
        · exact .inr hhas
        · rcases hproc with hsame | hhas
          · exact .inl (by simpa [hnone] using hsame)
          · exact .inr hhas

theorem ends_downloadCandidates (cs : List RemoteCandidate) (budget : Option Int)
    (w : ClientState) :
    (downloadCandidates lib a cs budget).Given (clientHandle out) (Within a) (Stores G name) w
      (Ends w fun d w' => Loaded a cs ⟨∅, []⟩ d w') := by
  refine given_op.mpr fun hwithin => ⟨trivial, ?_⟩
  refine given_mono ?_ (ends_downloadLoop cs 0 [] ⟨∅, []⟩ _ ?_)
  · rintro (e | d) w' hends
    · exact (grows_step out (.enterDownload cs budget) w trivial).trans hends
    · exact ⟨(grows_step out (.enterDownload cs budget) w trivial).trans hends.1, hends.2⟩
  · cases budget with
    | none => exact .inl le_rfl
    | some n =>
      have hfits : (cs.length : Int) ≤ n := hwithin
      exact .inr (by simpa using hfits)

/-- A page within the budget is settled whole. -/
theorem ends_downloadPage {t : Traversal} (cs : List RemoteCandidate) (w : ClientState)
    (hroom : 0 < a.maxDownloads → (t.downloadedPaths.length : Int) < a.maxDownloads) :
    (downloadPage lib a t cs).Given (clientHandle out) (Within a) (Stores G name) w
      (Ends w fun t' w' => t'.deltaLink = t.deltaLink ∧ ∀ c ∈ cs, Settled w' c) := by
  unfold downloadPage
  simp only
  split
  · refine ends_bind (ends_downloadCandidates cs _ w) fun d w₁ _ hloaded => ?_
    obtain ⟨-, hdealt, hproc⟩ := hloaded
    split
    · -- The processor takes the rows, or raises.
      refine given_op.mpr fun _ => ⟨trivial, ?_⟩
      have hgrow := grows_step out (.pageHandoff a.accountName d.rows) w₁ trivial
      cases hdone : (clientHandle out (.pageHandoff a.accountName d.rows) w₁).1 with
      | false => exact hgrow
      | true =>
        refine ⟨hgrow, rfl, fun c hc => ?_⟩
        have hhanded : (clientHandle out (.pageHandoff a.accountName d.rows) w₁).2.handed =
            w₁.handed ++ d.rows := by
          simp only [clientHandle, effect] at hdone ⊢
          split at hdone
          · next hp => simp [hp]
          · cases hdone
        rcases hdealt c hc with ⟨path, hrow⟩ | ⟨reason, hghost⟩
        · exact .inl ⟨c, path, rfl, by rw [hhanded]; exact List.mem_append_right _ hrow⟩
        · exact .inr ⟨c, reason, rfl, hgrow.ghosts.subset hghost⟩
    · next hnone =>
      refine ends_ret ⟨rfl, fun c hc => ?_⟩
      have hrows : d.rows = [] := by
        by_contra hrows
        exact hnone ⟨hproc.resolve_left hrows, hrows⟩
      rcases hdealt c hc with ⟨path, hrow⟩ | ⟨reason, hghost⟩
      · rw [hrows] at hrow
        cases hrow
      · exact .inr ⟨c, reason, rfl, hghost⟩
  · next hskip =>
    refine ends_ret ⟨rfl, fun c hc => ?_⟩
    refine absurd ⟨List.ne_nil_of_mem hc, fun n hn => ?_⟩ hskip
    unfold remainingDownloadBudget at hn
    split at hn
    · next hpos =>
      cases hn
      have := hroom hpos
      omega
    · cases hn

/-! ## One poll -/

/-- Between two pages: nothing before the start, the link in hand or the delta
link is unsettled. -/
structure Sound (G : Graph lib.toPyValues out initial) (name : String) (w : ClientState)
    (next : Option String) (t : Traversal) : Prop where
  start : SettledBefore G name w (startUrl initial w)
  next : ∀ url, truthy next = some url → SettledBefore G name w url
  delta : ∀ l, t.deltaLink = some l → SettledBefore G name w l ∧ pyStrip l = l

variable {w w' : ClientState} {t : Traversal}

theorem SettledBefore.start (h : SettledBefore G name w (startUrl initial w))
    (hcursor : w'.cursorFile = w.cursorFile) (hw : Remembers w w') :
    SettledBefore G name w' (startUrl initial w') := by
  rw [startUrl_congr hcursor]
  exact h.kept hw

theorem Sound.grow {next : Option String} (h : Sound G name w next t) (hw : Grows w w') :
    Sound G name w' next t :=
  ⟨h.start.start hw.cursorFile hw.remembers, fun url hurl => (h.next url hurl).kept hw.remembers,
    fun l hl => ⟨(h.delta l hl).1.kept hw.remembers, (h.delta l hl).2⟩⟩

/-- How a page leaves the traversal. -/
def PageKept (G : Graph lib.toPyValues out initial) (name : String) :
    Except ClientError Outcome → ClientState → Prop
  | .ok (.next link t), w => Sound G name w link t
  | _, w => SettledBefore G name w (startUrl initial w)

/-- A file operation is done or raises. -/
theorem given_file {f : FileOp} {Q : Except ClientError Unit → ClientState → Prop}
    (hstores : ∀ w', w'.handed = w.handed → w'.ghosts = w.ghosts → Stores G name (.file f) w w')
    (happly : (f.apply w).handed = w.handed ∧ (f.apply w).ghosts = w.ghosts)
    (hdone : Q (.ok ()) { f.apply w with tick := w.tick + 1 })
    (hfail : Q (.error .raised) { w with tick := w.tick + 1 }) :
    (file f).Given (clientHandle out) (Within a) (Stores G name) w Q := by
  have hcases : clientHandle out (.file f) w = (false, { w with tick := w.tick + 1 }) ∨
      clientHandle out (.file f) w = (true, { f.apply w with tick := w.tick + 1 }) := by
    simp only [clientHandle, effect]
    split
    · exact .inl rfl
    · exact .inr rfl
  refine given_op.mpr fun _ => ?_
  rcases hcases with hcase | hcase
  · rw [hcase]
    exact ⟨hstores _ rfl rfl, hfail⟩
  · rw [hcase]
    exact ⟨hstores _ happly.1 happly.2, hdone⟩

/-- Storing a link with nothing unsettled before it. -/
theorem given_checkpoint {link : String} (hlink : SettledBefore G name w link)
    (htrim : pyStrip link = link) (hstart : SettledBefore G name w (startUrl initial w)) :
    (checkpoint link).Given (clientHandle out) (Within a) (Stores G name) w fun _ w' =>
      Remembers w w' ∧ SettledBefore G name w' (startUrl initial w') := by
  have hread : ∀ w' : ClientState, w'.cursorFile = some link → Remembers w w' →
      SettledBefore G name w' (startUrl initial w') := by
    intro w' hcursor hw
    rw [startUrl, hcursor]
    by_cases hne : link = ""
    · subst hne
      have hnone : cursorOf (some "") = none := by decide
      rw [hnone, Option.getD_none]
      intro p hp
      rw [G.before_initial] at hp
      exact hp.elim
    · have hsome : cursorOf (some link) = some link := by
        rw [cursorOf, Option.map_some, htrim, truthy_of_ne hne]
      rw [hsome, Option.getD_some]
      exact hlink.kept hw
  refine given_bind.mpr (given_file (fun w' hh hg => hlink.kept (.of_eq hh hg)) ⟨rfl, rfl⟩ ?_ ?_)
  · refine given_of_along ((calls_file (P := ClientOp.Aside) (f := .clearResyncMarker) trivial).along
      Untouched.refl
      (fun _ _ _ => Untouched.trans)
      (fun o s ho => ⟨stores_of_keeps ho.keeps _ _, untouched_step out o s ho⟩) fun r w' hw => ?_)
    have hmem : Remembers w w' := .of_eq hw.handed hw.ghosts
    exact ⟨hmem, hread w' hw.cursorFile hmem⟩
  · have hmem : Remembers w { w with tick := w.tick + 1 } := .of_eq rfl rfl
    exact ⟨hmem, hstart.start rfl hmem⟩

theorem given_orRaise {α : Type} {x : Except Unit α}
    {Q : Except ClientError α → ClientState → Prop} (herror : Q (.error .raised) w)
    (hok : ∀ y, x = .ok y → Q (.ok y) w) :
    (orRaise x).Given (clientHandle out) (Within a) (Stores G name) w Q := by
  cases x with
  | error _ => exact herror
  | ok y => exact hok y rfl

/-- The candidates of one selection settle the page. -/
theorem pageSettled_of {readings : Nat → String} {p : Payload} {cs : List RemoteCandidate}
    (hcs : reduceDeltaPageCandidates lib.toPyValues name readings p = .ok cs)
    (h : ∀ c ∈ cs, Settled w c) : PageSettled lib.toPyValues name w p := by
  intro readings' cs' hcs' c hc
  obtain ⟨cs₁, hcs₁, hitems⟩ := reduceDeltaPageCandidates_items readings hcs'
  rw [hcs] at hcs₁
  cases hcs₁
  obtain ⟨c₁, hc₁, hitem⟩ := List.mem_map.mp (hitems ▸ List.mem_map_of_mem hc)
  rcases h c₁ hc₁ with ⟨c₂, path, hc₂, hrow⟩ | ⟨c₂, reason, hc₂, hghost⟩
  · exact .inl ⟨c₂, path, hc₂.trans hitem, hrow⟩
  · exact .inr ⟨c₂, reason, hc₂.trans hitem, hghost⟩

/-- A link of a settled page. -/
theorem settledBefore_link {url l : String} {p : Payload} (hanswer : Answered out url p)
    (hl : nextLink lib.toPyValues p = some l ∨ deltaLink lib.toPyValues p = some l)
    (hbefore : SettledBefore G name w url) (hp : PageSettled lib.toPyValues name w p) :
    SettledBefore G name w l := by
  intro q hq
  rcases G.before_link url p l hanswer hl hq with hq | hq
  · exact hbefore q hq
  · rw [Set.mem_singleton_iff.mp hq]
    exact hp

theorem given_storeNextLink {link : Option String} (h : Sound G name w none t)
    (hlink : ∀ l, link = some l → SettledBefore G name w l ∧ pyStrip l = l) :
    (storeNextLink t link).Given (clientHandle out) (Within a) (Stores G name) w
      (PageKept G name) := by
  cases link with
  | none => exact h
  | some l =>
    obtain ⟨hl, htrim⟩ := hlink l rfl
    refine given_bind.mpr (given_mono ?_ (given_checkpoint hl htrim h.start))
    rintro (e | _) w' ⟨hmem, hstart⟩
    · exact hstart
    · refine ⟨hstart, fun url hurl => ?_, fun d hd => ⟨(h.delta d hd).1.kept hmem, (h.delta d hd).2⟩⟩
      rw [(truthy_some hurl).1]
      exact hl.kept hmem

theorem given_processDeltaPage {url : String} {p : Payload} (hname : a.accountName = name)
    (hanswer : Answered out url p) (hurl : SettledBefore G name w url) (h : Sound G name w none t)
    (hroom : 0 < a.maxDownloads → (t.downloadedPaths.length : Int) < a.maxDownloads) :
    (processDeltaPage lib a t p).Given (clientHandle out) (Within a) (Stores G name) w
      (PageKept G name) := by
  have hstep : ∀ w, Grows w (clientHandle out .utcnow w).2 := fun w =>
    grows_step out .utcnow w trivial
  rw [processDeltaPage, call_bind]
  refine given_op.mpr fun _ => ⟨trivial, ?_⟩
  refine given_bind.mpr (given_orRaise (h.grow (hstep w)).start fun reducer _ => ?_)
  rw [thenGiven_ok, call_bind]
  refine given_op.mpr fun _ => ⟨trivial, ?_⟩
  have hgrow₂ := (hstep w).trans (hstep _)
  refine given_bind.mpr (given_orRaise (h.grow hgrow₂).start fun candidates hcs => ?_)
  have hroom' : 0 < a.maxDownloads →
      ((noteReplays lib.toPyValues t p).downloadedPaths.length : Int) < a.maxDownloads := by
    unfold noteReplays
    simp only
    split <;> exact hroom
  refine given_bind.mpr (given_mono ?_ (ends_downloadPage candidates _ hroom'))
  rintro (e | t') w₃ hends
  · exact (h.grow (hgrow₂.trans hends)).start
  · obtain ⟨hgrow, hdelta, hsettled⟩ := hends
    have hgrow₃ := hgrow₂.trans hgrow
    have hurl₃ := hurl.kept hgrow₃.remembers
    have hp : PageSettled lib.toPyValues name w₃ p := pageSettled_of (hname ▸ hcs) hsettled
    refine given_storeNextLink ⟨(h.grow hgrow₃).start, by simp [truthy], fun l hl => ?_⟩
      fun l hl => ⟨settledBefore_link hanswer (.inl hl) hurl₃ hp, G.trimmed url p l hanswer (.inl hl)⟩
    rw [hdelta] at hl
    rcases Option.or_eq_some_iff.mp hl with hl | ⟨-, hl⟩
    · have hlink : deltaLink lib.toPyValues p = some l := by
        cases hd : deltaLink lib.toPyValues p with
        | none => rw [hd] at hl; cases hl
        | some d => rw [hd] at hl; rw [(truthy_some hl).1]
      exact ⟨settledBefore_link hanswer (.inr hlink) hurl₃ hp,
        G.trimmed url p l hanswer (.inr hlink)⟩
    · exact (h.grow hgrow₃).delta l hl

theorem answered_fetchDeltaPage (url : String) :
    (fetchDeltaPage a url).Wp (clientHandle out) w fun r w' =>
      Grows w w' ∧ ∀ p, r = .ok (.ok p) → Answered out url p := by
  refine wp_and (grows_of_calls ((calls_fetchDeltaPage a url).imp fun _ => ClientOp.Asks.keeps)
    fun _ _ hw => hw) ?_
  refine wp_tryCatch.mpr (wp_bind.mpr (wp_mono ?_ (answered_graphAttempts _ url _ _ _ w)))
  rintro (e | p) w' hanswer
  · cases e with
    | resyncRequired _ _ => exact wp_ret.mpr fun p hp => by cases hp
    | _ => exact wp_err.mpr fun p hp => by cases hp
  · refine wp_ret.mpr fun q hq => ?_
    cases hq
    exact hanswer p rfl

theorem given_markResyncRequired (h : SettledBefore G name w (startUrl initial w))
    (rejected reason : String) (resyncUrl : Option String) :
    (markResyncRequired a.accountName rejected reason resyncUrl).Given (clientHandle out)
      (Within a) (Stores G name) w fun _ w' => SettledBefore G name w' (startUrl initial w') := by
  have hsame : ∀ w' : ClientState, w'.cursorFile = w.cursorFile → w'.handed = w.handed →
      w'.ghosts = w.ghosts → SettledBefore G name w' (startUrl initial w') :=
    fun w' hc hh hg => h.start hc (.of_eq hh hg)
  rw [markResyncRequired, call_bind]
  refine given_op.mpr fun _ => ⟨trivial, given_file (fun _ _ _ => trivial) ⟨rfl, rfl⟩ ?_ ?_⟩
  · exact hsame _ rfl rfl rfl
  · exact hsame _ rfl rfl rfl

theorem given_loopDetected (h : SettledBefore G name w (startUrl initial w)) (url : String) :
    (loopDetected a t url).Given (clientHandle out) (Within a) (Stores G name) w
      (PageKept G name) := by
  refine given_bind.mpr (given_mono ?_ (ends_of_keeps
    (aside_incrementLoopIncident.imp fun _ => ClientOp.Aside.keeps) w))
  rintro (e | n) w₁ hw₁
  · exact h.start hw₁.cursorFile hw₁.remembers
  · have h₁ := h.start hw₁.1.cursorFile hw₁.1.remembers
    rw [thenGiven_ok]
    split
    · refine given_bind.mpr (given_mono ?_ (given_markResyncRequired h₁ _ _ _))
      rintro (e | _) w₂ h₂
      · exact h₂
      · refine given_bind.mpr (given_mono ?_ (ends_of_keeps
          (aside_resetLoopIncidents.imp fun _ => ClientOp.Aside.keeps) w₂))
        rintro (e | _) w₃ hw₃
        · exact h₂.start hw₃.cursorFile hw₃.remembers
        · exact h₂.start hw₃.1.cursorFile hw₃.1.remembers
    · exact h₁

theorem given_deltaPage (hname : a.accountName = name) {url : String}
    (hurl : SettledBefore G name w url) (h : Sound G name w none t)
    (hroom : 0 < a.maxDownloads → (t.downloadedPaths.length : Int) < a.maxDownloads) :
    (deltaPage lib a t url).Given (clientHandle out) (Within a) (Stores G name) w
      (PageKept G name) := by
  unfold deltaPage
  split
  · exact given_loopDetected h.start url
  · refine given_bind.mpr (given_mono ?_ (given_of_along (Calls.along_wp
      (fun o s ho => stores_of_keeps (ClientOp.Asks.keeps ho) _ _) (calls_fetchDeltaPage a url)
      (answered_fetchDeltaPage url))))
    rintro (e | (resyncUrl | p)) w₁ ⟨hw₁, hanswer⟩
    · exact (h.grow hw₁).start
    · refine given_bind.mpr (given_mono ?_ (given_markResyncRequired (h.grow hw₁).start _ _ _))
      rintro (e | _) w₂ h₂
      · exact h₂
      · exact h₂
    · exact given_processDeltaPage hname (hanswer p rfl) (hurl.kept hw₁.remembers)
        ⟨(h.grow hw₁).start, by simp [truthy], (h.grow hw₁).delta⟩ hroom

/-- Induction on the pages that may still be fetched. -/
theorem given_deltaPages (hname : a.accountName = name) (start : Int) :
    ∀ (remaining : Nat) {next : Option String} {t : Traversal} {w : ClientState},
      Sound G name w next t →
      (deltaPages lib a start remaining next t).Given (clientHandle out) (Within a)
        (Stores G name) w (PageKept G name) := by
  intro remaining
  induction remaining with
  | zero =>
    intro next t w h
    unfold deltaPages
    split
    · exact ⟨h.start, by simp [truthy], h.delta⟩
    · split
      · exact ⟨h.start, h.next, h.delta⟩
      · rw [call_bind]
        refine given_op.mpr fun _ => ⟨trivial, ?_⟩
        have h' := h.grow (grows_step out .monotonic w trivial)
        split <;> exact h'.start
  | succ remaining ih =>
    intro next t w h
    unfold deltaPages
    split
    · exact ⟨h.start, by simp [truthy], h.delta⟩
    · next url hurl =>
      split
      · exact ⟨h.start, h.next, h.delta⟩
      · next hbudget =>
        rw [call_bind]
        refine given_op.mpr fun _ => ⟨trivial, ?_⟩
        have h' := h.grow (grows_step out .monotonic w trivial)
        split
        · exact h'.start
        · refine given_bind.mpr (given_mono ?_ (given_deltaPage hname (h'.next url hurl)
            ⟨h'.start, by simp [truthy], h'.delta⟩ (by omega)))
          rintro (e | (⟨link, t'⟩ | counts)) w' hkept
          · exact hkept
          · exact ih hkept
          · exact hkept

theorem given_finishPoll (h : Sound G name w none t) :
    (finishPoll a t).Given (clientHandle out) (Within a) (Stores G name) w
      fun _ w' => SettledBefore G name w' (startUrl initial w') := by
  have hrest : ∀ {w : ClientState}, SettledBefore G name w (startUrl initial w) →
      (do
        let t ← armBreakers a t
        return (⟨t.downloadedPaths, (materializeReducedCandidates t.reducer).length, t.ghosts,
          t.reducer.anomalyCounts⟩ : PollResult) : ClientFlow PollResult).Given (clientHandle out)
        (Within a) (Stores G name) w fun _ w' => SettledBefore G name w' (startUrl initial w') := by
    intro w hw
    refine given_bind.mpr (given_mono ?_ (ends_of_keeps
      ((aside_armBreakers a t).imp fun _ => ClientOp.Aside.keeps) w))
    rintro (e | t') w' hw'
    · exact hw.start hw'.cursorFile hw'.remembers
    · exact hw.start hw'.1.cursorFile hw'.1.remembers
  unfold finishPoll
  split
  · exact h.start
  · rw [call_bind]
    refine given_op.mpr fun _ => ⟨trivial, ?_⟩
    have h' := h.grow (grows_step out .monotonic w trivial)
    cases hlink : t.deltaLink with
    | none => exact hrest h'.start
    | some l =>
      obtain ⟨hl, htrim⟩ := h'.delta l hlink
      refine given_bind.mpr (given_mono ?_ (given_checkpoint hl htrim h'.start))
      rintro (e | _) w' ⟨-, hstart⟩
      · exact hstart
      · exact hrest hstart

end Page

/-- One poll: no link is stored with an unsettled page before it. -/
theorem given_pollAccountOnce {lib : ClientLib} {out : Outside} {name : String} {a : PollArgs}
    {G : Graph lib.toPyValues out a.initialUrl} (hname : a.accountName = name) {w : ClientState}
    (h : SettledBefore G name w (startUrl a.initialUrl w)) :
    (pollAccountOnce lib a).Given (clientHandle out) (Within a) (Stores G name) w
      fun _ w' => SettledBefore G name w' (startUrl a.initialUrl w') := by
  rw [pollAccountOnce, loadCursor]
  refine given_bind.mpr (given_op.mpr fun _ => ⟨trivial, thenGiven_ok.mpr ?_⟩)
  have hread := untouched_step out .readCursor w trivial
  refine given_bind.mpr (given_mono ?_ (ends_of_keeps
    ((aside_preparePoll a).imp fun _ => ClientOp.Aside.keeps) _))
  rintro (e | (_ | startMonotonic)) w₁ hw₁
  · exact h.start (hw₁.cursorFile.trans hread.cursorFile) (hread.grows.trans hw₁).remembers
  · have hgrow := hread.grows.trans hw₁.1
    exact h.start hgrow.cursorFile hgrow.remembers
  · have hgrow := hread.grows.trans hw₁.1
    have hsound : Sound G name w₁ (some (startUrl a.initialUrl w)) .start := by
      refine ⟨h.start hgrow.cursorFile hgrow.remembers, fun url hurl => ?_, fun l hl => by cases hl⟩
      rw [(truthy_some hurl).1]
      exact h.kept hgrow.remembers
    refine given_bind.mpr (given_mono ?_ (given_deltaPages hname startMonotonic _ hsound))
    rintro (e | (⟨link, t⟩ | counts)) w₂ hkept
    · exact hkept
    · exact given_finishPoll ⟨hkept.start, by simp [truthy], hkept.delta⟩
    · exact hkept

/-! ## Runs of polls -/

/-- Whenever a poll of the run stores a link, every candidate of every page
before it was handed over or counted. -/
def LosesNone {lib : ClientLib} {out : Outside} {initial : String}
    (G : Graph lib.toPyValues out initial) (name : String) (polls : List PollArgs)
    (w : ClientState) : Prop :=
  ∀ before a after, polls = before ++ a :: after →
    ∀ e ∈ (pollAccountOnce lib a).trace (clientHandle out) (runPolls lib out before w),
      ∀ link, e.op = .file (.saveCursor link) → SettledBefore G name e.post link

/-- In every poll of the run, every page fits what is left of the budget, and
nothing is downloaded without a processor. -/
def RunWithin (lib : ClientLib) (out : Outside) (polls : List PollArgs) (w : ClientState) : Prop :=
  ∀ before a after, polls = before ++ a :: after →
    ∀ e ∈ (pollAccountOnce lib a).trace (clientHandle out) (runPolls lib out before w),
      Within a e.op e.pre

/-- Polls of an account that never was polled before. -/
theorem poll_loses_none {root name : String} {lib : ClientLib} {out : Outside}
    (G : Graph lib.toPyValues out (buildInitialDeltaUrl root)) (polls : List PollArgs)
    (w : ClientState)
    (haccount : ∀ a ∈ polls, a.effectiveOnedriveRoot = root ∧ a.accountName = name)
    (hfresh : w.cursorFile = none) (hwithin : RunWithin lib out polls w) :
    LosesNone G name polls w := by
  have hpoll : ∀ before a after, polls = before ++ a :: after →
      SettledBefore G name (runPolls lib out before w)
        (startUrl (buildInitialDeltaUrl root) (runPolls lib out before w)) →
      (∀ e ∈ (pollAccountOnce lib a).trace (clientHandle out) (runPolls lib out before w),
        Stores G name e.op e.pre e.post) ∧
      SettledBefore G name (runPolls lib out (before ++ [a]) w)
        (startUrl (buildInitialDeltaUrl root) (runPolls lib out (before ++ [a]) w)) := by
    intro before a after hsplit hstart
    obtain ⟨hroot, hname⟩ := haccount a (by simp [hsplit])
    subst hroot
    obtain ⟨hstores, hend⟩ :=
      given_trace (given_pollAccountOnce hname hstart) (hwithin before a after hsplit)
    -- what follows the poll leaves the cursor and what it recorded
    have hafter := untouched_pollSingleAccount lib out a (runPolls lib out before w)
    rw [runPolls_append]
    exact ⟨hstores, hend.start hafter.cursorFile hafter.grows.remembers⟩
  -- Before every poll, nothing before its start is unsettled.
  have hstart : ∀ before after, polls = before ++ after →
      SettledBefore G name (runPolls lib out before w)
        (startUrl (buildInitialDeltaUrl root) (runPolls lib out before w)) := by
    intro before
    induction before using List.reverseRecOn with
    | nil =>
      intro after _ p hp
      have hinit : startUrl (buildInitialDeltaUrl root) (runPolls lib out [] w) =
          buildInitialDeltaUrl root := by rw [runPolls, startUrl, hfresh]; rfl
      rw [hinit, G.before_initial] at hp
      exact hp.elim
    | append_singleton before a ih =>
      intro after hsplit
      rw [List.append_assoc] at hsplit
      exact (hpoll before a after hsplit (ih _ hsplit)).2
  intro before a after hsplit e he link hop
  have hstores := (hpoll before a after hsplit (hstart before _ hsplit)).1 e he
  rw [hop] at hstores
  exact hstores

/-! ## A page larger than the budget -/

def fileItem (id : String) : Json :=
  .obj [("id", .str id), ("name", .str (id ++ ".jpg")), ("file", .obj []), ("size", .num "1"),
    ("lastModifiedDateTime", .str "2024-01-01T00:00:00Z"),
    ("@microsoft.graph.downloadUrl", .str ("https://content/" ++ id))]

/-- One page with two files. -/
def twoFiles : Payload :=
  [("value", .arr [fileItem "a", fileItem "b"]), ("@odata.deltaLink", .str "https://graph/delta?1")]

def sizeLib : ClientLib where
  str _ := ""
  int _ := .int 1
  sha256Text _ := ""

/-- The initial URL has the page, everything else one byte of content. -/
def twoFilesServer : Outside where
  get _ url bearer :=
    if bearer.isNone then .response ⟨200, none, [[0]], none, none⟩
    else if url = buildInitialDeltaUrl "/Camera Roll" then
      .response ⟨200, some (.obj twoFiles), [], none, none⟩
    else .response ⟨404, none, [], none, none⟩
  refresh _ := .raises
  monotonic n := n
  time n := n
  utcnow _ _ := "2024-01-01T00:00:00+00:00"
  age _ _ := 0
  jitter _ := 0.0
  driftCritical _ := false
  fails _ _ := false
  processor _ _ := true

theorem answered_twoFiles {url : String} {p : Payload} (h : Answered twoFilesServer url p) :
    p = twoFiles := by
  obtain ⟨n, token, r, hget, hstatus, hjson⟩ := h
  simp only [twoFilesServer, Option.isNone_some, Bool.false_eq_true, if_false] at hget
  split at hget
  · cases hget
    cases hjson
    rfl
  · cases hget
    cases hjson

/-- The page lies before its delta link, and nothing else lies anywhere. -/
def twoFilesGraph :
    Graph sizeLib.toPyValues twoFilesServer (buildInitialDeltaUrl "/Camera Roll") where
  before l := { p | l = "https://graph/delta?1" ∧ p = twoFiles }
  before_initial := by
    refine Set.eq_empty_of_forall_notMem fun p hp => ?_
    exact absurd hp.1 (by decide +kernel)
  before_link _ p _ hanswer _ q hq := .inr (hq.2.trans (answered_twoFiles hanswer).symm)
  trimmed url p l hanswer hl := by
    rw [answered_twoFiles hanswer] at hl
    rcases hl with hl | hl
    · have hnone : nextLink sizeLib.toPyValues twoFiles = none := rfl
      rw [hnone] at hl
      cases hl
    · have hlink : deltaLink sizeLib.toPyValues twoFiles = some "https://graph/delta?1" := rfl
      rw [hlink] at hl
      cases hl
      decide +kernel

instance (a : PollArgs) : ∀ (o : ClientOp) (w : ClientState), Decidable (Within a o w)
  | .enterDownload candidates (some budget), _ =>
    inferInstanceAs (Decidable ((candidates.length : Int) ≤ budget))
  | .enterDownload _ none, _ => .isTrue trivial
  | .file (.appendManifest _), _ => inferInstanceAs (Decidable (a.hasProcessor = true))
  | .file (.saveCursor _), _ | .file (.markResync _ _), _ | .file .clearResyncMarker, _
  | .file (.saveIncidentState _), _ | .file .unlinkManifest, _ | .file (.appendLifecycle _), _
  | .file (.unlink _), _ | .file (.replace _ _), _ | .file (.openWb _), _ | .file (.write _ _), _ =>
    .isTrue trivial
  | .get _ _, _ | .refreshAccessToken, _ | .sleep _ _ _, _ | .monotonic, _ | .time, _ | .utcnow, _
  | .readCursor, _ | .loadIncidentState, _ | .tmpFiles _, _ | .countGhost _ _, _
  | .countRetry _, _ | .driftCritical, _ | .pageHandoff _ _, _ => .isTrue trivial

/-- With room for both files the run loses none. -/
theorem two_files_kept :
    LosesNone twoFilesGraph "alice" [plainArgs] emptyState := by
  refine poll_loses_none twoFilesGraph [plainArgs] emptyState (by simp [plainArgs]) rfl ?_
  intro before a after hsplit
  rcases before with _ | ⟨b, before⟩
  · cases hsplit
    decide +kernel
  · simp at hsplit

/-- The operation stores the link of the page, with nothing known of file `b`. -/
def storesWithoutB (e : Event ClientOps ClientState) : Bool :=
  (match e.op with
    | .file (.saveCursor link) => link == "https://graph/delta?1"
    | _ => false) &&
  !e.post.handed.any (·.onedriveId == "b") && !e.post.ghosts.any (·.1.itemId == "b")

/-- A budget of one stops the page in the middle; its delta link is stored all
the same, and the second file is never seen again. -/
theorem second_file_lost :
    ¬ LosesNone twoFilesGraph "alice" [{ plainArgs with maxDownloads := 1 }] emptyState := by
  intro h
  have hany : ((pollAccountOnce sizeLib { plainArgs with maxDownloads := 1 }).trace
      (clientHandle twoFilesServer) emptyState).any storesWithoutB = true := by decide +kernel
  obtain ⟨e, he, hstores⟩ := List.any_eq_true.mp hany
  simp only [storesWithoutB, Bool.and_eq_true, Bool.not_eq_true', List.any_eq_false,
    beq_iff_eq] at hstores
  obtain ⟨⟨hop, hhanded⟩, hghosts⟩ := hstores
  have hsave : e.op = .file (.saveCursor "https://graph/delta?1") := by
    split at hop
    · next heq => rw [heq, beq_iff_eq.mp hop]
    · cases hop
  have hselected : (reduceDeltaPageCandidates sizeLib.toPyValues "alice" (fun _ => "")
      twoFiles).toOption.any (·.any (·.itemId == "b")) = true := by decide +kernel
  cases hcs : reduceDeltaPageCandidates sizeLib.toPyValues "alice" (fun _ => "") twoFiles with
  | error _ => rw [hcs] at hselected; cases hselected
  | ok cs =>
    rw [hcs] at hselected
    obtain ⟨c, hc, hid⟩ := List.any_eq_true.mp hselected
    have hitem : ∀ {c' : RemoteCandidate}, c'.item = c.item → c'.itemId = "b" := fun heq =>
      (congrArg RemoteCandidate.itemId heq).trans (beq_iff_eq.mp hid)
    rcases h [] _ [] rfl e he _ hsave twoFiles ⟨rfl, rfl⟩ _ cs hcs c hc with
      ⟨c', path, heq, hrow⟩ | ⟨c', reason, heq, hghost⟩
    · exact hhanded _ hrow (hitem heq)
    · exact hghosts _ hghost (hitem heq)

end Nightfall.OneDrive
