import Mathlib.Data.List.Forall2
import Nightfall.L3Flows.Transactions
import Nightfall.L3Flows.LivePhoto

/-!
# Runs of the pair queue (`live_photo.py`)

`LivePhoto` has what one `ingest` does. Here calls of `ingest` and of
`pop_aged_unresolved` follow each other, at any readings of the clock. A run keeps,
beside the queue, the candidates it was given, the pairs it returned and the rows it
popped.

* `queueIngest_spec`: an `ingest` passes a candidate over, raises, queues it, or pairs it
  with a nearest eligible entry.
* `QueueInv`: the candidates given are those in pairs, in the queue and popped, and no two
  entries of the queue could be a pair.
* `pairQueue_conserves`: every run keeps it.
-/
namespace Nightfall
open Nightfall.Core Storage Prog

structure UnresolvedLivePhotoCandidate where
  account : String
  onedriveId : String
  filename : String
  component : Component
  stem : String
  capturedAt : String
  queuedAt : String
  ageSeconds : Int
  deriving DecidableEq, Repr

def UnresolvedLivePhotoCandidate.candidate (row : UnresolvedLivePhotoCandidate) :
    LivePhotoCandidate :=
  ⟨row.account, row.onedriveId, row.filename, row.capturedAt⟩

def Queued.unresolved (q : Queued) (ageSeconds : Int) : UnresolvedLivePhotoCandidate :=
  ⟨q.candidate.account, q.candidate.onedriveId, q.candidate.filename, q.component, q.stem,
    q.candidate.capturedAt, q.queuedAt.iso, ageSeconds⟩

/-- The sort key `(account, stem, queued_at)`. -/
def rowBefore (a b : UnresolvedLivePhotoCandidate) : Bool :=
  a.account < b.account || (a.account == b.account &&
    (a.stem < b.stem || (a.stem == b.stem && a.queuedAt ≤ b.queuedAt)))

/-- `max(0, int((now - queued_at).total_seconds()))`; `seconds` is what Python's floats
make of a number of microseconds. -/
def ageAt (seconds : Int → Int) (now : Instant) (q : Queued) : Int :=
  max 0 (seconds (now.stamp.micros - q.queuedAt.stamp.micros))

/-- mirrors src/nightfall_photo_ingress/live_photo.py:189-216 -/
def popAgedUnresolved (seconds : Int → Int) (maxAgeSeconds : Int) (queued : List Queued) :
    Flow (List UnresolvedLivePhotoCandidate × List Queued) := do
  let now ← utcNow
  let aged := fun q => decide (maxAgeSeconds ≤ ageAt seconds now q)
  let removed := (queued.filter aged).map fun q => q.unresolved (ageAt seconds now q)
  pure (removed.insertionSort fun a b => rowBefore a b, queued.filter fun q => !aged q)

/-! ## Runs -/

inductive PairCall where
  | ingest (c : LivePhotoCandidate)
  | popAged (maxAgeSeconds : Int)
  deriving DecidableEq, Repr

/-- A pair that was returned, with the candidate that arrived and the queue before and
behind it. -/
structure PairFound where
  pair : LivePhotoPair
  arrived : LivePhotoCandidate
  before : List Queued
  after : List Queued

structure PairRun where
  world : World
  queued : List Queued
  /-- the photos and videos whose `ingest` returned -/
  ingested : List LivePhotoCandidate
  pairs : List PairFound
  popped : List UnresolvedLivePhotoCandidate

def PairRun.start (w : World) : PairRun := ⟨w, [], [], [], []⟩

def pairStep (env : Env) (h : LivePhotoHeuristics) (seconds : Int → Int) (s : PairRun) :
    PairCall → PairRun
  | .ingest c =>
    match (queueIngest env h s.queued c).run (handle env) s.world with
    | (.error _, w) => { s with world := w }
    | (.ok (found, queued), w) =>
      { world := w
        queued := queued
        ingested := if (classifyComponent c.filename).isSome then s.ingested ++ [c] else s.ingested
        pairs := s.pairs ++ found.toList.map fun pair => ⟨pair, c, s.queued, queued⟩
        popped := s.popped }
  | .popAged maxAgeSeconds =>
    match (popAgedUnresolved seconds maxAgeSeconds s.queued).run (handle env) s.world with
    | (.error _, w) => { s with world := w }
    | (.ok (removed, queued), w) =>
      { s with world := w, queued := queued, popped := s.popped ++ removed }

def queueRun (env : Env) (h : LivePhotoHeuristics) (seconds : Int → Int) (calls : List PairCall)
    (s : PairRun) : PairRun :=
  calls.foldl (pairStep env h seconds) s

/-! ## What a pair is -/

/-- `_parse_iso(candidate.captured_at)`, in microseconds. -/
def captureTime (env : Env) (c : LivePhotoCandidate) : Option Int :=
  (env.fromisoformat
    (String.ofList (replaceAll c.capturedAt.toList "Z".toList "+00:00".toList))).map (·.micros)

/-- The distance of two capture times is within the tolerance. -/
def WithinTolerance (h : LivePhotoHeuristics) (a b : Int) : Prop :=
  (a - b).natAbs ≤ h.captureToleranceSeconds * 1000000

instance (h : LivePhotoHeuristics) (a b : Int) : Decidable (WithinTolerance h a b) :=
  inferInstanceAs (Decidable (_ ≤ _))

/-- A queued entry could be the other half of a candidate: account, stem, the other
component, and a capture time within the tolerance. -/
structure Eligible (env : Env) (h : LivePhotoHeuristics) (c : LivePhotoCandidate) (q : Queued) :
    Prop where
  account : q.candidate.account = c.account
  stem : q.stem = stemOf c.filename
  component : ∃ component, classifyComponent c.filename = some component ∧
    q.component = component.counterpart
  near : ∃ t, captureTime env c = some t ∧ WithinTolerance h q.capturedAt t

/-- The photo and the video of a returned pair: which they are, and that the one that was
queued is a nearest of the eligible entries. -/
structure Resolves (env : Env) (h : LivePhotoHeuristics) (f : PairFound)
    (m : LivePhotoCandidate × LivePhotoCandidate) : Prop where
  photo : classifyComponent m.1.filename = some .photo
  video : classifyComponent m.2.filename = some .video
  account : m.1.account = m.2.account
  stem : stemOf m.1.filename = stemOf m.2.filename
  near : ∃ t t', captureTime env m.1 = some t ∧ captureTime env m.2 = some t' ∧
    WithinTolerance h t t'
  pair : f.pair = ⟨m.1.account, stemOf m.1.filename, m.1.onedriveId, m.2.onedriveId⟩
  nearest : ∃ q ∈ f.before, f.after = f.before.erase q ∧ Eligible env h f.arrived q ∧
    (m = (f.arrived, q.candidate) ∨ m = (q.candidate, f.arrived)) ∧
    ∀ t, captureTime env f.arrived = some t → ∀ q' ∈ f.before, Eligible env h f.arrived q' →
      (q.capturedAt - t).natAbs ≤ (q'.capturedAt - t).natAbs

/-! ## One call -/

theorem nearest_eq_none {t : Int} {l : List Queued} : nearest t l = none ↔ l = [] := by
  cases l <;> simp [nearest]

/-- The fold keeps the nearest entry seen so far. -/
theorem nearest_fold (t : Int) : ∀ (l : List Queued) (best : Queued),
    let r := l.foldl (fun best q' =>
      if (q'.capturedAt - t).natAbs < (best.capturedAt - t).natAbs then q' else best) best
    (r = best ∨ r ∈ l) ∧ (r.capturedAt - t).natAbs ≤ (best.capturedAt - t).natAbs ∧
      ∀ q ∈ l, (r.capturedAt - t).natAbs ≤ (q.capturedAt - t).natAbs
  | [], best => ⟨.inl rfl, Nat.le_refl _, fun _ h => absurd h List.not_mem_nil⟩
  | q :: l, best => by
    simp only [List.foldl_cons]
    split
    · next hlt =>
      obtain ⟨hmem, hbest, hall⟩ := nearest_fold t l q
      refine ⟨.inr ?_, hbest.trans (Nat.le_of_lt hlt), List.forall_mem_cons.mpr ⟨hbest, hall⟩⟩
      exact hmem.elim (fun heq => by rw [heq]; exact List.mem_cons_self) (List.mem_cons_of_mem _)
    · next hnot =>
      obtain ⟨hmem, hbest, hall⟩ := nearest_fold t l best
      refine ⟨hmem.imp_right (List.mem_cons_of_mem _), hbest, List.forall_mem_cons.mpr ⟨?_, hall⟩⟩
      exact hbest.trans (Nat.le_of_not_lt hnot)

theorem nearest_eq_some {t : Int} {l : List Queued} {q : Queued} (h : nearest t l = some q) :
    q ∈ l ∧ ∀ q' ∈ l, (q.capturedAt - t).natAbs ≤ (q'.capturedAt - t).natAbs := by
  cases l with
  | nil => cases h
  | cons first l =>
    obtain rfl := Option.some.inj h
    obtain ⟨hmem, hfirst, hall⟩ := nearest_fold t l first
    refine ⟨?_, List.forall_mem_cons.mpr ⟨hfirst, hall⟩⟩
    exact hmem.elim (fun heq => by rw [heq]; exact List.mem_cons_self) (List.mem_cons_of_mem _)

/-- The pair of a candidate and the entry it is paired with. -/
def foundPair (component : Component) (c : LivePhotoCandidate) (other : Queued) : LivePhotoPair :=
  match component with
  | .photo => ⟨c.account, stemOf c.filename, c.onedriveId, other.candidate.onedriveId⟩
  | .video => ⟨c.account, stemOf c.filename, other.candidate.onedriveId, c.onedriveId⟩

/-- The ends of one `ingest`. -/
inductive IngestEnds (env : Env) (h : LivePhotoHeuristics) (queued : List Queued)
    (c : LivePhotoCandidate) : Except Err (Option LivePhotoPair × List Queued) → Prop
  | passed (hclass : classifyComponent c.filename = none) :
      IngestEnds env h queued c (.ok (none, queued))
  | raised (e : Err) : IngestEnds env h queued c (.error e)
  | queued {component : Component} {t : Int} {now : Instant}
      (hclass : classifyComponent c.filename = some component)
      (htime : captureTime env c = some t) (hnone : ∀ q ∈ queued, ¬ Eligible env h c q) :
      IngestEnds env h queued c
        (.ok (none, queued ++ [⟨c, component, stemOf c.filename, t, now⟩]))
  | paired {component : Component} {q : Queued}
      (hclass : classifyComponent c.filename = some component) (hq : q ∈ queued)
      (heligible : Eligible env h c q)
      (hnearest : ∀ t, captureTime env c = some t → ∀ q' ∈ queued, Eligible env h c q' →
        (q.capturedAt - t).natAbs ≤ (q'.capturedAt - t).natAbs) :
      IngestEnds env h queued c (.ok (some (foundPair component c q), queued.erase q))

theorem eligible_iff {env : Env} {h : LivePhotoHeuristics} {c : LivePhotoCandidate}
    {component : Component} {t : Int} (hclass : classifyComponent c.filename = some component)
    (htime : captureTime env c = some t) (q : Queued) :
    (q.candidate.account == c.account && q.stem == stemOf c.filename &&
      q.component == component.counterpart &&
      (q.capturedAt - t).natAbs ≤ h.captureToleranceSeconds * 1000000) = true ↔
      Eligible env h c q := by
  simp only [Bool.and_eq_true, beq_iff_eq, decide_eq_true_eq]
  constructor
  · rintro ⟨⟨⟨haccount, hstem⟩, hcomponent⟩, hnear⟩
    exact ⟨haccount, hstem, ⟨component, hclass, hcomponent⟩, ⟨t, htime, hnear⟩⟩
  · rintro ⟨haccount, hstem, ⟨component', hclass', hcomponent⟩, ⟨t', htime', hnear⟩⟩
    obtain rfl := Option.some.inj (hclass.symm.trans hclass')
    obtain rfl := Option.some.inj (htime.symm.trans htime')
    exact ⟨⟨⟨haccount, hstem⟩, hcomponent⟩, hnear⟩

theorem queueIngest_spec (env : Env) (h : LivePhotoHeuristics) (queued : List Queued)
    (c : LivePhotoCandidate) (w : World) :
    IngestEnds env h queued c ((queueIngest env h queued c).run (handle env) w).1 := by
  unfold queueIngest
  cases hclass : classifyComponent c.filename with
  | none => exact .passed hclass
  | some component =>
    cases hparse : env.fromisoformat
        (String.ofList (replaceAll c.capturedAt.toList "Z".toList "+00:00".toList)) with
    | none => exact .raised _
    | some ts =>
      have htime : captureTime env c = some ts.micros := by rw [captureTime, hparse]; rfl
      simp only
      cases hnear : nearest ts.micros (queued.filter fun q =>
          q.candidate.account == c.account && q.stem == stemOf c.filename &&
            q.component == component.counterpart &&
            (q.capturedAt - ts.micros).natAbs ≤ h.captureToleranceSeconds * 1000000) with
      | none =>
        refine .queued hclass htime fun q hq helig => ?_
        have hfilter := List.filter_eq_nil_iff.mp (nearest_eq_none.mp hnear) q hq
        exact hfilter ((eligible_iff hclass htime q).mpr helig)
      | some q =>
        obtain ⟨hmem, hmin⟩ := nearest_eq_some hnear
        obtain ⟨hq, helig⟩ := List.mem_filter.mp hmem
        have hnearest : ∀ t, captureTime env c = some t → ∀ q' ∈ queued, Eligible env h c q' →
            (q.capturedAt - t).natAbs ≤ (q'.capturedAt - t).natAbs := by
          intro t ht q' hq' helig'
          obtain rfl := Option.some.inj (htime.symm.trans ht)
          exact hmin q' (List.mem_filter.mpr ⟨hq', (eligible_iff hclass htime q').mpr helig'⟩)
        cases component <;>
          exact .paired hclass hq ((eligible_iff hclass htime q).mp helig) hnearest

/-! ## What a run keeps -/

/-- An entry of the queue is what `ingest` makes of its candidate. -/
structure Entry (env : Env) (q : Queued) : Prop where
  component : classifyComponent q.candidate.filename = some q.component
  stem : stemOf q.candidate.filename = q.stem
  time : captureTime env q.candidate = some q.capturedAt

structure QueueInv (env : Env) (h : LivePhotoHeuristics) (s : PairRun) : Prop where
  entries : ∀ q ∈ s.queued, Entry env q
  apart : s.queued.Pairwise fun a b =>
    ¬ Eligible env h a.candidate b ∧ ¬ Eligible env h b.candidate a
  places : ∃ members, List.Forall₂ (Resolves env h) s.pairs members ∧
    s.ingested.Perm (members.flatMap (fun m => [m.1, m.2]) ++ s.queued.map (·.candidate) ++
      s.popped.map (·.candidate))

variable {env : Env} {h : LivePhotoHeuristics} {s : PairRun}

theorem withinTolerance_comm {a b : Int} : WithinTolerance h a b ↔ WithinTolerance h b a := by
  unfold WithinTolerance
  rw [← Int.natAbs_neg (a - b), Int.neg_sub]

@[simp] theorem counterpart_counterpart (c : Component) : c.counterpart.counterpart = c := by
  cases c <;> rfl

/-- Two entries are eligible for each other or not at all. -/
theorem eligible_symm {a b : Queued} (ha : Entry env a) (hb : Entry env b)
    (helig : Eligible env h a.candidate b) : Eligible env h b.candidate a := by
  obtain ⟨component, hclass, hcomponent⟩ := helig.component
  obtain ⟨t, htime, hnear⟩ := helig.near
  obtain rfl := Option.some.inj (ha.component.symm.trans hclass)
  obtain rfl := Option.some.inj (ha.time.symm.trans htime)
  refine ⟨helig.account.symm, ?_, ⟨b.component, hb.component, ?_⟩,
    ⟨b.capturedAt, hb.time, withinTolerance_comm.mp hnear⟩⟩
  · rw [hb.stem, helig.stem, ha.stem]
  · rw [hcomponent, counterpart_counterpart]

theorem queueInv_start (w : World) : QueueInv env h (.start w) :=
  ⟨fun _ h => absurd h List.not_mem_nil, List.Pairwise.nil, [], .nil, List.Perm.refl _⟩

/-- A new entry that nothing in the queue is eligible for. -/
theorem queueInv_queued (hs : QueueInv env h s) {q : Queued} (hq : Entry env q)
    (hnone : ∀ q' ∈ s.queued, ¬ Eligible env h q.candidate q') (w : World) :
    QueueInv env h { s with
      world := w, queued := s.queued ++ [q], ingested := s.ingested ++ [q.candidate] } := by
  obtain ⟨hentries, hapart, members, hpairs, hperm⟩ := hs
  refine ⟨List.forall_mem_append.mpr ⟨hentries, by simpa using hq⟩, ?_, members, hpairs, ?_⟩
  · refine List.pairwise_append.mpr ⟨hapart, List.pairwise_singleton _ _, fun a ha b hb => ?_⟩
    obtain rfl := List.mem_singleton.mp hb
    exact ⟨fun helig => hnone a ha (eligible_symm (hentries a ha) hq helig), hnone a ha⟩
  · refine (hperm.append_right [q.candidate]).trans ?_
    simp only [List.map_append, List.map_cons, List.map_nil, List.append_assoc]
    exact ((List.perm_append_comm).append_left _).append_left _

/-- A candidate that takes a nearest entry out. -/
theorem queueInv_paired (hs : QueueInv env h s) {c : LivePhotoCandidate} {q : Queued}
    {component : Component} (hclass : classifyComponent c.filename = some component)
    (hq : q ∈ s.queued) (helig : Eligible env h c q)
    (hnearest : ∀ t, captureTime env c = some t → ∀ q' ∈ s.queued, Eligible env h c q' →
      (q.capturedAt - t).natAbs ≤ (q'.capturedAt - t).natAbs) (w : World) :
    QueueInv env h { s with
      world := w
      queued := s.queued.erase q
      ingested := s.ingested ++ [c]
      pairs := s.pairs ++ [⟨foundPair component c q, c, s.queued, s.queued.erase q⟩] } := by
  obtain ⟨hentries, hapart, members, hpairs, hperm⟩ := hs
  have hentry := hentries q hq
  obtain ⟨component', hclass', hcomponent⟩ := helig.component
  obtain rfl := Option.some.inj (hclass.symm.trans hclass')
  obtain ⟨t, htime, hnear⟩ := helig.near
  have hstem : stemOf q.candidate.filename = stemOf c.filename := hentry.stem.trans helig.stem
  refine ⟨fun q' hq' => hentries q' (List.mem_of_mem_erase hq'), hapart.sublist List.erase_sublist,
    members ++ [if component = .photo then (c, q.candidate) else (q.candidate, c)], ?_, ?_⟩
  · refine List.rel_append hpairs (.cons ?_ .nil)
    cases component with
    | photo =>
      exact ⟨hclass, hentry.component.trans (congrArg some hcomponent), helig.account.symm,
        hstem.symm, ⟨t, q.capturedAt, htime, hentry.time, withinTolerance_comm.mp hnear⟩, rfl,
        q, hq, rfl, helig, .inl rfl, hnearest⟩
    | video =>
      have hpair : foundPair .video c q = ⟨q.candidate.account, stemOf q.candidate.filename,
          q.candidate.onedriveId, c.onedriveId⟩ := by rw [foundPair, helig.account, hstem]
      exact ⟨hentry.component.trans (congrArg some hcomponent), hclass, helig.account,
        hstem, ⟨q.capturedAt, t, hentry.time, htime, hnear⟩, hpair, q, hq, rfl, helig, .inr rfl,
        hnearest⟩
  · have hrest := (List.perm_cons_erase hq).map (·.candidate)
    rw [List.perm_iff_count] at hperm hrest ⊢
    intro a
    have hold := hperm a
    have hqueue := hrest a
    cases component <;>
      simp only [List.count_append, List.flatMap_append, List.flatMap_singleton, List.map_cons,
        List.count_cons, List.count_nil, reduceCtorEq, if_true, if_false] at hold hqueue ⊢ <;>
      omega

/-- What is popped leaves the queue. -/
theorem queueInv_popped (hs : QueueInv env h s) (aged : Queued → Bool) (age : Queued → Int)
    (le : UnresolvedLivePhotoCandidate → UnresolvedLivePhotoCandidate → Prop) [DecidableRel le]
    (w : World) :
    QueueInv env h { s with
      world := w
      queued := s.queued.filter fun q => !aged q
      popped := s.popped ++
        ((s.queued.filter aged).map fun q => q.unresolved (age q)).insertionSort le } := by
  obtain ⟨hentries, hapart, members, hpairs, hperm⟩ := hs
  refine ⟨fun q hq => hentries q (List.mem_of_mem_filter hq), hapart.filter _, members, hpairs, ?_⟩
  have hsplit := (List.filter_append_perm aged s.queued).map (·.candidate)
  have hrows := ((List.perm_insertionSort le
    ((s.queued.filter aged).map fun q => q.unresolved (age q))).map (·.candidate))
  rw [List.map_map] at hrows
  have hsame : (s.queued.filter aged).map
      (UnresolvedLivePhotoCandidate.candidate ∘ fun q => q.unresolved (age q)) =
      (s.queued.filter aged).map (·.candidate) := rfl
  rw [hsame] at hrows
  rw [List.perm_iff_count] at hperm hsplit hrows ⊢
  intro a
  have hold := hperm a
  have hqueue := hsplit a
  have hpop := hrows a
  simp only [List.map_append, List.count_append] at hold hqueue hpop ⊢
  omega

theorem queueInv_step (seconds : Int → Int) (hs : QueueInv env h s) (call : PairCall) :
    QueueInv env h (pairStep env h seconds s call) := by
  cases call with
  | ingest c =>
    have hspec := queueIngest_spec env h s.queued c s.world
    delta pairStep
    dsimp only
    cases hrun : (queueIngest env h s.queued c).run (handle env) s.world with
    | mk r w =>
      rw [hrun] at hspec
      cases hspec with
      | passed hclass =>
        simp only [hclass, Option.isSome_none, Bool.false_eq_true, if_false, Option.toList_none,
          List.map_nil, List.append_nil]
        exact ⟨hs.entries, hs.apart, hs.places⟩
      | raised e => exact ⟨hs.entries, hs.apart, hs.places⟩
      | @queued component t now hclass htime hnone =>
        have hentry : Entry env ⟨c, component, stemOf c.filename, t, now⟩ := ⟨hclass, rfl, htime⟩
        simp only [hclass, Option.isSome_some, if_true, Option.toList_none, List.map_nil,
          List.append_nil]
        exact queueInv_queued hs hentry hnone w
      | paired hclass hq helig hnearest =>
        simp only [hclass, Option.isSome_some, if_true, Option.toList_some, List.map_cons,
          List.map_nil]
        exact queueInv_paired hs hclass hq helig hnearest w
  | popAged maxAgeSeconds =>
    exact queueInv_popped hs
      (fun q => decide (maxAgeSeconds ≤ ageAt seconds (env.clock s.world.ticks) q))
      (ageAt seconds (env.clock s.world.ticks)) (fun a b => rowBefore a b)
      { s.world with ticks := s.world.ticks + 1 }

/-- For every sequence of calls, from an empty queue, at any readings of the clock: every
photo and video taken in is in one returned pair, in the queue or popped, each occurrence
once; every pair is a photo and a video that resolve each other, the queued one a nearest
of those eligible; and no two entries of the queue are eligible for each other. -/
theorem pairQueue_conserves (env : Env) (h : LivePhotoHeuristics) (seconds : Int → Int)
    (w : World) (calls : List PairCall) :
    QueueInv env h (queueRun env h seconds calls (.start w)) := by
  -- by induction on the calls, from any state that has the invariant
  suffices hall : ∀ s, QueueInv env h s → QueueInv env h (queueRun env h seconds calls s) from
    hall _ (queueInv_start w)
  induction calls with
  | nil => exact fun _ hs => hs
  | cons call calls ih => exact fun _ hs => ih _ (queueInv_step seconds hs call)

end Nightfall
