import Nightfall.Core.LastWins
import Nightfall.L7OneDrive.Delta

/-!
# What a sequence of delta pages comes to

The poll applies one page after the other to the same reducer. Each item is an event of
its id: a deletion, a file that becomes a candidate, or nothing. Events are numbered
across pages, so where a page ends does not matter.

* `applyDeltaPages_eq`: the pages one by one are the page of all their items.
* `lastCandidates`: of each id the last event, without the deletions, in the order of
  the events.
* `reducer_lastCandidates_iff`: the reducer comes to that list exactly when no size makes
  `int` raise what the parser does not catch.
* `infinite_size`: one file with such a size stops the whole sequence.
-/
namespace Nightfall.OneDrive
open Nightfall.Core

/-! ## Pages -/

/-- `payload["value"]` where that is a list. -/
def pageValue (payload : Payload) : List Json :=
  match payload.get "value" with
  | .arr items => items
  | _ => []

/-- One page with the items of all of them. -/
def onePage (pages : List Payload) : Payload := [("value", .arr (pages.flatMap pageValue))]

/-- The pages in order; `readings n` is the clock at the `n`-th item of them all. -/
def applyDeltaPages (py : PyValues) (accountName : String) (readings : Nat → String) :
    Nat → List Payload → Reducer → Except Unit Reducer
  | _, [], r => .ok r
  | n, page :: pages, r => do
    let r ← applyDeltaPageToReducer py accountName (fun i => readings (n + i)) page r
    applyDeltaPages py accountName readings (n + (pageItems page).length) pages r

/-! ## The list the pages stand for -/

/-- What an item does to its id: delete it, or make it a candidate. -/
def effectiveEvent (py : PyValues) (accountName now : String) (raw : Payload) :
    Option (String × Option RemoteCandidate) :=
  match truthy (asStr py (raw.get "id")) with
  | none => none
  | some itemId =>
    if raw.has "deleted" then some (itemId, none)
    else if !raw.has "file" then none
    else
      match buildCandidateFromPayload py accountName now raw with
      | .ok (some candidate) => some (itemId, some candidate)
      | _ => none

def effectiveEvents (py : PyValues) (accountName : String) (readings : Nat → String) :
    Nat → List Payload → List (String × Option RemoteCandidate)
  | _, [] => []
  | n, raw :: raws => (effectiveEvent py accountName (readings n) raw).toList ++
      effectiveEvents py accountName readings (n + 1) raws

/-- The last event of each id, without the deletions. -/
def lastCandidates (py : PyValues) (accountName : String) (readings : Nat → String)
    (pages : List Payload) : List RemoteCandidate :=
  (lastEvents (effectiveEvents py accountName readings 0 (pages.flatMap pageItems))).filterMap
    Prod.snd

/-- A file with an id and a name whose size makes `int` raise `OverflowError`. -/
structure Overflows (py : PyValues) (raw : Payload) : Prop where
  id : (truthy (asStr py (raw.get "id"))).isSome = true
  kept : raw.has "deleted" = false
  file : raw.has "file" = true
  name : (truthy (asStr py (raw.get "name"))).isSome = true
  present : raw.get "size" ≠ .null
  overflow : py.int (raw.get "size") = .overflow

/-! ## One page -/

section
variable {py : PyValues} {accountName now : String} {readings : Nat → String}

theorem pageItems_eq (payload : Payload) : pageItems payload =
    (pageValue payload).filterMap fun
      | .obj fields => some fields
      | _ => none := by
  unfold pageItems pageValue
  cases payload.get "value" with
  | arr items => rfl
  | null | bool | num | str | obj => rfl

theorem pageItems_onePage (pages : List Payload) :
    pageItems (onePage pages) = pages.flatMap pageItems := by
  have hvalue : pageValue (onePage pages) = pages.flatMap pageValue := rfl
  rw [pageItems_eq, hvalue, List.filterMap_flatMap]
  exact List.flatMap_congr fun page _ => (pageItems_eq page).symm

theorem reduceItems_append : ∀ (n : Nat) (xs ys : List Payload) (r : Reducer),
    reduceItems py accountName readings n (xs ++ ys) r =
      (reduceItems py accountName readings n xs r >>= fun r =>
        reduceItems py accountName readings (n + xs.length) ys r)
  | n, [], ys, r => rfl
  | n, x :: xs, ys, r => by
    rw [List.cons_append, reduceItems, reduceItems]
    cases hone : reduceItem py accountName (readings n) r x with
    | error e => rfl
    | ok r' =>
      have hlen : n + (x :: xs).length = n + 1 + xs.length := by
        rw [List.length_cons]
        omega
      rw [hlen]
      exact reduceItems_append (n + 1) xs ys r'

/-- The items from the `n`-th on read the clock from there. -/
theorem reduceItems_shift (n : Nat) : ∀ (m : Nat) (raws : List Payload) (r : Reducer),
    reduceItems py accountName (fun i => readings (n + i)) m raws r =
      reduceItems py accountName readings (n + m) raws r
  | _, [], _ => rfl
  | m, raw :: raws, r => by
    rw [reduceItems, reduceItems]
    cases reduceItem py accountName (readings (n + m)) r raw with
    | error e => rfl
    | ok r' => exact reduceItems_shift n (m + 1) raws r'

/-- Where one page ends and the next begins does not matter. -/
theorem applyDeltaPages_eq : ∀ (n : Nat) (pages : List Payload) (r : Reducer),
    applyDeltaPages py accountName readings n pages r =
      reduceItems py accountName readings n (pages.flatMap pageItems) r
  | _, [], _ => rfl
  | n, page :: pages, r => by
    rw [applyDeltaPages, applyDeltaPageToReducer, reduceItems_shift, List.flatMap_cons,
      reduceItems_append]
    cases reduceItems py accountName readings (n + 0) (pageItems page) r with
    | error e => rfl
    | ok r' => exact applyDeltaPages_eq _ pages r'

/-! ## One item -/

theorem sizeBytesOf_eq_error {raw : Payload} {e : Unit} : sizeBytesOf py raw = .error e ↔
    raw.get "size" ≠ .null ∧ py.int (raw.get "size") = .overflow := by
  unfold sizeBytesOf
  split
  · next hnull => simp [hnull]
  · next hsome =>
    cases hint : py.int (raw.get "size") with
    | int n => simp
    | invalid => simp
    | overflow => simpa using hsome

/-- The candidate of an item has its id. -/
theorem itemId_of_build {raw : Payload} {c : RemoteCandidate}
    (h : buildCandidateFromPayload py accountName now raw = .ok (some c)) :
    truthy (asStr py (raw.get "id")) = some c.itemId := by
  unfold buildCandidateFromPayload at h
  split at h
  · cases h
  · next itemId hid =>
    split at h
    · cases h
    · split at h
      · cases h
      · cases h
      · cases h
        exact hid

/-- An item raises on its size, or is the event it stands for. -/
theorem reduceItem_spec (py : PyValues) (accountName now : String) (r : Reducer) (raw : Payload) :
    (Overflows py raw ∧ reduceItem py accountName now r raw = .error ()) ∨
      (¬ Overflows py raw ∧ ∃ r', reduceItem py accountName now r raw = .ok r' ∧
        r.sequence ≤ r'.sequence ∧
        match effectiveEvent py accountName now raw with
        | none => r'.entries = r.entries
        | some (itemId, candidate) =>
          r'.sequence = r.sequence + 1 ∧
            r'.entries = r.entries.put itemId ⟨r.sequence + 1, candidate⟩) := by
  unfold reduceItem effectiveEvent
  cases hid : truthy (asStr py (raw.get "id")) with
  | none =>
    refine .inr ⟨fun h => ?_, _, rfl, Nat.le_refl _, rfl⟩
    have := h.id
    rw [hid] at this
    cases this
  | some itemId =>
    cases hdel : raw.has "deleted" with
    | true =>
      refine .inr ⟨fun h => ?_, _, rfl, Nat.le_succ _, rfl, rfl⟩
      rw [h.kept] at hdel
      cases hdel
    | false =>
      cases hfile : raw.has "file" with
      | false =>
        refine .inr ⟨fun h => ?_, _, rfl, Nat.le_succ _, rfl⟩
        rw [h.file] at hfile
        cases hfile
      | true =>
        simp only [Bool.false_eq_true, Bool.not_true, if_false]
        unfold buildCandidateFromPayload
        simp only [hid]
        cases hname : truthy (asStr py (raw.get "name")) with
        | none =>
          simp only [classifyInvalidCandidateReason, hid, hname, Option.isNone_some,
            Option.isNone_none, Bool.false_eq_true, if_false, if_true]
          refine .inr ⟨fun h => ?_, _, rfl, Nat.le_succ _, rfl⟩
          have := h.name
          rw [hname] at this
          cases this
        | some name =>
          simp only
          cases hsize : sizeBytesOf py raw with
          | error e =>
            obtain ⟨hnull, hover⟩ := sizeBytesOf_eq_error.mp hsize
            exact .inl ⟨⟨by rw [hid]; rfl, hdel, hfile, by rw [hname]; rfl, hnull, hover⟩, rfl⟩
          | ok size =>
            have hnot : ¬ Overflows py raw := fun h => by
              have := sizeBytesOf_eq_error (e := ()).mpr ⟨h.present, h.overflow⟩
              rw [hsize] at this
              cases this
            refine .inr ⟨hnot, ?_⟩
            cases size with
            | some size => exact ⟨_, rfl, Nat.le_succ _, rfl, rfl⟩
            | none =>
              have hreason : ∃ reason, classifyInvalidCandidateReason py raw = .ok reason := by
                simp only [classifyInvalidCandidateReason, hid, hname, Option.isNone_some,
                  Bool.false_eq_true, if_false]
                split
                · exact ⟨_, rfl⟩
                · next hsome =>
                  cases hint : py.int (raw.get "size") with
                  | int n => exact ⟨_, rfl⟩
                  | invalid => exact ⟨_, rfl⟩
                  | overflow =>
                    exact absurd ⟨by rw [hid]; rfl, hdel, hfile, by rw [hname]; rfl, hsome, hint⟩
                      hnot
              obtain ⟨reason, hreason⟩ := hreason
              simp only [hreason]
              exact ⟨_, rfl, Nat.le_succ _, rfl⟩

/-! ## All items -/

theorem reduceItems_isOk_iff : ∀ (n : Nat) (raws : List Payload) (r : Reducer),
    (∃ r', reduceItems py accountName readings n raws r = .ok r') ↔
      ∀ raw ∈ raws, ¬ Overflows py raw
  | _, [], r => iff_of_true ⟨r, rfl⟩ (by simp)
  | n, raw :: raws, r => by
    rw [List.forall_mem_cons, reduceItems]
    rcases reduceItem_spec py accountName (readings n) r raw with
      ⟨hover, herr⟩ | ⟨hnot, r', hok, -, -⟩
    · rw [herr]
      exact iff_of_false (by rintro ⟨r', h⟩; cases h) fun h => h.1 hover
    · rw [hok]
      exact (reduceItems_isOk_iff (n + 1) raws r').trans (by simp [hnot])

/-- By induction on the items: the table holds the last event of each id so far. -/
theorem reduceItems_tracks : ∀ (n : Nat) (raws : List Payload) (r r' : Reducer)
    (es : List (String × Option RemoteCandidate)) (rows : List (String × ReducerEntry)),
    Tracks ReducerEntry.sequence ReducerEntry.candidate r.entries r.sequence es rows →
      reduceItems py accountName readings n raws r = .ok r' →
      ∃ rows', Tracks ReducerEntry.sequence ReducerEntry.candidate r'.entries r'.sequence
        (es ++ effectiveEvents py accountName readings n raws) rows'
  | _, [], r, r', es, rows, h, hrun => by
    cases hrun
    exact ⟨rows, by rwa [effectiveEvents, List.append_nil]⟩
  | n, raw :: raws, r, r', es, rows, h, hrun => by
    rw [reduceItems] at hrun
    rcases reduceItem_spec py accountName (readings n) r raw with
      ⟨-, herr⟩ | ⟨-, r₁, hok, hle, heffect⟩
    · rw [herr] at hrun
      cases hrun
    · rw [hok] at hrun
      rw [effectiveEvents, ← List.append_assoc]
      cases hevent : effectiveEvent py accountName (readings n) raw with
      | none =>
        rw [hevent] at heffect
        have h₁ := h.mono hle
        rw [← heffect] at h₁
        simpa using reduceItems_tracks (n + 1) raws r₁ r' es rows h₁ hrun
      | some e =>
        rw [hevent] at heffect
        obtain ⟨hseq, hentries⟩ := heffect
        have h₁ := h.put (k := e.1) (v := ⟨r.sequence + 1, e.2⟩) (Nat.lt_succ_self _)
        rw [← hentries, ← hseq] at h₁
        exact reduceItems_tracks (n + 1) raws r₁ r' _ _ h₁ hrun

/-- What the items come to, from the empty reducer. -/
theorem materialize_reduceItems {raws : List Payload} {r : Reducer}
    (h : reduceItems py accountName readings 0 raws .empty = .ok r) :
    materializeReducedCandidates r =
      (lastEvents (effectiveEvents py accountName readings 0 raws)).filterMap Prod.snd := by
  obtain ⟨rows, htracks⟩ := reduceItems_tracks 0 raws .empty r [] [] (tracks_empty 0) h
  have hsorted := htracks.sorted
  rw [List.nil_append] at hsorted
  have hfilter := congrArg (List.filterMap id) hsorted
  rw [List.filterMap_map, List.filterMap_map] at hfilter
  exact hfilter

theorem itemId_of_effectiveEvent {raw : Payload} {e : String × Option RemoteCandidate}
    (h : effectiveEvent py accountName now raw = some e) : ∀ c, e.2 = some c → c.itemId = e.1 := by
  intro c hc
  unfold effectiveEvent at h
  split at h
  · cases h
  · next itemId hid =>
    split at h
    · cases h
      cases hc
    · split at h
      · cases h
      · split at h
        · next candidate hbuild =>
          cases h
          cases hc
          have hitem := itemId_of_build hbuild
          rw [hid] at hitem
          exact (Option.some.inj hitem).symm
        · cases h

theorem itemId_of_effectiveEvents : ∀ (n : Nat) (raws : List Payload),
    ∀ e ∈ effectiveEvents py accountName readings n raws, ∀ c, e.2 = some c → c.itemId = e.1
  | _, [], e, he => absurd he List.not_mem_nil
  | n, raw :: raws, e, he => by
    rcases List.mem_append.mp he with hone | hrest
    · exact itemId_of_effectiveEvent (by simpa using hone)
    · exact itemId_of_effectiveEvents (n + 1) raws e hrest

/-- A list of candidates by id has no id twice when it has no key twice. -/
theorem nodup_itemIds {es : List (String × Option RemoteCandidate)}
    (hitem : ∀ e ∈ es, ∀ c, e.2 = some c → c.itemId = e.1) (hkeys : (es.map Prod.fst).Nodup) :
    ((es.filterMap Prod.snd).map (·.itemId)).Nodup := by
  refine hkeys.sublist ?_
  induction es with
  | nil => exact List.Sublist.refl _
  | cons e es ih =>
    have hrest := ih (fun e' he' => hitem e' (List.mem_cons_of_mem _ he'))
      (List.nodup_cons.mp hkeys).2
    cases hc : e.2 with
    | none => simpa [List.filterMap_cons, hc] using hrest.cons e.1
    | some c =>
      have hid := hitem e List.mem_cons_self c hc
      simpa [List.filterMap_cons, hc, hid] using hrest

theorem nodup_lastCandidates (pages : List Payload) :
    ((lastCandidates py accountName readings pages).map (·.itemId)).Nodup := by
  refine nodup_itemIds (fun e he => ?_) (nodup_lastEvents _)
  exact itemId_of_effectiveEvents 0 _ e (mem_of_lastEvents he)

end

/-- For every list of pages: applied one by one they come to the same as one page with
all their items, and they come to a reducer whose candidates are, each once, the last
candidates of the items exactly when no item overflows. -/
theorem reducer_lastCandidates_iff (py : PyValues) (accountName : String)
    (readings : Nat → String) (pages : List Payload) :
    applyDeltaPages py accountName readings 0 pages .empty =
        applyDeltaPageToReducer py accountName readings (onePage pages) .empty ∧
      ((∃ r, applyDeltaPages py accountName readings 0 pages .empty = .ok r ∧
          materializeReducedCandidates r = lastCandidates py accountName readings pages ∧
          ((materializeReducedCandidates r).map (·.itemId)).Nodup) ↔
        ∀ raw ∈ pages.flatMap pageItems, ¬ Overflows py raw) := by
  have hpages : applyDeltaPages py accountName readings 0 pages .empty =
      reduceItems py accountName readings 0 (pages.flatMap pageItems) .empty :=
    applyDeltaPages_eq 0 pages .empty
  refine ⟨?_, ?_⟩
  · rw [hpages, applyDeltaPageToReducer, pageItems_onePage]
  · rw [hpages, ← reduceItems_isOk_iff 0 _ .empty]
    constructor
    · rintro ⟨r, hr, -⟩
      exact ⟨r, hr⟩
    · rintro ⟨r, hr⟩
      have hlist : materializeReducedCandidates r = lastCandidates py accountName readings pages :=
        materialize_reduceItems hr
      exact ⟨r, hr, hlist, by rw [hlist]; exact nodup_lastCandidates pages⟩

/-- `int` as Python has it on these sizes. -/
def pySizes : PyValues where
  str _ := ""
  int
    | .num "1e999" => .overflow
    | .num "5" => .int 5
    | _ => .invalid

def sizedFile (id size : String) : Json :=
  .obj [("id", .str id), ("name", .str (id ++ ".jpg")), ("file", .obj []), ("size", .num size)]

/-- A file with a size, and one whose size the JSON reader takes as infinity. -/
def infinitePages : List Payload :=
  [[("value", .arr [sizedFile "a" "5"])], [("value", .arr [sizedFile "b" "1e999"])]]

/-- No reducer, although the first file is a candidate. -/
theorem infinite_size :
    (lastCandidates pySizes "alice" (fun _ => "") infinitePages).map (·.itemId) = ["a"] ∧
      ¬ ∃ r, applyDeltaPages pySizes "alice" (fun _ => "") 0 infinitePages .empty = .ok r ∧
        materializeReducedCandidates r =
          lastCandidates pySizes "alice" (fun _ => "") infinitePages := by
  refine ⟨by decide +kernel, ?_⟩
  rintro ⟨r, hr, -⟩
  have hraised : (applyDeltaPages pySizes "alice" (fun _ => "") 0 infinitePages .empty).isOk =
      false := by decide +kernel
  rw [hr] at hraised
  cases hraised

/-- A file deleted and created again, with a folder between, over three pages. -/
example : (applyDeltaPages pySizes "alice" (fun _ => "t") 0
    [[("value", .arr [sizedFile "a" "5", sizedFile "b" "5"])],
      [("value", .arr [.obj [("id", .str "a"), ("deleted", .obj [])], .null])],
      [("value", .arr [.obj [("id", .str "b"), ("folder", .obj [])], sizedFile "a" "5"])]]
    .empty).toOption.map (fun r => (materializeReducedCandidates r).map (·.itemId)) =
      some ["b", "a"] := by
  decide +kernel

end Nightfall.OneDrive
