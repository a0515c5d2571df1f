import Mathlib.Data.List.Sort
import Nightfall.Core.Json
import Nightfall.Core.Table
import Nightfall.L1Storage.Names

/-!
# Delta pages (`adapters/onedrive/client.py`)

A page is a JSON object with a list of changed items and, when the server has
more, the link to go on with. The reducer keeps the last event of each item;
what remains at the end of a page are its candidates for download.

* `reduceDeltaPageCandidates_items`: whatever the clock, the same items are
  selected; it only stands in for a missing time.

How Python turns a JSON value that is no text into a text, and any value into an
integer, is a parameter (`PyValues`).
-/
namespace Nightfall.OneDrive
open Nightfall.Core Storage

/-- What `int(value)` does. -/
inductive IntOf where
  | int (n : Int)
  /-- `TypeError` or `ValueError` -/
  | invalid
  /-- `OverflowError`, which nobody catches -/
  | overflow
  deriving DecidableEq, Repr

structure PyValues where
  /-- `str(value)` of a value that is no text -/
  str : Json → String
  int : Json → IntOf

/-- mirrors src/nightfall_photo_ingress/adapters/onedrive/client.py:2369-2376 -/
def asStr (py : PyValues) : Json → Option String
  | .null => none
  | .str s => some s
  | v => some (py.str v)

/-- The text, unless it is absent or empty. -/
def truthy (s : Option String) : Option String := s.filter (· ≠ "")

structure RemoteCandidate where
  accountName : String
  itemId : String
  name : String
  relativePath : String
  sizeBytes : Option Int
  rawModifiedTime : Option String
  normalizedModifiedTime : String
  downloadUrl : Option String
  deriving DecidableEq, Repr

/-! ## Counters -/

abbrev Counts := Table String Nat

/-- mirrors src/nightfall_photo_ingress/adapters/onedrive/client.py:1360-1363 -/
def recordGhostReason (counts : Counts) (reason : String) (count : Nat) : Counts :=
  counts.put reason ((counts.get reason).getD 0 + count)

/-! ## Items -/

/-- What stands behind the first occurrence of `pat`. -/
def behindFirst (pat : List Char) : List Char → Option (List Char)
  | [] => if pat.isEmpty then some [] else none
  | c :: cs =>
    if pat.isPrefixOf (c :: cs) then some ((c :: cs).drop pat.length) else behindFirst pat cs

/-- mirrors src/nightfall_photo_ingress/adapters/onedrive/client.py:2340-2358 -/
def extractRelativePath (py : PyValues) (raw : Payload) : String :=
  match raw.get "parentReference" with
  | .obj parent =>
    let rawPath := (asStr py (Payload.get parent "path")).getD ""
    match behindFirst "/root:".toList rawPath.toList with
    | none =>
      let normalized := pyStrip rawPath
      if normalized = "" then ""
      else if normalized.toList.head? = some '/' then normalized else "/" ++ normalized
    | some rest =>
      let rel := stripBy (· == '/') rest
      if rel.isEmpty then "" else "/" ++ String.ofList rel
  | _ => ""

/-- `int(size)` of an item: `none` when the item is refused. -/
def sizeBytesOf (py : PyValues) (raw : Payload) : Except Unit (Option (Option Int)) :=
  match raw.get "size" with
  | .null => .ok (some none)
  | v =>
    match py.int v with
    | .int n => .ok (if n < 0 then none else some (some n))
    | .invalid => .ok none
    | .overflow => .error ()

/-- The candidate of an item, `none` when a required field is missing or
malformed; `now` stands in for a missing modification time.
mirrors src/nightfall_photo_ingress/adapters/onedrive/client.py:2428-2469 -/
def buildCandidateFromPayload (py : PyValues) (accountName now : String) (raw : Payload) :
    Except Unit (Option RemoteCandidate) :=
  match truthy (asStr py (raw.get "id")) with
  | none => .ok none
  | some itemId =>
    match truthy (asStr py (raw.get "name")) with
    | none => .ok none
    | some name =>
      match sizeBytesOf py raw with
      | .error e => .error e
      | .ok none => .ok none
      | .ok (some size) =>
        let modified := asStr py (raw.get "lastModifiedDateTime")
        .ok (some {
          accountName := accountName
          itemId := itemId
          name := name
          relativePath := extractRelativePath py raw
          sizeBytes := size
          rawModifiedTime := modified
          normalizedModifiedTime := (truthy modified).getD now
          downloadUrl := asStr py (raw.get "@microsoft.graph.downloadUrl") })

/-- mirrors src/nightfall_photo_ingress/adapters/onedrive/client.py:2487-2508 -/
def classifyInvalidCandidateReason (py : PyValues) (raw : Payload) : Except Unit String :=
  if (truthy (asStr py (raw.get "id"))).isNone then .ok "delta_item_missing_id"
  else if (truthy (asStr py (raw.get "name"))).isNone then .ok "delta_file_missing_name"
  else match raw.get "size" with
    | .null => .ok "delta_file_missing_size"
    | v =>
      match py.int v with
      | .int n => .ok (if n < 0 then "delta_file_invalid_size" else "delta_file_invalid_payload")
      | .invalid => .ok "delta_file_invalid_size"
      | .overflow => .error ()

/-! ## The reducer -/

structure ReducerEntry where
  sequence : Nat
  candidate : Option RemoteCandidate
  deriving DecidableEq, Repr

structure Reducer where
  entries : Table String ReducerEntry
  sequence : Nat
  anomalyCounts : Counts

/-- The items of a page that are objects. -/
def pageItems (payload : Payload) : List Payload :=
  match payload.get "value" with
  | .arr items => items.filterMap fun
    | .obj fields => some fields
    | _ => none
  | _ => []

/-- One item of the page; `now` is the clock when its candidate is built. -/
def reduceItem (py : PyValues) (accountName now : String) (r : Reducer) (raw : Payload) :
    Except Unit Reducer :=
  match truthy (asStr py (raw.get "id")) with
  | none =>
    .ok { r with anomalyCounts := recordGhostReason r.anomalyCounts "delta_item_missing_id" 1 }
  | some itemId =>
    let sequence := r.sequence + 1
    let counts := if (r.entries.get itemId).isSome then
      recordGhostReason r.anomalyCounts "delta_reducer_event_overwrite" 1 else r.anomalyCounts
    if raw.has "deleted" then
      .ok ⟨r.entries.put itemId ⟨sequence, none⟩, sequence,
        recordGhostReason counts "delta_reducer_tombstone_event" 1⟩
    else if !raw.has "file" then .ok ⟨r.entries, sequence, counts⟩
    else
      match buildCandidateFromPayload py accountName now raw with
      | .error e => .error e
      | .ok (some candidate) =>
        .ok ⟨r.entries.put itemId ⟨sequence, some candidate⟩, sequence, counts⟩
      | .ok none =>
        match classifyInvalidCandidateReason py raw with
        | .error e => .error e
        | .ok reason => .ok ⟨r.entries, sequence, recordGhostReason counts reason 1⟩

/-- The items in order; `readings n` is the clock at the `n`-th of them. -/
def reduceItems (py : PyValues) (accountName : String) (readings : Nat → String) :
    Nat → List Payload → Reducer → Except Unit Reducer
  | _, [], r => .ok r
  | n, raw :: raws, r => do
    let r ← reduceItem py accountName (readings n) r raw
    reduceItems py accountName readings (n + 1) raws r

/-- mirrors src/nightfall_photo_ingress/adapters/onedrive/client.py:996-1049 -/
def applyDeltaPageToReducer (py : PyValues) (accountName : String) (readings : Nat → String)
    (payload : Payload) (r : Reducer) : Except Unit Reducer :=
  reduceItems py accountName readings 0 (pageItems payload) r

/-- mirrors src/nightfall_photo_ingress/adapters/onedrive/client.py:1052-1062 -/
def materializeReducedCandidates (r : Reducer) : List RemoteCandidate :=
  ((r.entries.entries.map fun row => row.2).insertionSort fun a b => a.sequence ≤ b.sequence)
    |>.filterMap (·.candidate)

def Reducer.empty : Reducer := ⟨∅, 0, ∅⟩

/-- mirrors src/nightfall_photo_ingress/adapters/onedrive/client.py:1093-1107 -/
def reduceDeltaPageCandidates (py : PyValues) (accountName : String) (readings : Nat → String)
    (payload : Payload) : Except Unit (List RemoteCandidate) :=
  (applyDeltaPageToReducer py accountName readings payload .empty).map materializeReducedCandidates

/-- How many item ids of the page were seen before, and the ids seen with it.
mirrors src/nightfall_photo_ingress/adapters/onedrive/client.py:1378-1400 -/
def countReplayedItemIds (py : PyValues) (payload : Payload) (seen : List String) :
    Nat × List String :=
  (pageItems payload).foldl (fun acc raw =>
    match truthy (asStr py (raw.get "id")) with
    | none => acc
    | some id => if acc.2.contains id then (acc.1 + 1, acc.2) else (acc.1, acc.2 ++ [id])) (0, seen)

/-! ## Links -/

/-- `payload.get("@odata.nextLink")` as a text. -/
def nextLink (py : PyValues) (payload : Payload) : Option String :=
  asStr py (payload.get "@odata.nextLink")

def deltaLink (py : PyValues) (payload : Payload) : Option String :=
  asStr py (payload.get "@odata.deltaLink")

/-! ## Staging names -/

/-- The class `[A-Za-z0-9._-]` of `_SAFE_STAGING_BASENAME_RE`. -/
def isStagingChar (c : Char) : Bool :=
  ('A' ≤ c && c ≤ 'Z') || ('a' ≤ c && c ≤ 'z') || ('0' ≤ c && c ≤ '9') ||
    c == '.' || c == '_' || c == '-'

/-- `re.sub("_", text)`: each maximal run of characters outside `keep` becomes
one underscore; `inRun` says whether the run has been written. -/
def subRuns (keep : Char → Bool) : Bool → List Char → List Char
  | _, [] => []
  | inRun, c :: cs =>
    if keep c then c :: subRuns keep false cs
    else if inRun then subRuns keep true cs
    else '_' :: subRuns keep true cs

/-- mirrors src/nightfall_photo_ingress/adapters/onedrive/client.py:2394-2400 -/
def safeStagingBasename (itemId : String) : String :=
  let sanitized := stripBy (fun c => c == '.' || c == '_' || c == '-')
    (subRuns isStagingChar false itemId.toList)
  if sanitized.isEmpty then "item" else String.ofList (sanitized.take 120)

/-- The base name of an item and the names used with it.
mirrors src/nightfall_photo_ingress/adapters/onedrive/client.py:2403-2414 -/
def uniqueStagingBasename (sha256Text : String → String) (itemId : String) (used : List String) :
    String × List String :=
  let base := safeStagingBasename itemId
  if used.contains base then
    let candidate := base ++ "-" ++ String.ofList ((sha256Text itemId).toList.take 8)
    (candidate, candidate :: used)
  else (base, base :: used)

def isAlnum (c : Char) : Bool :=
  ('A' ≤ c && c ≤ 'Z') || ('a' ≤ c && c ≤ 'z') || ('0' ≤ c && c ≤ '9')

/-- Lower case of the letters a safe extension may have. -/
def lowerAscii (c : Char) : Char :=
  if 'A' ≤ c && c ≤ 'Z' then Char.ofNat (c.toNat + 32) else c

/-- mirrors src/nightfall_photo_ingress/adapters/onedrive/client.py:2417-2425 -/
def safeExtension (name : String) : String :=
  match (splitSuffix (lastComponent name)).2 with
  | '.' :: ext =>
    if ext.all isAlnum && decide (1 ≤ ext.length ∧ ext.length ≤ 16) then
      String.ofList ('.' :: ext.map lowerAscii)
    else ".bin"
  | _ => ".bin"

example : safeStagingBasename "01ABC!!4/x" = "01ABC_4_x" ∧ safeExtension "IMG.1.HEIC" = ".heic" := by
  decide

/-! ## The clock only stands in -/

/-- A candidate without the time that may be the clock's. -/
def RemoteCandidate.item (c : RemoteCandidate) : RemoteCandidate :=
  { c with normalizedModifiedTime := "" }

def ReducerEntry.item (e : ReducerEntry) : ReducerEntry :=
  { e with candidate := e.candidate.map RemoteCandidate.item }

def Reducer.rows (r : Reducer) : List (String × ReducerEntry) :=
  r.entries.entries.map fun e => (e.1, e.2.item)

/-- Two reducers that differ at most in the stand-in times. -/
structure SameItems (r r' : Reducer) : Prop where
  rows : r.rows = r'.rows
  sequence : r.sequence = r'.sequence
  anomalyCounts : r.anomalyCounts = r'.anomalyCounts

theorem rows_put (r : Reducer) (k : String) (e : ReducerEntry) (n : Nat) (counts : Counts) :
    Reducer.rows ⟨r.entries.put k e, n, counts⟩ =
      (k, e.item) :: r.rows.eraseP fun row => k = row.1 := by
  simp only [Reducer.rows, Table.put, AList.entries_insert, List.map_cons, List.eraseP_map]
  rfl

theorem isSome_get_iff (r : Reducer) (k : String) :
    (r.entries.get k).isSome = true ↔ k ∈ r.rows.map Prod.fst := by
  rw [Reducer.rows, List.map_map, Table.get, AList.lookup_isSome]
  exact Iff.rfl

variable {py : PyValues} {accountName : String} {now now' : String}

theorem buildCandidate_item (now' : String) {raw : Payload} {c : Option RemoteCandidate}
    (h : buildCandidateFromPayload py accountName now raw = .ok c) :
    ∃ c', buildCandidateFromPayload py accountName now' raw = .ok c' ∧
      c'.map RemoteCandidate.item = c.map RemoteCandidate.item := by
  unfold buildCandidateFromPayload at h ⊢
  split at h
  · cases h; exact ⟨none, rfl, rfl⟩
  · split at h
    · cases h; exact ⟨none, rfl, rfl⟩
    · split at h
      · cases h
      · cases h; exact ⟨none, rfl, rfl⟩
      · cases h; exact ⟨_, rfl, rfl⟩

theorem reduceItem_same (now' : String) {r r' s : Reducer} {raw : Payload} (hr : SameItems r r')
    (h : reduceItem py accountName now r raw = .ok s) :
    ∃ s', reduceItem py accountName now' r' raw = .ok s' ∧ SameItems s s' := by
  obtain ⟨hrows, hseq, hcounts⟩ := hr
  unfold reduceItem at h ⊢
  cases hid : truthy (asStr py (raw.get "id")) with
  | none =>
    simp only [hid] at h ⊢
    cases h
    exact ⟨_, rfl, hrows, hseq, by rw [hcounts]⟩
  | some itemId =>
    have hsome : (r.entries.get itemId).isSome = (r'.entries.get itemId).isSome := by
      rw [Bool.eq_iff_iff, isSome_get_iff, isSome_get_iff, hrows]
    simp only [hid, hsome, hseq, hcounts] at h ⊢
    split at h
    · cases h
      rename_i hdel
      simp only [hdel, if_true]
      exact ⟨_, rfl, by rw [rows_put, rows_put, hrows], rfl, rfl⟩
    · split at h
      · next hdel hfile =>
        cases h
        simp only [hdel, hfile, if_true]
        exact ⟨_, rfl, hrows, rfl, rfl⟩
      · next hdel hfile =>
        simp only [hdel, hfile]
        cases hb : buildCandidateFromPayload py accountName now raw with
        | error e => rw [hb] at h; cases h
        | ok c =>
          obtain ⟨c', hb', hc⟩ := buildCandidate_item now' hb
          rw [hb] at h
          rw [hb']
          cases c with
          | some c =>
            cases c' with
            | none => cases hc
            | some c' =>
              cases h
              refine ⟨_, rfl, ?_, rfl, rfl⟩
              have hentry : (⟨r'.sequence + 1, some c⟩ : ReducerEntry).item =
                  (⟨r'.sequence + 1, some c'⟩ : ReducerEntry).item := by
                simp only [ReducerEntry.item, hc]
              rw [rows_put, rows_put, hrows, hentry]
          | none =>
            cases c' with
            | some c' => cases hc
            | none =>
              simp only at h ⊢
              cases hreason : classifyInvalidCandidateReason py raw with
              | error e => rw [hreason] at h; cases h
              | ok reason =>
                rw [hreason] at h
                cases h
                exact ⟨_, rfl, hrows, rfl, rfl⟩

theorem reduceItems_same {readings : Nat → String} (readings' : Nat → String) :
    ∀ {raws : List Payload} {n : Nat} {r r' s : Reducer}, SameItems r r' →
      reduceItems py accountName readings n raws r = .ok s →
      ∃ s', reduceItems py accountName readings' n raws r' = .ok s' ∧ SameItems s s'
  | [], _, _, r', _, hr, h => by cases h; exact ⟨r', rfl, hr⟩
  | raw :: raws, n, r, r', s, hr, h => by
    rw [reduceItems] at h ⊢
    cases hone : reduceItem py accountName (readings n) r raw with
    | error e => rw [hone] at h; cases h
    | ok r₁ =>
      obtain ⟨r₁', hone', hr₁⟩ := reduceItem_same (readings' n) hr hone
      rw [hone] at h
      rw [hone']
      exact reduceItems_same readings' hr₁ h

theorem materialize_same {r r' : Reducer} (h : SameItems r r') :
    (materializeReducedCandidates r).map RemoteCandidate.item =
      (materializeReducedCandidates r').map RemoteCandidate.item := by
  have hrows : ∀ r : Reducer, (materializeReducedCandidates r).map RemoteCandidate.item =
      ((r.rows.map Prod.snd).insertionSort fun a b => a.sequence ≤ b.sequence).filterMap
        (·.candidate) := by
    intro r
    have hmap : r.rows.map Prod.snd = (r.entries.entries.map fun row => row.2).map
        ReducerEntry.item := by simp [Reducer.rows, List.map_map, Function.comp_def]
    have hsort := List.map_insertionSort (fun a b : ReducerEntry => a.sequence ≤ b.sequence)
      (fun a b : ReducerEntry => a.sequence ≤ b.sequence) ReducerEntry.item
      (r.entries.entries.map fun row => row.2) fun _ _ _ _ => Iff.rfl
    rw [hmap, ← hsort, List.filterMap_map, materializeReducedCandidates, List.map_filterMap]
    rfl
  rw [hrows, hrows, h.rows]

/-- Whatever the clock, the same items are selected. -/
theorem reduceDeltaPageCandidates_items {readings : Nat → String} (readings' : Nat → String)
    {payload : Payload} {cs : List RemoteCandidate}
    (h : reduceDeltaPageCandidates py accountName readings payload = .ok cs) :
    ∃ cs', reduceDeltaPageCandidates py accountName readings' payload = .ok cs' ∧
      cs'.map RemoteCandidate.item = cs.map RemoteCandidate.item := by
  unfold reduceDeltaPageCandidates applyDeltaPageToReducer at h ⊢
  cases hr : reduceItems py accountName readings 0 (pageItems payload) .empty with
  | error e => rw [hr] at h; cases h
  | ok r =>
    obtain ⟨r', hr', hsame⟩ := reduceItems_same readings' ⟨rfl, rfl, rfl⟩ hr
    rw [hr] at h
    cases h
    exact ⟨_, by rw [hr']; rfl, (materialize_same hsame).symm⟩

end Nightfall.OneDrive
