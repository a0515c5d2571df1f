import Nightfall.L3Flows.Batch
import Nightfall.L4System.System
import Nightfall.L7OneDrive.Cursor

/-!
# From a page to the ingest contract (`adapters/onedrive/client.py`, `cli.py`)

`download_candidates` hands over rows that `_build_candidate_from_payload` took
from the items of a page; the command line turns each row into a
`StagedCandidate`, and `_validate_batch_contract` refuses the whole batch when
one of them is malformed.

* `Accepted`: what the contract asks of a candidate.
* `ItemOk`: what an item of the page must be like for that.
* `extractRelativePath_iff`: which items have a path the contract accepts.
* `handoff_accepted_iff`: the rows of a page pass exactly when every item that
  was emitted is `ItemOk`.
-/
namespace Nightfall.OneDrive
open Nightfall.Core Storage Prog

/-- The row as the command line hands it to the engine.
mirrors src/nightfall_photo_ingress/cli.py:395-406 -/
def DownloadedHandoffCandidate.staged (row : DownloadedHandoffCandidate) : StagedCandidate where
  accountName := row.accountName
  onedriveId := row.onedriveId
  originalFilename := row.originalFilename
  relativePath := row.relativePath
  modifiedTime := row.modifiedTime
  sizeBytes := row.sizeBytes
  stagingPath := row.stagingPath

/-! ## The contract -/

/-- `fromisoformat(text.replace("Z", "+00:00"))` does not raise. -/
def IsoTime (env : Env) (text : String) : Prop :=
  (env.fromisoformat (String.ofList
    (replaceAll text.toList "Z".toList "+00:00".toList))).isSome = true

instance (env : Env) (text : String) : Decidable (IsoTime env text) :=
  inferInstanceAs (Decidable (_ = true))

structure Accepted (env : Env) (c : StagedCandidate) : Prop where
  account : pyStrip c.accountName ≠ ""
  id : pyStrip c.onedriveId ≠ ""
  name : pyStrip c.originalFilename ≠ ""
  path : c.relativePath.toList.head? = some '/'
  modified : IsoTime env c.modifiedTime
  size : ∀ n ∈ c.sizeBytes, 0 ≤ n

section Contract
variable {env : Env} {c : StagedCandidate}

theorem isNone_iff_not_isoTime {text : String} :
    (env.fromisoformat (String.ofList
      (replaceAll text.toList "Z".toList "+00:00".toList))).isNone = true ↔ ¬ IsoTime env text := by
  rw [IsoTime, Bool.not_eq_true, Option.isSome_eq_false_iff]

theorem any_neg_iff {size : Option Int} :
    size.any (· < 0) = true ↔ ¬ ∀ n ∈ size, 0 ≤ n := by
  cases size with
  | none => simp
  | some n => simp

/-- One candidate passes, or the exception names its first defect. -/
theorem validateCandidate_cases (env : Env) (index : Nat) (c : StagedCandidate) :
    (validateCandidate env index c = .ret () ∧ Accepted env c) ∨
      (∃ e, validateCandidate env index c = .err e) ∧ ¬ Accepted env c := by
  unfold validateCandidate
  by_cases haccount : pyStrip c.accountName = ""
  · exact .inr ⟨⟨_, if_pos haccount⟩, fun h => h.account haccount⟩
  by_cases hid : pyStrip c.onedriveId = ""
  · exact .inr ⟨⟨_, by rw [if_neg haccount, if_pos hid]; rfl⟩, fun h => h.id hid⟩
  by_cases hname : pyStrip c.originalFilename = ""
  · exact .inr ⟨⟨_, by rw [if_neg haccount, if_neg hid, if_pos hname]; rfl⟩, fun h => h.name hname⟩
  by_cases hpath : c.relativePath.toList.head? = some '/'
  swap
  · exact .inr ⟨⟨_, by rw [if_neg haccount, if_neg hid, if_neg hname, if_pos hpath]; rfl⟩,
      fun h => hpath h.path⟩
  by_cases htime : IsoTime env c.modifiedTime
  swap
  · exact .inr ⟨⟨_, by
      rw [if_neg haccount, if_neg hid, if_neg hname, if_neg (not_not.mpr hpath),
        if_pos (isNone_iff_not_isoTime.mpr htime)]
      rfl⟩, fun h => htime h.modified⟩
  have hparsed := mt isNone_iff_not_isoTime.mp (not_not.mpr htime)
  by_cases hsize : ∀ n ∈ c.sizeBytes, 0 ≤ n
  swap
  · exact .inr ⟨⟨_, by
      rw [if_neg haccount, if_neg hid, if_neg hname, if_neg (not_not.mpr hpath), if_neg hparsed,
        if_pos (any_neg_iff.mpr hsize)]
      rfl⟩, fun h => hsize h.size⟩
  · refine .inl ⟨?_, ⟨haccount, hid, hname, hpath, htime, hsize⟩⟩
    rw [if_neg haccount, if_neg hid, if_neg hname, if_neg (not_not.mpr hpath), if_neg hparsed,
      if_neg (mt any_neg_iff.mp (not_not.mpr hsize))]
    rfl

theorem validateCandidates_iff : ∀ (cs : List StagedCandidate) (index : Nat),
    validateCandidates env index cs = .ret () ↔ ∀ c ∈ cs, Accepted env c
  | [], _ => by simp [validateCandidates]
  | c :: cs, index => by
    unfold validateCandidates
    rw [List.forall_mem_cons]
    rcases validateCandidate_cases env index c with ⟨hret, hok⟩ | ⟨⟨e, herr⟩, hbad⟩
    · rw [hret, ret_bind, validateCandidates_iff cs (index + 1)]
      exact (and_iff_right hok).symm
    · rw [herr, err_bind]
      constructor
      · exact fun h => by cases h
      · exact fun h => absurd h.1 hbad

/-- The contract of the current version. -/
theorem validateBatchContract_iff (cs : List StagedCandidate) :
    validateBatchContract env cs 1 = .ret () ↔ ∀ c ∈ cs, Accepted env c := by
  rw [validateBatchContract, if_neg (by decide), validateCandidates_iff]

end Contract

/-! ## The items -/

/-- The item names a folder below the drive's root: its parent path has more than
slashes behind `/root:`, or does not hold that mark and is not blank. -/
def InFolder (py : PyValues) (raw : Payload) : Prop :=
  ∃ parent path, raw.get "parentReference" = .obj parent ∧
    asStr py (Payload.get parent "path") = some path ∧
    ((behindFirst "/root:".toList path.toList = none ∧ pyStrip path ≠ "") ∨
      ∃ rest, behindFirst "/root:".toList path.toList = some rest ∧ ∃ ch ∈ rest, ch ≠ '/')

/-- What the contract asks, said of an item; `now` is the clock when its
candidate is built. -/
structure ItemOk (env : Env) (py : PyValues) (accountName now : String) (raw : Payload) :
    Prop where
  account : pyStrip accountName ≠ ""
  id : ∀ text, asStr py (raw.get "id") = some text → pyStrip text ≠ ""
  name : ∀ text, asStr py (raw.get "name") = some text → pyStrip text ≠ ""
  folder : InFolder py raw
  modified : IsoTime env ((truthy (asStr py (raw.get "lastModifiedDateTime"))).getD now)

section Items
variable {env : Env} {py : PyValues} {accountName now : String} {raw : Payload}

theorem stripBy_ne_nil_iff {p : Char → Bool} {cs : List Char} :
    stripBy p cs ≠ [] ↔ ∃ ch ∈ cs, p ch = false := by
  constructor
  · intro h
    obtain ⟨ch, hch, hp⟩ := stripBy_getLast p cs h
    exact ⟨ch, mem_stripBy hch, hp⟩
  · rintro ⟨ch, hch, hp⟩
    exact stripBy_ne_nil hch hp

theorem head?_slash (s : String) : ("/" ++ s).toList.head? = some '/' := by simp

/-- Which items have a path the contract accepts. -/
theorem extractRelativePath_iff (py : PyValues) (raw : Payload) :
    (extractRelativePath py raw).toList.head? = some '/' ↔ InFolder py raw := by
  unfold extractRelativePath InFolder
  cases hparent : raw.get "parentReference" with
  | obj parent =>
    simp only [Json.obj.injEq, exists_and_left, exists_eq_left']
    cases hpath : asStr py (Payload.get parent "path") with
    | none => simp [behindFirst, pyStrip, stripBy]
    | some path =>
      simp only [Option.getD_some, Option.some.injEq, exists_eq_left']
      cases hroot : behindFirst "/root:".toList path.toList with
      | none =>
        simp only [true_and, reduceCtorEq, false_and, exists_false, or_false]
        by_cases hblank : pyStrip path = ""
        · simp [hblank]
        · rw [if_neg hblank]
          split
          · next hslash => exact iff_of_true hslash hblank
          · exact iff_of_true (head?_slash _) hblank
      | some rest =>
        have hrel : (stripBy (· == '/') rest).isEmpty = false ↔ ∃ ch ∈ rest, ch ≠ '/' := by
          rw [List.isEmpty_eq_false_iff, stripBy_ne_nil_iff]
          simp
        simp only [reduceCtorEq, false_and, false_or, Option.some.injEq, exists_eq_left']
        rw [← hrel]
        cases hempty : (stripBy (· == '/') rest).isEmpty with
        | true => simp
        | false => exact iff_of_true (head?_slash _) rfl
  | _ => simp

theorem sizeBytesOf_nonneg {size : Option Int} (h : sizeBytesOf py raw = .ok (some size)) :
    ∀ n ∈ size, 0 ≤ n := by
  unfold sizeBytesOf at h
  split at h
  · cases h; simp
  · split at h
    · next n _ =>
      by_cases hneg : n < 0
      · rw [if_pos hneg] at h; cases h
      · rw [if_neg hneg] at h
        cases h
        simpa using hneg
    · cases h
    · cases h

/-- The fields of a candidate, and the item they are from. -/
theorem buildCandidate_some {c : RemoteCandidate}
    (h : buildCandidateFromPayload py accountName now raw = .ok (some c)) :
    c.accountName = accountName ∧ asStr py (raw.get "id") = some c.itemId ∧
      asStr py (raw.get "name") = some c.name ∧ c.relativePath = extractRelativePath py raw ∧
      c.normalizedModifiedTime =
        (truthy (asStr py (raw.get "lastModifiedDateTime"))).getD now ∧
      ∀ n ∈ c.sizeBytes, 0 ≤ n := by
  unfold buildCandidateFromPayload at h
  split at h
  · cases h
  · next itemId hid =>
    split at h
    · cases h
    · next name hname =>
      split at h
      · cases h
      · cases h
      · next size hsize =>
        cases h
        exact ⟨rfl, (Option.filter_eq_some_iff.mp hid).1, (Option.filter_eq_some_iff.mp hname).1,
          rfl, rfl, sizeBytesOf_nonneg hsize⟩

/-- A row passes exactly when the item behind it is as the contract asks. -/
theorem accepted_iff_itemOk {c : RemoteCandidate} (path : Path)
    (h : buildCandidateFromPayload py accountName now raw = .ok (some c)) :
    Accepted env (handoffRow c path).staged ↔ ItemOk env py accountName now raw := by
  obtain ⟨haccount, hid, hname, hrel, htime, hsize⟩ := buildCandidate_some h
  have hfolder : c.relativePath.toList.head? = some '/' ↔ InFolder py raw := by
    rw [hrel]
    exact extractRelativePath_iff py raw
  constructor
  · intro hrow
    have hmodified : IsoTime env c.normalizedModifiedTime := hrow.modified
    refine ⟨haccount ▸ hrow.account, fun text htext => ?_, fun text htext => ?_,
      hfolder.mp hrow.path, htime ▸ hmodified⟩
    · cases htext.symm.trans hid
      exact hrow.id
    · cases htext.symm.trans hname
      exact hrow.name
  · intro hitem
    have haccepted : pyStrip c.accountName ≠ "" := haccount ▸ hitem.account
    have hmodified : IsoTime env c.normalizedModifiedTime := htime ▸ hitem.modified
    exact ⟨haccepted, hitem.id _ hid, hitem.name _ hname, hfolder.mpr hitem.folder, hmodified,
      hsize⟩

end Items

/-! ## Where the rows come from -/

section Rows
variable {py : PyValues} {accountName : String}

/-- The candidate of the page's `n`-th item. -/
def BuiltFrom (py : PyValues) (accountName : String) (readings : Nat → String)
    (payload : Payload) (n : Nat) (raw : Payload) (c : RemoteCandidate) : Prop :=
  (pageItems payload)[n]? = some raw ∧
    buildCandidateFromPayload py accountName (readings n) raw = .ok (some c)

/-- The candidates a reducer holds. -/
def Reducer.Holds (r : Reducer) (c : RemoteCandidate) : Prop :=
  ∃ row ∈ r.entries.entries, row.2.candidate = some c

theorem mem_materialize {r : Reducer} {c : RemoteCandidate}
    (h : c ∈ materializeReducedCandidates r) : r.Holds c := by
  obtain ⟨entry, hentry, hc⟩ := List.mem_filterMap.mp h
  obtain ⟨row, hrow, rfl⟩ := List.mem_map.mp ((List.perm_insertionSort _ _).mem_iff.mp hentry)
  exact ⟨row, hrow, hc⟩

theorem holds_put {r : Reducer} {k : String} {entry : ReducerEntry} {n : Nat} {counts : Counts}
    {c : RemoteCandidate} (h : Reducer.Holds ⟨r.entries.put k entry, n, counts⟩ c) :
    entry.candidate = some c ∨ r.Holds c := by
  obtain ⟨row, hrow, hc⟩ := h
  rw [Table.put, AList.entries_insert] at hrow
  rcases List.mem_cons.mp hrow with rfl | hrow
  · exact .inl hc
  · exact .inr ⟨row, (List.kerase_sublist _ _).subset hrow, hc⟩

theorem holds_reduceItem {now : String} {r s : Reducer} {raw : Payload} {c : RemoteCandidate}
    (h : reduceItem py accountName now r raw = .ok s) (hc : s.Holds c) :
    r.Holds c ∨ buildCandidateFromPayload py accountName now raw = .ok (some c) := by
  unfold reduceItem at h
  split at h
  · cases h; exact .inl hc
  · next itemId _ =>
    simp only at h
    generalize (if (r.entries.get itemId).isSome = true then _ else _) = counts at h
    split at h
    · cases h
      rcases holds_put hc with hnone | hc
      · cases hnone
      · exact .inl hc
    · split at h
      · cases h; exact .inl hc
      · split at h
        · cases h
        · next c' hbuilt =>
          cases h
          rcases holds_put hc with hsome | hc
          · cases hsome; exact .inr hbuilt
          · exact .inl hc
        · split at h
          · cases h
          · cases h; exact .inl hc

/-- Induction on the items; the clock reading counts along with them. -/
theorem holds_reduceItems {readings : Nat → String} {c : RemoteCandidate} :
    ∀ {raws : List Payload} {n : Nat} {r s : Reducer},
      reduceItems py accountName readings n raws r = .ok s → s.Holds c →
      r.Holds c ∨ ∃ m raw, raws[m]? = some raw ∧
        buildCandidateFromPayload py accountName (readings (n + m)) raw = .ok (some c)
  | [], _, _, _, h, hc => by cases h; exact .inl hc
  | raw :: raws, n, r, s, h, hc => by
    rw [reduceItems] at h
    cases hone : reduceItem py accountName (readings n) r raw with
    | error e => rw [hone] at h; cases h
    | ok r₁ =>
      rw [hone] at h
      rcases holds_reduceItems h hc with hc | ⟨m, raw', hraw, hbuilt⟩
      · rcases holds_reduceItem hone hc with hc | hbuilt
        · exact .inl hc
        · exact .inr ⟨0, raw, rfl, hbuilt⟩
      · refine .inr ⟨m + 1, raw', hraw, ?_⟩
        rwa [show n + (m + 1) = n + 1 + m by omega]

theorem builtFrom_of_mem {readings : Nat → String} {payload : Payload}
    {cs : List RemoteCandidate} {c : RemoteCandidate}
    (hcs : reduceDeltaPageCandidates py accountName readings payload = .ok cs) (hc : c ∈ cs) :
    ∃ n raw, BuiltFrom py accountName readings payload n raw c := by
  unfold reduceDeltaPageCandidates applyDeltaPageToReducer at hcs
  cases hr : reduceItems py accountName readings 0 (pageItems payload) .empty with
  | error e => rw [hr] at hcs; cases hcs
  | ok r =>
    rw [hr] at hcs
    cases hcs
    rcases holds_reduceItems hr (mem_materialize hc) with ⟨row, hrow, -⟩ | ⟨n, raw, hraw, hbuilt⟩
    · cases hrow
    · exact ⟨n, raw, hraw, by rwa [Nat.zero_add] at hbuilt⟩

variable {lib : ClientLib} {a : PollArgs}

theorem yields_downloadCandidate (c : RemoteCandidate) (base : String) (ghosts : Counts) :
    (downloadCandidate lib a c base ghosts).Yields fun x =>
      ∀ row ∈ x.2, ∃ path, row = handoffRow c path := by
  have hnone : ∀ counts : Counts, ∀ row ∈ ((counts, none) :
      Counts × Option DownloadedHandoffCandidate).2, ∃ path, row = handoffRow c path :=
    fun _ row hrow => by cases hrow
  unfold downloadCandidate
  simp only
  split
  · exact yields_bind yields_true fun _ _ => hnone _
  · refine yields_bind yields_true fun _ _ => yields_bind yields_true fun x _ => ?_
    split
    · exact hnone _
    · refine yields_bind yields_true fun y _ => ?_
      split
      · exact hnone _
      · unfold finishDownload
        refine yields_bind yields_true fun _ _ => ?_
        split
        · refine yields_bind yields_true fun _ _ => yields_bind yields_true fun _ _ => ?_
          exact yields_bind yields_true fun _ _ => hnone _
        · refine yields_bind yields_true fun _ _ => yields_bind yields_true fun _ _ => ?_
          refine yields_bind yields_true fun _ _ row hrow => ?_
          cases hrow
          exact ⟨_, rfl⟩

/-- Induction on the candidates: every row is that of one of them. -/
theorem yields_downloadLoop {limit : Int} :
    ∀ (cs : List RemoteCandidate) (index : Nat) (used : List String) (d : Downloads),
      (downloadLoop lib a limit index cs used d).Yields fun d' =>
        ∀ row ∈ d'.rows, row ∈ d.rows ∨ ∃ c ∈ cs, ∃ path, row = handoffRow c path := by
  intro cs
  induction cs with
  | nil => exact fun _ _ _ row hrow => .inl hrow
  | cons c cs ih =>
    intro index used d
    rw [downloadLoop]
    split
    · exact fun row hrow => .inl hrow
    · refine yields_bind (yields_downloadCandidate c _ _) fun x hx => ?_
      refine Yields.mono (fun d' hd row hrow => ?_) (ih (index + 1) _ _)
      rcases hd row hrow with hold | ⟨c', hc', hpath⟩
      · rcases List.mem_append.mp hold with hold | hnew
        · exact .inl hold
        · exact .inr ⟨c, by simp, hx row (Option.mem_toList.mp hnew)⟩
      · exact .inr ⟨c', List.mem_cons_of_mem c hc', hpath⟩

end Rows

/-! ## The whole page -/

/-- The item was emitted: its candidate has a row. -/
def Emitted (py : PyValues) (accountName : String) (readings : Nat → String) (payload : Payload)
    (n : Nat) (raw : Payload) (d : Downloads) : Prop :=
  ∃ c path, BuiltFrom py accountName readings payload n raw c ∧ handoffRow c path ∈ d.rows

/-- What `download_candidates` emits for a page passes the contract exactly when
every item it was emitted from is `ItemOk`. -/
theorem handoff_accepted_iff {env : Env} {lib : ClientLib} {out : Outside} {a : PollArgs}
    {readings : Nat → String} {payload : Payload} {cs : List RemoteCandidate}
    {budget : Option Int} {w : ClientState} {d : Downloads}
    (hcs : reduceDeltaPageCandidates lib.toPyValues a.accountName readings payload = .ok cs)
    (hrun : ((downloadCandidates lib a cs budget).run (clientHandle out) w).1 = .ok d) :
    validateBatchContract env (d.rows.map DownloadedHandoffCandidate.staged) 1 = .ret () ↔
      ∀ n raw, Emitted lib.toPyValues a.accountName readings payload n raw d →
        ItemOk env lib.toPyValues a.accountName (readings n) raw := by
  have hrows : ∀ row ∈ d.rows, ∃ c ∈ cs, ∃ path, row = handoffRow c path := by
    intro row hrow
    have hyields := yields_bind (f := fun _ => downloadLoop lib a (budget.getD 0) 0 cs []
      ⟨∅, []⟩) (yields_true (p := call (S := ClientOps) (ε := ClientError)
      (.enterDownload cs budget))) fun _ _ => yields_downloadLoop cs 0 [] ⟨∅, []⟩
    rcases hyields.of_run hrun row hrow with hold | hnew
    · cases hold
    · exact hnew
  rw [validateBatchContract_iff, List.forall_mem_map]
  constructor
  · rintro haccepted n raw ⟨c, path, ⟨-, hbuilt⟩, hrow⟩
    exact (accepted_iff_itemOk path hbuilt).mp (haccepted _ hrow)
  · intro hitems row hrow
    obtain ⟨c, hc, path, rfl⟩ := hrows row hrow
    obtain ⟨n, raw, hbuilt⟩ := builtFrom_of_mem hcs hc
    exact (accepted_iff_itemOk path hbuilt.2).mpr (hitems n raw ⟨c, path, hbuilt, hrow⟩)

/-- A photo whose parent is `path`. -/
def itemIn (path : String) : Payload :=
  [("id", .str "a"), ("name", .str "a.jpg"), ("file", .obj []), ("size", .num "1"),
    ("parentReference", .obj [("path", .str path)]),
    ("lastModifiedDateTime", .str "2024-01-02T03:04:05Z"),
    ("@microsoft.graph.downloadUrl", .str "https://content/a")]

def pageIn (path : String) : Payload := [("value", .arr [.obj (itemIn path)])]

/-- What the page comes to: its candidates are downloaded without a limit. -/
def candidatesIn (path : String) : List RemoteCandidate :=
  ((reduceDeltaPageCandidates sizeLib.toPyValues "alice" (fun _ => "")
    (pageIn path)).toOption).getD []

def downloadsIn (path : String) : Except ClientError Downloads :=
  ((downloadCandidates sizeLib plainArgs (candidatesIn path) none).run (clientHandle twoFilesServer)
    emptyState).1

/-- A photo in the camera roll is emitted and passes. -/
theorem camera_roll_accepted :
    ∃ d, downloadsIn "/drive/root:/Camera Roll" = .ok d ∧ d.rows ≠ [] ∧
      validateBatchContract sampleEnv (d.rows.map DownloadedHandoffCandidate.staged) 1 =
        .ret () := by
  have hrows : (downloadsIn "/drive/root:/Camera Roll").toOption.any (·.rows ≠ []) = true := by
    decide +kernel
  cases hd : downloadsIn "/drive/root:/Camera Roll" with
  | error e => rw [hd] at hrows; cases hrows
  | ok d =>
    rw [hd] at hrows
    have hcs : reduceDeltaPageCandidates sizeLib.toPyValues plainArgs.accountName (fun _ => "")
        (pageIn "/drive/root:/Camera Roll") = .ok (candidatesIn "/drive/root:/Camera Roll") := by
      decide +kernel
    refine ⟨d, rfl, of_decide_eq_true hrows, (handoff_accepted_iff hcs hd).mpr ?_⟩
    rintro n raw ⟨c, path, ⟨hraw, -⟩, -⟩
    have hitem : raw = itemIn "/drive/root:/Camera Roll" := by
      cases n with
      | zero => cases hraw; rfl
      | succ n => cases hraw
    subst hitem
    refine ⟨by decide +kernel, fun text h => ?_, fun text h => ?_, ?_, by decide +kernel⟩
    · cases h; decide +kernel
    · cases h; decide +kernel
    · exact (extractRelativePath_iff _ _).mp (by decide +kernel)

/-- One photo in the root of the drive, and the whole page is refused. -/
theorem root_item_refused :
    ¬ ∀ cs d, reduceDeltaPageCandidates sizeLib.toPyValues plainArgs.accountName (fun _ => "")
        (pageIn "/drive/root:") = .ok cs →
      ((downloadCandidates sizeLib plainArgs cs none).run (clientHandle twoFilesServer)
        emptyState).1 = .ok d →
      validateBatchContract sampleEnv (d.rows.map DownloadedHandoffCandidate.staged) 1 =
        .ret () := by
  intro h
  have hrows : (downloadsIn "/drive/root:").toOption.any
      (·.rows.any (·.relativePath = "")) = true := by
    decide +kernel
  cases hd : downloadsIn "/drive/root:" with
  | error e => rw [hd] at hrows; cases hrows
  | ok d =>
    rw [hd] at hrows
    obtain ⟨row, hrow, hpath⟩ := List.any_eq_true.mp hrows
    have haccepted := (validateBatchContract_iff _).mp (h _ d (by decide +kernel) hd)
    have hslash := (haccepted _ (List.mem_map_of_mem hrow)).path
    have hempty : row.staged.relativePath = "" := of_decide_eq_true hpath
    rw [hempty] at hslash
    cases hslash

end Nightfall.OneDrive
