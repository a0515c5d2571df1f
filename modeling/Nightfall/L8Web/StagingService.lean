import Mathlib.Data.List.Sort
import Mathlib.Data.String.Basic
import Nightfall.Core.Paging
import Nightfall.L2Registry.Registry

/-!
# Pages of the staging queue (`api/services/staging_service.py`)

The query joins the pending files with their origins: a file contributes one row
for each origin, or one row without an origin. The limit counts rows; the cursor
and the total count files.

* `take_itemRows_iff`: a page holds its first files once each exactly when only
  the last of them may have several rows.
* `staging_pages_iff`: the chain of requests returns every pending file once, in
  order, exactly when every file with several origins is the last of a page.
-/
namespace Nightfall.Web
open Nightfall.Core Storage

structure StagingItem where
  sha256 : String
  filename : String
  sizeBytes : Nat
  firstSeenAt : String
  updatedAt : String
  account : Option String
  onedriveId : Option String
  deriving DecidableEq, Repr

structure StagingPage where
  items : List StagingItem
  cursor : Option String
  hasMore : Bool
  total : Nat
  deriving DecidableEq, Repr

/-- A row of `files` with its key. -/
abbrev FileRow := String × FileRecord

/-- The pending files, `ORDER BY sha256`. -/
def pendingFiles (r : Registry) : List FileRow :=
  ((r.files.entries.map fun e => (e.1, e.2)).filter fun f => f.2.status = .pending).insertionSort
    fun a b => decide (a.1 ≤ b.1)

/-- The keys of the origins of a hash. -/
def originsOf (r : Registry) (sha : String) : List (String × String) :=
  (r.fileOrigins.entries.filter fun e => e.2.sha256 = sha).map (·.1)

def stagingItem (f : FileRow) (origin : Option (String × String)) : StagingItem where
  sha256 := f.1
  filename := (f.2.originalFilename.filter (· ≠ "")).getD "unknown"
  sizeBytes := f.2.sizeBytes
  firstSeenAt := f.2.firstSeenAt
  updatedAt := f.2.updatedAt
  account := origin.map (·.1)
  onedriveId := origin.map (·.2)

/-- The rows of a file in the `LEFT JOIN` with its origins. -/
def itemRows (r : Registry) (f : FileRow) : List StagingItem :=
  match originsOf r f.1 with
  | [] => [stagingItem f none]
  | o :: os => (o :: os).map fun origin => stagingItem f (some origin)

/-- `f.sha256 > ?`, unless there is no cursor. -/
def isBehind (afterCursor : Option String) (f : FileRow) : Bool :=
  match afterCursor with
  | none => true
  | some cursor => cursor == "" || decide (cursor < f.1)

/-- mirrors api/services/staging_service.py:16-58 -/
def getStagingItems (r : Registry) (limit : Nat) (afterCursor : Option String) : StagingPage :=
  let rows := ((pendingFiles r).filter (isBehind afterCursor)).flatMap (itemRows r)
  let fetched := probe limit rows
  { items := fetched.1
    cursor := if fetched.2 then fetched.1.getLast?.map (·.sha256) else none
    hasMore := fetched.2
    total := (r.files.entries.filter fun e => e.2.status = .pending).length }

/-! ## Rows and files -/

/-- The file has more than one row in the join. -/
def Several (r : Registry) (f : FileRow) : Prop := 2 ≤ (originsOf r f.1).length

instance (r : Registry) (f : FileRow) : Decidable (Several r f) :=
  inferInstanceAs (Decidable (_ ≤ _))

/-- Every file with several rows stands at a multiple of the limit, counted
from 1. -/
def Aligned (r : Registry) (limit : Nat) (fs : List FileRow) : Prop :=
  ∀ j f, fs[j]? = some f → Several r f → limit ∣ j + 1

section
variable {r : Registry} {limit : Nat}

theorem length_itemRows (f : FileRow) :
    (itemRows r f).length = max 1 (originsOf r f.1).length := by
  unfold itemRows
  split
  · next h => simp [h]
  · next o os h => simp [h]

/-- Every row of a file carries its hash. -/
theorem itemRows_sha (f : FileRow) :
    (itemRows r f).map (·.sha256) = List.replicate (itemRows r f).length f.1 := by
  refine List.eq_replicate_iff.mpr ⟨by simp, fun sha hsha => ?_⟩
  obtain ⟨item, hitem, rfl⟩ := List.mem_map.mp hsha
  unfold itemRows at hitem
  split at hitem
  · simp only [List.mem_singleton] at hitem
    rw [hitem]; rfl
  · obtain ⟨o, -, rfl⟩ := List.mem_map.mp hitem
    rfl

/-- The hashes of the rows of some files, in order. -/
def rowShas (r : Registry) (fs : List FileRow) : List String :=
  (fs.flatMap (itemRows r)).map (·.sha256)

theorem rowShas_eq (fs : List FileRow) :
    rowShas r fs = fs.flatMap fun f => List.replicate (itemRows r f).length f.1 := by
  simp only [rowShas, List.map_flatMap, itemRows_sha]

theorem length_le_rowShas (fs : List FileRow) : fs.length ≤ (rowShas r fs).length := by
  rw [rowShas_eq]
  induction fs with
  | nil => simp
  | cons f fs ih =>
    have := length_itemRows (r := r) f
    simp only [List.flatMap_cons, List.length_append, List.length_replicate, List.length_cons]
    omega

theorem take_rowShas_iff {fs : List FileRow} (h : (fs.map (·.1)).Nodup) :
    (rowShas r fs).take limit = (fs.map (·.1)).take limit ↔
      ∀ j f, fs[j]? = some f → j + 1 < limit → ¬ Several r f := by
  have hpos : ∀ f : FileRow, 1 ≤ (itemRows r f).length := fun f => by
    rw [length_itemRows]; omega
  have hone : ∀ f : FileRow, (itemRows r f).length = 1 ↔ ¬ Several r f := fun f => by
    rw [length_itemRows, Several]; omega
  rw [rowShas_eq, take_join_iff hpos h]
  simp only [hone]

theorem Aligned.single {fs : List FileRow} (h : Aligned r limit fs) :
    ∀ j f, fs[j]? = some f → j + 1 < limit → ¬ Several r f := fun j f hj hlt hf =>
  Nat.not_dvd_of_pos_of_lt (by omega) hlt (h j f hj hf)

theorem aligned_drop_iff {fs : List FileRow} :
    Aligned r limit fs ↔ (∀ j f, fs[j]? = some f → j + 1 < limit → ¬ Several r f) ∧
      Aligned r limit (fs.drop limit) := by
  constructor
  · refine fun h => ⟨h.single, fun j f hj hf => ?_⟩
    have := h (limit + j) f (by simpa using hj) hf
    rwa [Nat.add_assoc, Nat.dvd_add_right (Nat.dvd_refl limit)] at this
  · rintro ⟨hfirst, hrest⟩ j f hj hf
    by_cases hlt : j < limit
    · have heq : j + 1 = limit := by
        by_contra hne
        exact hfirst j f hj (by omega) hf
      exact heq ▸ Nat.dvd_refl limit
    · obtain ⟨i, rfl⟩ := Nat.exists_eq_add_of_le (Nat.le_of_not_lt hlt)
      have := hrest i f (by simpa using hj) hf
      rwa [Nat.add_assoc, Nat.dvd_add_right (Nat.dvd_refl limit)]

/-! ## The queue in order -/

theorem pendingFiles_perm (r : Registry) : (pendingFiles r).Perm
    ((r.files.entries.map fun e => (e.1, e.2)).filter fun f => f.2.status = .pending) :=
  List.perm_insertionSort _ _

theorem pendingFiles_nodup (r : Registry) : ((pendingFiles r).map (·.1)).Nodup := by
  have hkeys : ((r.files.entries.map fun e => ((e.1, e.2) : FileRow)).map (·.1)).Nodup := by
    have := r.files.nodupKeys
    simpa [AList.keys, List.NodupKeys, List.keys, Function.comp_def] using this
  refine ((pendingFiles_perm r).map _).nodup_iff.mpr ?_
  exact hkeys.sublist (List.filter_sublist.map _)

theorem pendingFiles_ordered (r : Registry) : (pendingFiles r).Pairwise fun a b => a.1 < b.1 := by
  have hle : (pendingFiles r).Pairwise fun a b => a.1 ≤ b.1 := by
    have := List.pairwise_insertionSort (fun a b : FileRow => a.1 ≤ b.1)
      ((r.files.entries.map fun e => (e.1, e.2)).filter fun f => f.2.status = .pending)
    simpa [pendingFiles] using this
  have hne := List.pairwise_map.mp (pendingFiles_nodup r)
  exact (hle.and hne).imp fun h => lt_of_le_of_ne h.1 h.2

theorem mem_pendingFiles {sha : String} :
    sha ∈ (pendingFiles r).map (·.1) ↔ r.statusOf sha = some .pending := by
  rw [((pendingFiles_perm r).map _).mem_iff]
  simp only [List.mem_map, List.mem_filter, Registry.statusOf, Option.map_eq_some_iff,
    decide_eq_true_eq]
  constructor
  · rintro ⟨f, ⟨⟨e, he, rfl⟩, hst⟩, rfl⟩
    exact ⟨e.2, AList.mem_lookup_iff.mpr he, hst⟩
  · rintro ⟨row, hrow, hst⟩
    exact ⟨(sha, row), ⟨⟨⟨sha, row⟩, AList.mem_lookup_iff.mp hrow, rfl⟩, hst⟩, rfl⟩

theorem length_pendingFiles : (pendingFiles r).length =
    (r.files.entries.filter fun e => e.2.status = .pending).length := by
  rw [(pendingFiles_perm r).length_eq, List.filter_map, List.length_map]
  rfl

/-! ## One page -/

/-- The files at which the page behind `cursor` begins are the end `fs` of the queue. -/
def From (r : Registry) (cursor : Option String) (fs : List FileRow) : Prop :=
  fs <:+ pendingFiles r ∧ (pendingFiles r).filter (isBehind cursor) = fs

theorem from_first : From r none (pendingFiles r) :=
  ⟨List.suffix_rfl, List.filter_eq_self.mpr fun _ _ => rfl⟩

theorem From.nodup {cursor : Option String} {fs : List FileRow} (h : From r cursor fs) :
    (fs.map (·.1)).Nodup := (pendingFiles_nodup r).sublist (h.1.sublist.map _)

theorem page_items {cursor : Option String} {fs : List FileRow} (h : From r cursor fs) :
    (getStagingItems r limit cursor).items.map (·.sha256) = (rowShas r fs).take limit := by
  simp only [getStagingItems, h.2, probe_eq, rowShas, List.map_take]

theorem page_hasMore {cursor : Option String} {fs : List FileRow} (h : From r cursor fs) :
    (getStagingItems r limit cursor).hasMore = decide (limit < (rowShas r fs).length) := by
  simp only [getStagingItems, h.2, probe_eq, rowShas, List.length_map]

theorem page_cursor {cursor : Option String} {fs : List FileRow} (h : From r cursor fs)
    (hmore : limit < (rowShas r fs).length) :
    (getStagingItems r limit cursor).cursor = ((rowShas r fs).take limit).getLast? := by
  have hlt : limit < (fs.flatMap (itemRows r)).length := by simpa [rowShas] using hmore
  simp only [getStagingItems, h.2, probe_eq, decide_eq_true_eq, if_pos hlt, rowShas,
    ← List.map_take, List.getLast?_map]

/-- A page that holds its files once each hands over to the files behind them. -/
theorem from_next (hsha : r.files.get "" = none) (hlimit : 1 ≤ limit) {cursor : Option String}
    {fs : List FileRow} (h : From r cursor fs) (hmore : limit < (rowShas r fs).length)
    (hitems : (rowShas r fs).take limit = (fs.map (·.1)).take limit) :
    From r (getStagingItems r limit cursor).cursor (fs.drop limit) := by
  have hne : fs.take limit ≠ [] := by
    simp only [ne_eq, List.take_eq_nil_iff, not_or]
    refine ⟨by omega, ?_⟩
    rintro rfl
    simp [rowShas] at hmore
  obtain ⟨xs, a, hxs⟩ := (List.eq_nil_or_concat' _).resolve_left hne
  have hcut : xs ++ a :: fs.drop limit = fs := by
    rw [List.append_cons, ← hxs, List.take_append_drop]
  obtain ⟨before, hall⟩ := h.1
  have hsplit : before ++ xs ++ a :: fs.drop limit = pendingFiles r := by
    rw [List.append_assoc, hcut, hall]
  have ha : a.1 ≠ "" := by
    intro hempty
    have hmem : a.1 ∈ (pendingFiles r).map (·.1) := by rw [← hsplit]; simp
    rw [mem_pendingFiles, hempty, Registry.statusOf, hsha] at hmem
    cases hmem
  refine ⟨(List.drop_suffix limit fs).trans h.1, ?_⟩
  rw [page_cursor h hmore, hitems, ← List.map_take, hxs, List.map_append, List.map_singleton,
    List.getLast?_concat]
  have hbehind : isBehind (some a.1) = fun f : FileRow => decide (a.1 < f.1) := by
    funext f
    simp [isBehind, ha]
  have hord := pendingFiles_ordered r
  rw [hbehind]
  rw [← hsplit] at hord ⊢
  exact filter_behind (r := fun x y : FileRow => x.1 < y.1) (fun _ _ h => lt_asymm h) hord

/-! ## A chain of requests -/

/-- A request answers with the page of the registry, which stays as it is. -/
def AnswersStaging (r : Registry) (limit _n : Nat) (cursor : Option String) (page : StagingPage) :
    Prop := page = getStagingItems r limit cursor

/-- The chain of requests from the first page on. -/
abbrev StagingChain (r : Registry) (limit : Nat) (pages : List StagingPage) : Prop :=
  Follows (AnswersStaging r limit) StagingPage.hasMore StagingPage.cursor 0 none pages

/-- The pages return each pending file once, in ascending order, and as many
items as every page reports in total. -/
structure ExactPages (r : Registry) (pages : List StagingPage) : Prop where
  ascending : ((pages.flatMap (·.items)).map (·.sha256)).Pairwise (· < ·)
  pending : ∀ sha, sha ∈ (pages.flatMap (·.items)).map (·.sha256) ↔ r.statusOf sha = some .pending
  counted : ∀ page ∈ pages, (pages.flatMap (·.items)).length = page.total

theorem exact_staging (hsha : r.files.get "" = none) (hlimit : 1 ≤ limit) :
    Exact (AnswersStaging r limit) StagingPage.hasMore StagingPage.cursor
      (fun p => p.items.map (·.sha256))
      (fun _ c l => ∃ fs, l = fs.map (·.1) ∧ From r c fs ∧ Aligned r limit fs) where
  answered n c l _ := ⟨_, rfl⟩
  last n c l p := by
    rintro ⟨fs, rfl, hfrom, hal⟩ rfl hmore
    rw [page_hasMore hfrom, decide_eq_false_iff_not] at hmore
    have := length_le_rowShas (r := r) fs
    rw [page_items hfrom, (take_rowShas_iff hfrom.nodup).mpr hal.single,
      List.take_of_length_le (by simp only [List.length_map]; omega)]
  step n c l p := by
    rintro ⟨fs, rfl, hfrom, hal⟩ rfl hmore
    rw [page_hasMore hfrom, decide_eq_true_eq] at hmore
    have hitems := (take_rowShas_iff (r := r) hfrom.nodup).mpr hal.single
    have hpos : 1 ≤ fs.length := by
      cases fs with
      | nil => simp [rowShas] at hmore
      | cons => simp
    refine ⟨(fs.drop limit).map (·.1), ?_, ?_, fs.drop limit, rfl,
      from_next hsha hlimit hfrom hmore hitems, (aligned_drop_iff.mp hal).2⟩
    · rw [page_items hfrom, hitems, ← List.map_take, ← List.map_append, List.take_append_drop]
    · simp only [List.length_map, List.length_drop]
      omega

/-- Along a chain whose pages are the queue, only the last file of a page has
several origins. -/
theorem aligned_of_exact (hsha : r.files.get "" = none) (hlimit : 1 ≤ limit) {n : Nat}
    {c : Option String} {pages : List StagingPage}
    (hps : Follows (AnswersStaging r limit) StagingPage.hasMore StagingPage.cursor n c pages) :
    ∀ {fs : List FileRow}, From r c fs →
      (pages.flatMap fun p => p.items.map (·.sha256)) = fs.map (·.1) → Aligned r limit fs := by
  induction hps with
  | @last n c p hp hmore =>
    intro fs hfrom heq j f hj hf
    obtain rfl := hp
    rw [page_hasMore hfrom, decide_eq_false_iff_not] at hmore
    rw [List.flatMap_singleton, page_items hfrom, List.take_of_length_le (by omega)] at heq
    have htake : (rowShas r fs).take (fs.length + 1) = (fs.map (·.1)).take (fs.length + 1) := by
      rw [heq]
    have hall := (take_rowShas_iff hfrom.nodup).mp htake
    have hlt : j < fs.length := (List.getElem?_eq_some_iff.mp hj).1
    exact absurd hf (hall j f hj (by omega))
  | @step n c p ps hp hmore _ ih =>
    intro fs hfrom heq
    obtain rfl := hp
    rw [page_hasMore hfrom, decide_eq_true_eq] at hmore
    rw [List.flatMap_cons, page_items hfrom] at heq
    have hlen : ((rowShas r fs).take limit).length = limit := by
      simp only [List.length_take]
      omega
    have hitems : (rowShas r fs).take limit = (fs.map (·.1)).take limit := by
      rw [← heq, List.take_left' hlen]
    refine aligned_drop_iff.mpr ⟨(take_rowShas_iff hfrom.nodup).mp hitems,
      ih (from_next hsha hlimit hfrom hmore hitems) ?_⟩
    rw [List.map_drop, ← heq, List.drop_left' hlen]

end

/-- For every registry and limit: the chain of requests ends and returns every
pending file exactly once, in order and as many as reported, exactly when each
pending file with several origins stands at a multiple of the limit. -/
theorem staging_pages_iff (r : Registry) (limit : Nat) (hlimit : 1 ≤ limit)
    (hsha : r.files.get "" = none) :
    ((∃ pages, StagingChain r limit pages) ∧
      ∀ pages, StagingChain r limit pages → ExactPages r pages) ↔
      Aligned r limit (pendingFiles r) := by
  constructor
  · rintro ⟨⟨pages, hpages⟩, hexact⟩
    obtain ⟨hasc, hpending, -⟩ := hexact pages hpages
    refine aligned_of_exact hsha hlimit hpages from_first ?_
    rw [← List.map_flatMap]
    -- two lists in strict order with the same members
    have hord : ((pendingFiles r).map (·.1)).Pairwise (· < ·) :=
      List.pairwise_map.mpr (pendingFiles_ordered r)
    have hperm := (List.perm_ext_iff_of_nodup (hasc.imp ne_of_lt) (hord.imp ne_of_lt)).mpr
      fun sha => (hpending sha).trans mem_pendingFiles.symm
    exact hperm.eq_of_pairwise' hasc hord
  · intro hal
    have hexact := exact_staging hsha hlimit
    have hfirst : ∃ fs, (pendingFiles r).map (·.1) = fs.map (·.1) ∧ From r none fs ∧
        Aligned r limit fs := ⟨pendingFiles r, rfl, from_first, hal⟩
    refine ⟨hexact.ends _ le_rfl (n := 0) hfirst, fun pages hpages => ?_⟩
    have hshas : (pages.flatMap (·.items)).map (·.sha256) = (pendingFiles r).map (·.1) := by
      rw [List.map_flatMap]
      exact hexact.items_eq hpages hfirst
    refine ⟨?_, fun sha => ?_, fun page hpage => ?_⟩
    · rw [hshas]
      exact List.pairwise_map.mpr (pendingFiles_ordered r)
    · rw [hshas, mem_pendingFiles]
    · obtain ⟨n, c, rfl⟩ := hpages.answered page hpage
      have hlen := congrArg List.length hshas
      simpa [getStagingItems, length_pendingFiles] using hlen

def pendingRow : FileRecord := ⟨3, .pending, some "a.jpg", none, "t", "t"⟩

/-- Two pending files; the second one was seen twice. -/
def twoOrigins : Registry :=
  { Registry.empty with
    files := (AList.singleton "s1" pendingRow).insert "s2" pendingRow
    fileOrigins := ((AList.singleton ("acct", "o1") ⟨"s1", none, "t", "t"⟩).insert
      ("acct", "o2") ⟨"s2", none, "t", "t"⟩).insert ("acct", "o3") ⟨"s2", none, "t", "t"⟩ }

theorem twoOrigins_exact :
    (∃ pages, StagingChain twoOrigins 2 pages) ∧
      ∀ pages, StagingChain twoOrigins 2 pages → ExactPages twoOrigins pages := by
  refine (staging_pages_iff twoOrigins 2 (by decide) (by decide)).mpr fun j f hj hf => ?_
  have hfiles : pendingFiles twoOrigins = [("s1", pendingRow), ("s2", pendingRow)] := by
    decide +kernel
  rw [hfiles] at hj
  cases j with
  | zero =>
    obtain rfl : ("s1", pendingRow) = f := by simpa using hj
    exact absurd hf (by decide +kernel)
  | succ j =>
    cases j with
    | zero => decide
    | succ j => simp at hj

/-- With the default limit the second file is returned twice. -/
theorem twoOrigins_repeated :
    StagingChain twoOrigins 20 [getStagingItems twoOrigins 20 none] ∧
      (getStagingItems twoOrigins 20 none).items.map (·.sha256) = ["s1", "s2", "s2"] ∧
      (getStagingItems twoOrigins 20 none).total = 2 ∧
      ¬ ExactPages twoOrigins [getStagingItems twoOrigins 20 none] := by
  have hitems : (getStagingItems twoOrigins 20 none).items.map (·.sha256) = ["s1", "s2", "s2"] := by
    decide +kernel
  refine ⟨.last rfl (by decide +kernel), hitems, by decide +kernel, fun h => ?_⟩
  have hasc := h.ascending
  rw [List.flatMap_singleton, hitems] at hasc
  have hlt := (List.pairwise_cons.mp (List.pairwise_cons.mp hasc).2).1 "s2" (by simp)
  exact lt_irrefl _ hlt

end Nightfall.Web
