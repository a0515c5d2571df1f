import Nightfall.L7OneDrive.Resync

/-!
# The names of staged files (`adapters/onedrive/client.py`)

`_unique_staging_basename` answers a name that is in use with one hashed suffix
and does not look whether the suffixed name is in use as well. `Taken` says from
the ids alone which names are in use.

* `downloadLoop_eq`: the loop over the candidates runs over the names given.
* `touches_downloadCandidate`: a download touches the files of its base name.
* `staging_names_unique_iff`: the names and the files are apart exactly when the
  suffixed name of no id is taken.
-/
namespace Nightfall.OneDrive
open Nightfall.Core Storage Prog

/-! ## The names given -/

/-- The name with the hashed suffix. -/
def suffixedBasename (sha256Text : String → String) (itemId : String) : String :=
  safeStagingBasename itemId ++ "-" ++ String.ofList ((sha256Text itemId).toList.take 8)

/-- The names given to a list of ids, with those in use before. -/
def stagingBasenames (sha256Text : String → String) : List String → List String → List String
  | [], _ => []
  | itemId :: ids, used =>
    let named := uniqueStagingBasename sha256Text itemId used
    named.1 :: stagingBasenames sha256Text ids named.2

/-- The candidates the loop takes up within its limit. -/
def within (limit : Int) (cs : List RemoteCandidate) : List RemoteCandidate :=
  if 0 < limit then cs.take limit.toNat else cs

/-- The names `download_candidates` assigns. -/
def assignedBasenames (sha256Text : String → String) (cs : List RemoteCandidate)
    (maxDownloads : Option Int) : List String :=
  stagingBasenames sha256Text ((within (maxDownloads.getD 0) cs).map (·.itemId)) []

/-- The downloads, one candidate and its base name after the other. -/
def downloadNamed (lib : ClientLib) (a : PollArgs) :
    List (RemoteCandidate × String) → Downloads → ClientFlow Downloads
  | [], d => return d
  | (c, base) :: named, d => do
    let (ghosts, row) ← downloadCandidate lib a c base d.ghosts
    downloadNamed lib a named ⟨ghosts, d.rows ++ row.toList⟩

/-- The loop behind `index` candidates. -/
theorem downloadLoop_eq (lib : ClientLib) (a : PollArgs) (limit : Int) :
    ∀ (index : Nat) (cs : List RemoteCandidate) (used : List String) (d : Downloads),
      downloadLoop lib a limit index cs used d =
        let cs := if 0 < limit then cs.take (limit.toNat - index) else cs
        downloadNamed lib a (cs.zip (stagingBasenames lib.sha256Text (cs.map (·.itemId)) used)) d
  | _, [], _, _ => by simp [downloadLoop, downloadNamed]
  | index, c :: cs, used, d => by
    rw [downloadLoop]
    by_cases hstop : 0 < limit ∧ limit ≤ index
    · have hzero : limit.toNat - index = 0 := by omega
      simp [hstop, hzero, downloadNamed]
    · rw [if_neg hstop]
      by_cases hlimit : 0 < limit
      · have hmore : limit.toNat - index = limit.toNat - (index + 1) + 1 := by omega
        simp only [hlimit, if_true, hmore, List.take_succ_cons, List.map_cons, stagingBasenames,
          List.zip_cons_cons, downloadNamed, downloadLoop_eq lib a limit (index + 1)]
      · simp only [hlimit, if_false, List.map_cons, stagingBasenames, List.zip_cons_cons,
          downloadNamed, downloadLoop_eq lib a limit (index + 1)]

/-! ## Names in use -/

/-- The name is in use after the ids, newest first: it is the base name of one of
them, or the suffixed name of one whose base name was in use. -/
def Taken (sha256Text : String → String) : List String → String → Prop
  | [], _ => False
  | itemId :: earlier, name =>
    Taken sha256Text earlier name ∨ safeStagingBasename itemId = name ∨
      Taken sha256Text earlier (safeStagingBasename itemId) ∧
        suffixedBasename sha256Text itemId = name

/-- No id that needs the suffix finds its suffixed name in use. -/
def Unclashed (sha256Text : String → String) (earlier : List String) : List String → Prop
  | [] => True
  | itemId :: ids =>
    (Taken sha256Text earlier (safeStagingBasename itemId) →
      ¬ Taken sha256Text earlier (suffixedBasename sha256Text itemId)) ∧
      Unclashed sha256Text (itemId :: earlier) ids

instance instDecidableTaken (sha256Text : String → String) :
    ∀ (earlier : List String) (name : String), Decidable (Taken sha256Text earlier name)
  | [], _ => .isFalse id
  | _ :: earlier, _ =>
    have := instDecidableTaken sha256Text earlier
    inferInstanceAs (Decidable (_ ∨ _ ∨ _ ∧ _))

instance instDecidableUnclashed (sha256Text : String → String) :
    ∀ (earlier ids : List String), Decidable (Unclashed sha256Text earlier ids)
  | _, [] => .isTrue trivial
  | earlier, itemId :: ids =>
    have := instDecidableUnclashed sha256Text (itemId :: earlier) ids
    inferInstanceAs (Decidable ((_ → _) ∧ _))

section Names
variable {sha256Text : String → String} {earlier used : List String}

theorem uniqueStagingBasename_of_mem {itemId : String} (h : safeStagingBasename itemId ∈ used) :
    uniqueStagingBasename sha256Text itemId used =
      (suffixedBasename sha256Text itemId, suffixedBasename sha256Text itemId :: used) := by
  simp [uniqueStagingBasename, h, suffixedBasename]

theorem uniqueStagingBasename_of_not_mem {itemId : String}
    (h : safeStagingBasename itemId ∉ used) :
    uniqueStagingBasename sha256Text itemId used =
      (safeStagingBasename itemId, safeStagingBasename itemId :: used) := by
  simp [uniqueStagingBasename, h]

theorem length_stagingBasenames : ∀ (ids used : List String),
    (stagingBasenames sha256Text ids used).length = ids.length
  | [], _ => rfl
  | _ :: ids, _ => congrArg (· + 1) (length_stagingBasenames ids _)

/-- The set in the source holds the names in use. -/
theorem mem_used_iff (hused : ∀ name, name ∈ used ↔ Taken sha256Text earlier name)
    (itemId name : String) :
    name ∈ (uniqueStagingBasename sha256Text itemId used).2 ↔
      Taken sha256Text (itemId :: earlier) name := by
  by_cases hbase : safeStagingBasename itemId ∈ used
  · have htaken := (hused _).mp hbase
    rw [uniqueStagingBasename_of_mem hbase, List.mem_cons, hused, Taken]
    constructor
    · rintro (hname | hname)
      · exact .inr (.inr ⟨htaken, hname.symm⟩)
      · exact .inl hname
    · rintro (hname | hname | hname)
      · exact .inr hname
      · exact .inr (hname ▸ htaken)
      · exact .inl hname.2.symm
  · have hfree := mt (hused _).mpr hbase
    rw [uniqueStagingBasename_of_not_mem hbase, List.mem_cons, hused, Taken]
    simp only [hfree, false_and, or_false]
    rw [or_comm, eq_comm]

/-- One name: it is free unless the suffixed name is in use as well. -/
theorem unique_not_mem_iff (hused : ∀ name, name ∈ used ↔ Taken sha256Text earlier name)
    (itemId : String) :
    (uniqueStagingBasename sha256Text itemId used).1 ∉ used ↔
      (Taken sha256Text earlier (safeStagingBasename itemId) →
        ¬ Taken sha256Text earlier (suffixedBasename sha256Text itemId)) := by
  by_cases hbase : safeStagingBasename itemId ∈ used
  · rw [uniqueStagingBasename_of_mem hbase, hused]
    simp [(hused _).mp hbase]
  · rw [uniqueStagingBasename_of_not_mem hbase]
    simp [hbase, mt (hused _).mpr hbase]

theorem nodup_stagingBasenames_iff : ∀ (ids : List String) {earlier used : List String},
    (∀ name, name ∈ used ↔ Taken sha256Text earlier name) →
    (((stagingBasenames sha256Text ids used).Nodup ∧
        ∀ name ∈ stagingBasenames sha256Text ids used, name ∉ used) ↔
      Unclashed sha256Text earlier ids)
  | [], _, _, _ => by simp [stagingBasenames, Unclashed]
  | itemId :: ids, earlier, used, hused => by
    have ih := nodup_stagingBasenames_iff ids (mem_used_iff hused itemId)
    have hused' : ∀ name, name ∈ (uniqueStagingBasename sha256Text itemId used).2 ↔
        name = (uniqueStagingBasename sha256Text itemId used).1 ∨ name ∈ used := by
      intro name
      by_cases hbase : safeStagingBasename itemId ∈ used
      · rw [uniqueStagingBasename_of_mem hbase, List.mem_cons]
      · rw [uniqueStagingBasename_of_not_mem hbase, List.mem_cons]
    rw [Unclashed, ← unique_not_mem_iff hused, ← ih]
    simp only [stagingBasenames, List.nodup_cons, List.forall_mem_cons, hused', not_or]
    constructor
    · rintro ⟨⟨hnew, hnodup⟩, hfree, hrest⟩
      exact ⟨hfree, hnodup, fun name hname => ⟨fun heq => hnew (heq ▸ hname), hrest name hname⟩⟩
    · rintro ⟨hfree, hnodup, hrest⟩
      exact ⟨⟨fun hmem => (hrest _ hmem).1 rfl, hnodup⟩, hfree,
        fun name hname => (hrest name hname).2⟩

end Names

/-! ## The files of a name -/

/-- The files a candidate may write: the temporary one, the final one and the
one in quarantine. -/
def stagingFiles (a : PollArgs) (named : RemoteCandidate × String) : List Path :=
  [a.stagingDir ++ [named.2 ++ ".tmp"], a.stagingDir ++ [named.2 ++ safeExtension named.1.name],
    a.stagingDir ++ ["_quarantine", named.2 ++ safeExtension named.1.name]]

/-- What a download does to files, it does to these. -/
def ClientOp.Touches (ps : List Path) : ClientOp → Prop
  | .file (.unlink p) => p ∈ ps
  | .file (.openWb p) => p ∈ ps
  | .file (.write p _) => p ∈ ps
  | .file (.replace src dst) => src ∈ ps ∧ dst ∈ ps
  | _ => True

theorem admits_touches {ps : List Path} {tmp : Path} (htmp : tmp ∈ ps) (c : RemoteCandidate) :
    ClientOp.Admits (ClientOp.Touches ps) c tmp where
  asks o h := by
    cases o with
    | file f => exact h.elim
    | _ => trivial
  transfers o h := by
    cases o with
    | file f =>
      cases f with
      | unlink p => exact (h : p = tmp) ▸ htmp
      | openWb p => exact (h : p = tmp) ▸ htmp
      | write p _ => exact (h : p = tmp) ▸ htmp
      | replace _ _ => exact h.elim
      | _ => trivial
    | _ => trivial
  ghost _ := trivial
  clock := trivial
  lifecycle _ := trivial

/-- A download touches the files of its own base name. -/
theorem touches_downloadCandidate {lib : ClientLib} {a : PollArgs} (c : RemoteCandidate)
    (base : String) (ghosts : Counts) :
    (downloadCandidate lib a c base ghosts).Calls (ClientOp.Touches (stagingFiles a (c, base))) := by
  have htmp : a.stagingDir ++ [base ++ ".tmp"] ∈ stagingFiles a (c, base) := by simp [stagingFiles]
  exact calls_downloadCandidate lib ghosts (admits_touches htmp c)
    ⟨htmp, by simp [stagingFiles]⟩ ⟨htmp, by simp [stagingFiles]⟩ fun _ => trivial

/-! ## Files apart -/

/-- A dot and what has none: the extensions a staged file may have. -/
def IsExtension (ext : String) : Prop := ∃ cs, ext.toList = '.' :: cs ∧ '.' ∉ cs

theorem isAlnum_lowerAscii {c : Char} (h : isAlnum c = true) : isAlnum (lowerAscii c) = true := by
  unfold lowerAscii
  split
  · next hupper =>
    have hletters : ∀ n < 91, 65 ≤ n → isAlnum (Char.ofNat (n + 32)) = true := by decide
    simp only [Bool.and_eq_true, decide_eq_true_eq] at hupper
    exact hletters c.toNat (Nat.lt_succ_of_le hupper.2) hupper.1
  · exact h

theorem not_mem_of_alnum {cs : List Char} {d : Char} (hd : isAlnum d = false)
    (h : cs.all isAlnum = true) : d ∉ cs.map lowerAscii := by
  intro hmem
  obtain ⟨c, hc, rfl⟩ := List.mem_map.mp hmem
  rw [isAlnum_lowerAscii (List.all_eq_true.mp h c hc)] at hd
  cases hd

theorem isExtension_safeExtension (name : String) : IsExtension (safeExtension name) := by
  unfold safeExtension
  split
  · next ext _ =>
    split
    · next hext =>
      rw [Bool.and_eq_true] at hext
      exact ⟨ext.map lowerAscii, by simp, not_mem_of_alnum (by decide) hext.1⟩
    · exact ⟨"bin".toList, rfl, by decide⟩
  · exact ⟨"bin".toList, rfl, by decide⟩

theorem isExtension_tmp : IsExtension ".tmp" := ⟨"tmp".toList, rfl, by decide⟩

/-- The last dot separates a base name from its extension. -/
theorem base_eq_of_append_eq {x y ext ext' : String} (hext : IsExtension ext)
    (hext' : IsExtension ext') (h : x ++ ext = y ++ ext') : x = y := by
  obtain ⟨cs, hcs, hdot⟩ := hext
  obtain ⟨cs', hcs', hdot'⟩ := hext'
  have hlists : x.toList ++ '.' :: cs = y.toList ++ '.' :: cs' := by
    rw [← hcs, ← hcs', ← String.toList_append, ← String.toList_append, h]
  have hrev : cs.reverse ++ '.' :: x.toList.reverse = cs'.reverse ++ '.' :: y.toList.reverse := by
    simpa using congrArg List.reverse hlists
  have hskip : ∀ {cs rest : List Char}, '.' ∉ cs →
      (cs.reverse ++ '.' :: rest).dropWhile (· != '.') = '.' :: rest := by
    intro cs rest hcs
    rw [List.dropWhile_append_of_pos]
    · simp
    · intro c hc
      have hne : c ≠ '.' := by
        rintro rfl
        exact hcs (List.mem_reverse.mp hc)
      simpa using hne
  have hbase := congrArg (List.dropWhile (· != '.')) hrev
  rw [hskip hdot, hskip hdot'] at hbase
  exact String.toList_inj.mp (by simpa using hbase)

/-- Two candidates of different base names share no file. -/
theorem disjoint_stagingFiles (a : PollArgs) {x y : RemoteCandidate × String} (h : x.2 ≠ y.2) :
    ∀ p ∈ stagingFiles a x, p ∉ stagingFiles a y := by
  have hx := isExtension_safeExtension x.1.name
  have hy := isExtension_safeExtension y.1.name
  have hne : ∀ {ext ext'}, IsExtension ext → IsExtension ext' → x.2 ++ ext ≠ y.2 ++ ext' :=
    fun hext hext' heq => h (base_eq_of_append_eq hext hext' heq)
  simp [stagingFiles, hne isExtension_tmp isExtension_tmp, hne isExtension_tmp hy,
    hne hx isExtension_tmp, hne hx hy]

/-- The base names that `download_candidates` assigns are distinct, and no
candidate writes a file of another. -/
def NamesUnique (sha256Text : String → String) (a : PollArgs) (cs : List RemoteCandidate)
    (maxDownloads : Option Int) : Prop :=
  (assignedBasenames sha256Text cs maxDownloads).Nodup ∧
    ((within (maxDownloads.getD 0) cs).zip (assignedBasenames sha256Text cs maxDownloads)).Pairwise
      fun x y => ∀ p ∈ stagingFiles a x, p ∉ stagingFiles a y

/-- The names are unique exactly when no id that needs a suffix finds its
suffixed name in use. -/
theorem staging_names_unique_iff (sha256Text : String → String) (a : PollArgs)
    (cs : List RemoteCandidate) (maxDownloads : Option Int) :
    NamesUnique sha256Text a cs maxDownloads ↔
      Unclashed sha256Text [] ((within (maxDownloads.getD 0) cs).map (·.itemId)) := by
  have hnone : ∀ name, name ∈ ([] : List String) ↔ Taken sha256Text [] name := by simp [Taken]
  rw [← nodup_stagingBasenames_iff _ hnone]
  constructor
  · intro h
    exact ⟨h.1, by simp⟩
  · intro ⟨h, _⟩
    refine ⟨h, ?_⟩
    have hnames : ((within (maxDownloads.getD 0) cs).zip
        (assignedBasenames sha256Text cs maxDownloads)).map Prod.snd =
        assignedBasenames sha256Text cs maxDownloads :=
      List.map_snd_zip (by simp [assignedBasenames, length_stagingBasenames])
    have hpairs : (((within (maxDownloads.getD 0) cs).zip
        (assignedBasenames sha256Text cs maxDownloads)).map Prod.snd).Nodup := by
      rw [hnames]
      exact h
    exact (List.pairwise_map.mp hpairs).imp fun hne => disjoint_stagingFiles a hne

example : Unclashed (fun id => id ++ "0123456789") [] ["a/b", "a?b", "a b", "c"] := by decide +kernel

/-! ## A clash -/

def candidateOf (itemId : String) : RemoteCandidate where
  accountName := "alice"
  itemId := itemId
  name := "IMG_1.jpg"
  relativePath := "IMG_1.jpg"
  sizeBytes := some 1
  rawModifiedTime := none
  normalizedModifiedTime := "2024-01-01T00:00:00Z"
  downloadUrl := none

/-- The digest of `x!`, the one text of the example that is hashed. -/
def sha256OfX : String → String := fun _ =>
  "4038e65dabd8922151d75a4b8d63a713558d3c8fb205447dcb84aac44df1b684"

/-- `x!` becomes `x`, which is in use, and its suffixed name is the first id. -/
theorem suffixed_name_in_use :
    let cs := ["x-4038e65d", "x", "x!"].map candidateOf
    (cs.map (·.itemId)).Nodup ∧ assignedBasenames sha256OfX cs none =
      ["x-4038e65d", "x", "x-4038e65d"] ∧ ¬ NamesUnique sha256OfX plainArgs cs none := by
  refine ⟨by decide, by decide +kernel, fun h => ?_⟩
  have hnodup : ["x-4038e65d", "x", "x-4038e65d"].Nodup := h.1
  exact absurd hnodup (by decide)

end Nightfall.OneDrive
