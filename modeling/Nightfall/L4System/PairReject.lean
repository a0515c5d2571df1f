import Nightfall.L4System.Audit
import Nightfall.L4System.Reingest

/-!
# Both or nothing (`reject.py`)

A reject of a member of a live photo pair moves the photo's file and then the
video's, and only then sets the statuses. The second move may raise when the
first one has been made; a hash may also be in several pairs, of which the first
is rejected.

* `PairsSound`: the members of every pair have rows, kept along every run.
* `wp_moveToRejectedFolder_exact`: which of its four ends a move takes.
* `BothOrNothing`: both members of every pair of the hash are rejected and filed,
  or the call raises and both are untouched.
* `both_or_nothing_iff`: exactly when, in every state a run reaches.
-/
namespace Nightfall
open Nightfall.Core Storage Prog

/-! ## The members of a pair have rows -/

/-- The hash a transaction may create a row for. -/
def Tx.creates : Tx → Option String
  | .createOrUpdateFile sha _ _ _ _ => some sha
  | .finalizeUnknownIngest sha _ _ _ _ _ _ _ _ => some sha
  | _ => none

structure PairsSound (r : Registry) : Prop where
  hashed : ∀ sha, (r.statusOf sha).isSome = true → IsSha sha
  members : ∀ pr ∈ r.livePhotoPairs,
    (r.statusOf pr.photoSha256).isSome = true ∧ (r.statusOf pr.videoSha256).isSome = true
  ids : PairIdsDistinct r

section Sound
variable {env : Env} {cfg : CoreConfig} {t : Tx} {r r' : Registry} {now : String} {w : World}

/-- A row is never deleted. -/
theorem known_apply (h : t.apply r now = .ok r') {sha : String}
    (hk : (r.statusOf sha).isSome = true) : (r'.statusOf sha).isSome = true := by
  rw [statusOf_apply h]
  cases t.sets with
  | none => exact hk
  | some set =>
    simp only
    split
    · rfl
    · exact hk

/-- A status is set of a row that is there or is created. -/
theorem known_of_sets (h : t.apply r now = .ok r') {sha : String} {st : Status}
    (hs : t.sets = some (sha, st)) :
    t.creates = some sha ∨ (r.statusOf sha).isSome = true := by
  have hrow : ∀ {old : FileRecord}, r.files.get sha = some old →
      (r.statusOf sha).isSome = true := by
    intro old hold
    simp [Registry.statusOf, hold]
  cases t with
  | createOrUpdateFile | finalizeUnknownIngest =>
    cases hs
    exact .inl rfl
  | finalizeAcceptFromPending =>
    cases hs
    obtain ⟨old, hold, -⟩ := Registry.files_finalizeAcceptFromPending h
    exact .inr (hrow hold)
  | finalizePurgeFromRejected =>
    cases hs
    obtain ⟨old, hold, -⟩ := Registry.files_finalizePurgeFromRejected h
    exact .inr (hrow hold)
  | transitionStatus =>
    cases hs
    obtain ⟨old, hold, -⟩ := Registry.files_transitionStatus h
    exact .inr (hrow hold)
  | triageApply =>
    cases hs
    obtain ⟨old, hold, -⟩ := Registry.files_triageApply h
    exact .inr (hrow hold)
  | _ => cases hs

theorem created_apply (h : t.apply r now = .ok r') {sha : String}
    (hk : (r'.statusOf sha).isSome = true) :
    t.creates = some sha ∨ (r.statusOf sha).isSome = true := by
  rw [statusOf_apply h] at hk
  cases hs : t.sets with
  | none =>
    rw [hs] at hk
    exact .inr hk
  | some set =>
    obtain ⟨k, st⟩ := set
    rw [hs] at hk
    simp only at hk
    split at hk
    · next heq => exact known_of_sets h (heq ▸ hs)
    · exact .inr hk

/-- The rows of an upsert: its own, with members that have rows, and old ones. -/
theorem members_upsert {id account stem p v : String} {st : PairStatus}
    (h : r.upsertLivePhotoPair id account stem p v st now = .ok r') (hs : PairsSound r) :
    ∀ pr ∈ r'.livePhotoPairs,
      (r.statusOf pr.photoSha256).isSome = true ∧ (r.statusOf pr.videoSha256).isSome = true := by
  have hown : (r.statusOf p).isSome = true ∧ (r.statusOf v).isSome = true := by
    unfold Registry.upsertLivePhotoPair at h
    split at h
    · next hrows => simpa [Registry.statusOf] using hrows
    · cases h
  intro pr hpr
  rcases livePhotoPairs_upsert h with ⟨-, hrows⟩ | ⟨-, hrows⟩
  · rw [hrows, List.mem_map] at hpr
    obtain ⟨old, hold, rfl⟩ := hpr
    unfold upsertedRow
    split
    · exact hown
    · exact hs.members old hold
  · rw [hrows, List.mem_append, List.mem_singleton] at hpr
    rcases hpr with hpr | rfl
    · exact hs.members pr hpr
    · exact hown

theorem pairsSound_apply (h : t.apply r now = .ok r')
    (hc : ∀ sha, t.creates = some sha → IsSha sha) (hs : PairsSound r) : PairsSound r' := by
  refine ⟨fun sha hk => ?_, fun pr hpr => ?_, ids_apply h hs.ids⟩
  · rcases created_apply h hk with hnew | hold
    · exact hc sha hnew
    · exact hs.hashed sha hold
  · have hmembers : (r.statusOf pr.photoSha256).isSome = true ∧
        (r.statusOf pr.videoSha256).isSome = true := by
      cases ht : t.writesPairs with
      | false =>
        rw [livePhotoPairs_apply h ht] at hpr
        exact hs.members pr hpr
      | true =>
        cases t with
        | upsertLivePhotoPair => exact members_upsert h hs pr hpr
        | setLivePhotoPairStatus id st =>
          cases h
          obtain ⟨old, hold, rfl⟩ := List.mem_map.mp hpr
          have hm := hs.members old hold
          split
          · exact hm
          · exact hm
        | _ => cases ht
    exact ⟨known_apply h hmembers.1, known_apply h hmembers.2⟩

/-- The step creates rows of digests only. -/
def Op.Creates (env : Env) : Op → Prop
  | .tx t => ∀ sha, t.creates = some sha → Digest env sha
  | _ => True

theorem pairsSound_handle (hsha : ∀ b, IsSha (env.sha256 b)) {o : Op} (ho : o.Creates env)
    (hs : PairsSound w.reg) : PairsSound (handle env o w).2.reg := by
  cases o with
  | tx t =>
    simp only [handle]
    split
    · next r hr =>
      refine pairsSound_apply hr (fun sha hc => ?_) hs
      rcases ho sha hc with ⟨b, rfl⟩ | h
      · exact hsha b
      · exact h
    · exact hs
  | _ =>
    rw [handle_reg rfl]
    exact hs

theorem pairsSound_of_calls (hsha : ∀ b, IsSha (env.sha256 b)) {α : Type} {p : Flow α}
    (hp : p.Calls (Op.Creates env)) (hs : PairsSound w.reg) :
    p.Along (handle env) (fun _ _ _ => True) w fun _ w' => PairsSound w'.reg :=
  hp.along_inv (I := fun w : World => PairsSound w.reg)
    (fun _ _ ho hw => ⟨trivial, pairsSound_handle hsha ho hw⟩) hs

theorem creates_of_plain {o : Op} (h : o.Plain) : o.Creates env := by
  cases o with
  | tx t =>
    intro sha hc
    cases t with
    | createOrUpdateFile | finalizeUnknownIngest => cases h
    | _ => cases hc
  | _ => trivial

theorem creates_rejectBlocked {eng : Engine} {c : StagedCandidate} {opId : String} {n : Nat}
    {b : Bytes} {rule : RuleType × String} :
    (rejectBlocked eng c opId n (env.sha256 b) rule).Calls (Op.Creates env) := by
  unfold rejectBlocked
  refine Calls.bind (calls_unlink trivial) fun _ => Calls.bind (calls_transact ?_) fun _ => ?_
  · rintro sha ⟨⟩
    exact .inl ⟨b, rfl⟩
  · refine Calls.bind (calls_transact nofun) fun _ => Calls.bind (calls_transact nofun) fun _ => ?_
    exact Calls.bind (calls_transact nofun) fun _ =>
      Calls.bind (calls_journalAppend fun _ _ => trivial) fun _ => .ret

theorem creates_rejectUnknown {sha reason actor : String} {name : Option String} {size : Nat}
    {incoming : Option Path} (hd : Digest env sha) :
    (rejectUnknown env cfg sha reason actor name size incoming).Calls (Op.Creates env) := by
  unfold rejectUnknown
  refine Calls.bind (calls_utcNow trivial) fun now => ?_
  refine (operator_movePhysicalToRejected.imp fun _ ho => creates_of_plain ho.plain).bind fun p => ?_
  refine Calls.bind (calls_transact ?_) fun _ => Calls.bind (calls_transact nofun) fun _ => .ret
  rintro k ⟨⟩
  exact hd

theorem steps_pairsSound (hsha : ∀ b, IsSha (env.sha256 b)) :
    Steps env cfg (fun _ _ _ => True) fun w => PairsSound w.reg where
  plain _ _ ho hw := ⟨trivial, pairsSound_handle hsha (creates_of_plain ho) hw⟩
  unknown b _ _ _ _ _ _ _ _ _ _ hw := by
    refine ⟨trivial, pairsSound_handle hsha ?_ hw⟩
    rintro sha ⟨⟩
    exact .inl ⟨b, rfl⟩
  blocked _ _ _ _ _ _ _ hw := pairsSound_of_calls hsha creates_rejectBlocked hw
  rejectUnknown _ _ _ _ _ _ _ hd _ hw := pairsSound_of_calls hsha (creates_rejectUnknown hd) hw

theorem pairsSound_call (hsha : ∀ b, IsSha (env.sha256 b)) (c : Call) (h : PairsSound w.reg) :
    PairsSound (c.after env cfg w).reg := by
  cases c with
  | action a =>
    cases a with
    | command c => exact along_run ((steps_pairsSound hsha).command c h)
    | outside fs rules => exact ⟨h.hashed, h.members, h.ids⟩
  | triage a item key reason actor =>
    exact along_run (pairsSound_of_calls hsha (calls_triageExecute trivial trivial
      (fun _ _ => nofun) fun _ => nofun) h)
  | pruneAuthFailures keep =>
    have hprune : (pruneAuthFailureAuditBacklog keep).Calls (Op.Creates env) :=
      calls_transact fun _ hc => by cases hc
    exact along_run (pairsSound_of_calls hsha hprune h)

theorem pairsSound_afterCalls (hsha : ∀ b, IsSha (env.sha256 b)) :
    ∀ (cs : List Call) (w : World), PairsSound w.reg → PairsSound (afterCalls env cfg cs w).reg
  | [], _, h => h
  | c :: cs, _, h => pairsSound_afterCalls hsha cs _ (pairsSound_call hsha c h)

end Sound

/-! ## Where a reject takes files from, and room for them -/

/-- The file of a hash: the path its row has and the bytes there. -/
def FileOf (w : World) (m : String) (p : Path) (b : Bytes) : Prop :=
  pathOf w m = some p ∧ w.fs.get p = some b

/-- A path a reject takes files from. -/
def managed (cfg : CoreConfig) (p : Path) : Bool :=
  withinRoot p cfg.pendingPath || withinRoot p cfg.acceptedPath

/-- The file of the hash stands where a reject does not take it from. -/
def Stuck (cfg : CoreConfig) (w : World) (m : String) : Prop :=
  ∃ p b, FileOf w m p b ∧ managed cfg p = false

/-- The name tried at an attempt; the first is the path itself. -/
def nameAt (base : Path) : Nat → Path
  | 0 => base
  | i + 1 => base.withName (collisionName base.name (i + 1))

/-- Two of the names tried are free. -/
def HasSpare (fs : Table Path Bytes) (base : Path) (n : Nat) : Prop :=
  ∃ i j, i ≤ n ∧ j ≤ n ∧ nameAt base i ≠ nameAt base j ∧ fs.get (nameAt base i) = none ∧
    fs.get (nameAt base j) = none

/-- The rejected root is neither below nor above the roots a reject takes files
from. -/
structure RejectedApart (cfg : CoreConfig) : Prop where
  pending : Unnested cfg.pendingPath cfg.rejectedPath
  accepted : Unnested cfg.acceptedPath cfg.rejectedPath

/-- A time that may be rendered: parsed from a text, or read from the clock. -/
def Stamp (env : Env) (ts : Timestamp) : Prop :=
  (∃ s, env.fromisoformat s = some ts) ∨ ∃ n, ts = (env.clock n).stamp

/-- The rejected root has `Room` for the file a reject would move, at any time. -/
def RoomFor (Room : Table Path Bytes → Path → Nat → Prop) (env : Env) (cfg : CoreConfig) (w : World)
    (m : String) : Prop :=
  ∀ row p b, w.reg.files.get m = some row → row.currentPath = some p → w.fs.get p = some b →
    managed cfg p = true → ∀ ts, Stamp env ts → ∃ rel,
      renderStorageRelativePath cfg.storageTemplate m (textOr row.originalFilename p.name) ts =
        .ok rel ∧ Room w.fs (cfg.rejectedPath ++ rel) 10000

section Moves
variable {env : Env} {cfg : CoreConfig} {w w' : World} {m : String}

theorem hasRoom_iff {fs : Table Path Bytes} {base : Path} {n : Nat} :
    HasRoom fs base n ↔ ∃ i, i ≤ n ∧ fs.get (nameAt base i) = none := by
  constructor
  · rintro (hfree | ⟨i, h1, hi, hfree⟩)
    · exact ⟨0, Nat.zero_le n, hfree⟩
    · obtain ⟨j, rfl⟩ : ∃ j, i = j + 1 := ⟨i - 1, by omega⟩
      exact ⟨j + 1, hi, hfree⟩
  · rintro ⟨i, hi, hfree⟩
    cases i with
    | zero => exact .inl hfree
    | succ i => exact .inr ⟨i + 1, by omega, hi, hfree⟩

/-- One more file leaves one of two free names. -/
theorem HasSpare.room {fs fs' : Table Path Bytes} {base d : Path} {n : Nat}
    (h : HasSpare fs base n) (hfs : ∀ q, q ≠ d → fs.get q = none → fs'.get q = none) :
    HasRoom fs' base n := by
  obtain ⟨i, j, hi, hj, hne, hfi, hfj⟩ := h
  by_cases hd : nameAt base i = d
  · exact hasRoom_iff.mpr ⟨j, hj, hfs _ (fun h => hne (hd.trans h.symm)) hfj⟩
  · exact hasRoom_iff.mpr ⟨i, hi, hfs _ hd hfi⟩

theorem RejectedApart.not_managed (h : RejectedApart cfg) {p : Path} (hp : cfg.rejectedPath <+: p) :
    managed cfg p = false := by
  by_contra hm
  rw [Bool.not_eq_false, managed, Bool.or_eq_true] at hm
  rcases hm with hin | hin
  · exact h.pending.disjoint (prefix_of_withinRoot hin) hp
  · exact h.accepted.disjoint (prefix_of_withinRoot hin) hp

/-- What a move into the rejected folder that returns has done. -/
structure Shelves (cfg : CoreConfig) (m : String) (w w' : World) : Prop where
  rows : ∀ k, k ≠ m → w'.reg.files.get k = w.reg.files.get k
  status : ∀ k, w'.reg.statusOf k = w.reg.statusOf k
  pairs : w'.reg.livePhotoPairs = w.reg.livePhotoPairs
  /-- a file it had was taken from a queue and is in the rejected root -/
  taken : ∀ p b, FileOf w m p b → managed cfg p = true ∧ w'.fs.get p = none
  filed : ∀ p b, FileOf w m p b → ∃ d, FileOf w' m d b ∧ cfg.rejectedPath <+: d
  /-- a row without a file has no path -/
  unfiled : (∀ p b, ¬ FileOf w m p b) → pathOf w' m = none
  others : ∀ q b, w.fs.get q = some b → pathOf w m ≠ some q → w'.fs.get q = some b
  /-- at most one name is taken, in the rejected root -/
  fresh : ∃ d, cfg.rejectedPath <+: d ∧ ∀ q, q ≠ d → w.fs.get q = none → w'.fs.get q = none
  still : pathOf w m = none → Still w w'
  changed : pathOf w m ≠ none → w'.reg.files.get m ≠ w.reg.files.get m

theorem wp_parseTimestamp_any {v : String} : (parseTimestamp env v).Wp (handle env) w fun r w' =>
    Still w w' ∧ ∃ ts, r = .ok ts ∧ Stamp env ts := by
  unfold parseTimestamp
  split
  · next ts hts => exact wp_ret.mpr ⟨.refl w, ts, rfl, .inl ⟨_, hts⟩⟩
  · exact wp_bind.mpr (wp_utcNow.mpr (wp_ret.mpr ⟨⟨rfl, rfl⟩, _, rfl, .inr ⟨_, rfl⟩⟩))

/-- With room in the rejected root a file that is there is moved. -/
theorem wp_movePhysicalToRejected_room {s : Path} {b : Bytes} {name : Option String} {mt : String}
    {Q : Except Err (Option Path) → World → Prop} (hs : IsSha m) (hb : w.fs.get s = some b)
    (hroom : ∀ ts, Stamp env ts → ∃ rel, renderStorageRelativePath cfg.storageTemplate m
      (textOr name s.name) ts = .ok rel ∧ HasRoom w.fs (cfg.rejectedPath ++ rel) 10000)
    (hmove : ∀ d w', w.fs.get d = none → cfg.rejectedPath <+: d → Moved s d b w w' →
      w'.reg = w.reg → Q (.ok (some d)) w') :
    (movePhysicalToRejected env cfg (some s) m name mt).Wp (handle env) w Q := by
  unfold movePhysicalToRejected
  refine wp_bind.mpr (wp_pathExists.mpr ?_)
  simp only [thenWp_ok, hb, Option.isSome_some, if_true]
  unfold renderRelativePath
  refine wp_bind.mpr (wp_bind.mpr (wp_mono (fun r w₁ h => ?_) wp_parseTimestamp_any))
  obtain ⟨h₁, ts, rfl, hts⟩ := h
  obtain ⟨rel, hrel, hfree⟩ := hroom ts hts
  have hne : rel ≠ [] := renderStorageRelativePath_ne_nil
    (hasGood_of_namesFile cfg.storage_named) hs.hasGood hrel
  simp only [thenWp_ok, hrel]
  refine wp_ret.mpr (wp_bind.mpr (wp_choose_room (by decide) (by simp [hne])
    (fun _ d hd hbeside => ?_) fun hno => ?_))
  · refine wp_bind.mpr (wp_replaceFile (b := b) (by rw [h₁.fs, hb]) fun w₂ hfs hreg => ?_)
    refine wp_ret.mpr (hmove d w₂ (by rw [← h₁.fs]; exact hd) (hbeside.within hne) ⟨hb, ?_⟩
      (hreg.trans h₁.reg))
    rw [hfs, h₁.fs]
  · rw [h₁.fs] at hno
    exact absurd hfree hno

/-- What a move ends in: it raises exactly for a file it does not take. -/
theorem wp_moveToRejectedFolder_exact {row : FileRecord} (hs : IsSha m)
    (hrow : w.reg.files.get m = some row) (hroom : RoomFor HasRoom env cfg w m)
    {Q : Except Err (List Path) → World → Prop}
    (hnull : pathOf w m = none → Q (.ok []) w)
    (hgone : ∀ p w' now, pathOf w m = some p → w.fs.get p = none → w'.fs = w.fs →
      w'.reg = w.reg.clearCurrentPath m now → Q (.ok []) w')
    (hstuck : Stuck cfg w m → ∀ e, Q (.error e) w)
    (hmove : ∀ p b d w' now, FileOf w m p b → managed cfg p = true → w.fs.get d = none →
      cfg.rejectedPath <+: d → Moved p d b w w' → w'.reg = w.reg.updateCurrentPath m d now →
      Q (.ok [p]) w') :
    (moveToRejectedFolder env cfg m).Wp (handle env) w Q := by
  have hpath : pathOf w m = row.currentPath := by simp [pathOf, hrow]
  unfold moveToRejectedFolder
  refine wp_bind.mpr (wp_getFile.mpr ?_)
  simp only [thenWp_ok, hrow]
  cases hp : row.currentPath with
  | none => exact wp_ret.mpr (hnull (hpath.trans hp))
  | some p =>
    refine wp_bind.mpr (wp_pathExists.mpr ?_)
    simp only [thenWp_ok]
    cases hb : w.fs.get p with
    | none =>
      refine wp_bind.mpr (wp_transact (fun r now w₁ hr hfs hreg => wp_ret.mpr ?_)
        (fun _ _ _ h => by cases h))
      cases hr
      exact hgone p w₁ now (hpath.trans hp) hb hfs hreg
    | some b =>
      have hfile : FileOf w m p b := ⟨hpath.trans hp, hb⟩
      have hin : (!withinRoot p cfg.pendingPath && !withinRoot p cfg.acceptedPath) =
          !managed cfg p := by simp [managed]
      simp only [Option.isSome_some, if_true, hin]
      cases hm : managed cfg p with
      | false => exact wp_err.mpr (hstuck ⟨p, b, hfile, hm⟩ _)
      | true =>
        simp only [Bool.not_true, Bool.false_eq_true, if_false]
        have htime : (rejectModifiedTime m).Wp (handle env) w fun r w' =>
            Still w w' ∧ ∃ mt, r = .ok mt := by
          unfold rejectModifiedTime
          refine wp_bind.mpr (wp_op.mpr (wp_ret.mpr ?_))
          simp only [thenWp_ok]
          split
          · exact wp_ret.mpr ⟨⟨rfl, rfl⟩, _, rfl⟩
          · exact wp_bind.mpr (wp_utcNow.mpr (wp_ret.mpr ⟨⟨rfl, rfl⟩, _, rfl⟩))
        refine wp_bind.mpr (wp_mono (fun r w₁ h => ?_) htime)
        obtain ⟨h₁, mt, rfl⟩ := h
        have hroom₁ := hroom row p b hrow hp hb hm
        rw [← h₁.fs] at hroom₁
        refine wp_bind.mpr (wp_movePhysicalToRejected_room hs (by rw [h₁.fs, hb]) hroom₁
          fun d w₂ hfree hd hmoved hreg₂ => ?_)
        refine wp_bind.mpr (wp_transact (fun r now w₃ hr hfs₃ hreg₃ => wp_ret.mpr ?_)
          (fun _ _ _ h => by cases h))
        cases hr
        refine hmove p b d w₃ now hfile hm (by rw [← h₁.fs]; exact hfree) hd ⟨hb, ?_⟩ ?_
        · rw [hfs₃, hmoved.2, h₁.fs]
        · rw [hreg₃, hreg₂, h₁.reg]

/-- The path of every row behind a write to one row that is there. -/
theorem get_of_modify {f : FileRecord → FileRecord} {row : FileRecord}
    (hrow : w.reg.files.get m = some row) (hfiles : w'.reg.files = w.reg.files.modify m f) :
    w'.reg.files.get m = some (f row) ∧ ∀ k, k ≠ m → w'.reg.files.get k = w.reg.files.get k := by
  refine ⟨?_, fun k hk => ?_⟩
  · rw [hfiles, Table.get_modify, if_pos rfl, hrow]
    rfl
  · rw [hfiles, Table.get_modify, if_neg hk]

/-- A move without a file to move. -/
theorem shelves_gone {p : Path} {row : FileRecord} {now : String}
    (hrow : w.reg.files.get m = some row) (hpath : pathOf w m = some p)
    (hgone : w.fs.get p = none) (hfs : w'.fs = w.fs)
    (hreg : w'.reg = w.reg.clearCurrentPath m now) : Shelves cfg m w w' := by
  have hfiles : w'.reg.files = _ := (congrArg Registry.files hreg).trans
    (Registry.files_clearCurrentPath w.reg m now)
  obtain ⟨hown, hrows⟩ := get_of_modify hrow hfiles
  have hnone : ∀ q b, ¬ FileOf w m q b := by
    intro q b ⟨hq, hb⟩
    rw [hpath] at hq
    cases hq
    rw [hgone] at hb
    cases hb
  exact {
    rows := hrows
    status := Registry.statusOf_of_modify hfiles fun _ => rfl
    pairs := by rw [hreg]; rfl
    taken := fun q b h => absurd h (hnone q b)
    filed := fun q b h => absurd h (hnone q b)
    unfiled := fun _ => by simp [pathOf, hown]
    others := fun q b hb _ => by rw [hfs, hb]
    fresh := ⟨cfg.rejectedPath, List.prefix_rfl, fun q _ hq => by rw [hfs, hq]⟩
    still := fun h => by rw [hpath] at h; cases h
    changed := fun _ h => by
      have hcur : pathOf w m = row.currentPath := by simp [pathOf, hrow]
      rw [hown, hrow] at h
      have hnull := congrArg FileRecord.currentPath (Option.some.inj h)
      rw [hcur, ← hnull] at hpath
      cases hpath }

/-- A move of a file to a free path of the rejected root. -/
theorem shelves_moved {p d : Path} {b : Bytes} {row : FileRecord} {now : String}
    (hrow : w.reg.files.get m = some row) (hfile : FileOf w m p b) (hm : managed cfg p = true)
    (hfree : w.fs.get d = none) (hd : cfg.rejectedPath <+: d) (hmoved : Moved p d b w w')
    (hreg : w'.reg = w.reg.updateCurrentPath m d now) : Shelves cfg m w w' := by
  have hfiles : w'.reg.files = _ := (congrArg Registry.files hreg).trans
    (Registry.files_updateCurrentPath w.reg m d now)
  obtain ⟨hown, hrows⟩ := get_of_modify hrow hfiles
  have hne : p ≠ d := by
    intro h
    rw [← h, hfile.2] at hfree
    cases hfree
  have honly : ∀ q b', FileOf w m q b' → q = p ∧ b' = b := by
    intro q b' ⟨hq, hb'⟩
    obtain rfl := Option.some.inj (hfile.1.symm.trans hq)
    exact ⟨rfl, Option.some.inj (hb'.symm.trans hfile.2)⟩
  exact {
    rows := hrows
    status := Registry.statusOf_of_modify hfiles fun _ => rfl
    pairs := by rw [hreg]; rfl
    taken := fun q b' h => by
      obtain ⟨rfl, rfl⟩ := honly q b' h
      refine ⟨hm, ?_⟩
      rw [hmoved.2, Table.get_put, if_neg hne, Table.get_drop, if_pos rfl]
    filed := fun q b' h => by
      obtain ⟨rfl, rfl⟩ := honly q b' h
      exact ⟨d, ⟨by simp [pathOf, hown], hmoved.get_dst⟩, hd⟩
    unfiled := fun h => absurd hfile (h p b)
    others := fun q b' hb' hq => by
      rw [hmoved.get_of_ne (fun h => ?_) fun h => ?_, hb']
      · rw [h, hfree] at hb'
        cases hb'
      · exact hq (h ▸ hfile.1)
    fresh := ⟨d, hd, fun q hq hnone => by
      rw [hmoved.get_of_ne hq fun h => ?_, hnone]
      rw [h, hfile.2] at hnone
      cases hnone⟩
    still := fun h => by rw [hfile.1] at h; cases h
    changed := fun _ h => by
      have hcur : pathOf w m = row.currentPath := by simp [pathOf, hrow]
      rw [hown, hrow] at h
      have hsame : some d = row.currentPath := congrArg FileRecord.currentPath (Option.some.inj h)
      rw [← hcur, hfile.1] at hsame
      exact hne (Option.some.inj hsame).symm }

theorem shelves_null (h : pathOf w m = none) : Shelves cfg m w w := by
  have hnone : ∀ p b, ¬ FileOf w m p b := by
    intro p b ⟨hp, _⟩
    rw [h] at hp
    cases hp
  exact {
    rows := fun _ _ => rfl
    status := fun _ => rfl
    pairs := rfl
    taken := fun p b hf => absurd hf (hnone p b)
    filed := fun p b hf => absurd hf (hnone p b)
    unfiled := fun _ => h
    others := fun _ _ hb _ => hb
    fresh := ⟨cfg.rejectedPath, List.prefix_rfl, fun _ _ hq => hq⟩
    still := fun _ => .refl w
    changed := fun hne => absurd h hne }

/-- The end of a move: raised with everything as it was, or filed away. -/
def MoveEnds (cfg : CoreConfig) (m : String) (w : World) : Except Err (List Path) → World → Prop
  | .ok _, w' => ¬ Stuck cfg w m ∧ Shelves cfg m w w'
  | .error _, w' => Stuck cfg w m ∧ w' = w

theorem wp_move_ends {row : FileRecord} (hs : IsSha m) (hrow : w.reg.files.get m = some row)
    (hroom : RoomFor HasRoom env cfg w m) :
    (moveToRejectedFolder env cfg m).Wp (handle env) w (MoveEnds cfg m w) := by
  refine wp_moveToRejectedFolder_exact hs hrow hroom (fun hnull => ?_)
    (fun p w' now hpath hgone hfs hreg => ?_) (fun hstuck _ => ⟨hstuck, rfl⟩)
    fun p b d w' now hfile hm hfree hd hmoved hreg => ?_
  · refine ⟨fun ⟨p, b, hf, _⟩ => ?_, shelves_null hnull⟩
    rw [hf.1] at hnull
    cases hnull
  · refine ⟨fun ⟨q, b, hf, _⟩ => ?_, shelves_gone hrow hpath hgone hfs hreg⟩
    obtain rfl := Option.some.inj (hpath.symm.trans hf.1)
    rw [hf.2] at hgone
    cases hgone
  · refine ⟨fun ⟨q, b', hf, hout⟩ => ?_, shelves_moved hrow hfile hm hfree hd hmoved hreg⟩
    obtain rfl := Option.some.inj (hfile.1.symm.trans hf.1)
    rw [hm] at hout
    cases hout

end Moves

/-! ## The statuses of a pair -/

/-- Two statuses are set and nothing else of a row but its time changes. -/
structure MarksPair (photo video : String) (w w' : World) : Prop where
  fs : w'.fs = w.fs
  paths : ∀ k, pathOf w' k = pathOf w k
  rejected : ∀ k, k = photo ∨ k = video → w'.reg.statusOf k = some .rejected
  others : ∀ k, k ≠ photo → k ≠ video → w'.reg.files.get k = w.reg.files.get k

section Marking
variable {env : Env} {cfg : CoreConfig} {w w' : World} {reason actor : String}

/-- One status. -/
theorem marks_transition {sha now : String} {r : Registry}
    (h : w.reg.transitionStatus sha .rejected reason actor now = .ok r) (hfs : w'.fs = w.fs)
    (hreg : w'.reg = r) : MarksPair sha sha w w' := by
  obtain ⟨old, hold, hfiles⟩ := Registry.files_transitionStatus h
  rw [← hreg] at hfiles
  refine ⟨hfs, fun k => ?_, fun k hk => ?_, fun k hk _ => ?_⟩
  · unfold pathOf
    rw [hfiles, Table.get_put]
    split
    · next hk => rw [hk, hold]; rfl
    · rfl
  · rw [or_self] at hk
    rw [Registry.statusOf_of_put hfiles, if_pos hk]
  · rw [hfiles, Table.get_put, if_neg hk]

theorem MarksPair.trans {photo video : String} {w₁ : World} (h : MarksPair photo photo w w₁)
    (h' : MarksPair video video w₁ w') : MarksPair photo video w w' := by
  refine ⟨h'.fs.trans h.fs, fun k => (h'.paths k).trans (h.paths k), fun k hk => ?_,
    fun k hp hv => (h'.others k hv hv).trans (h.others k hp hp)⟩
  by_cases hv : k = video
  · exact h'.rejected k (.inl hv)
  · rw [Registry.statusOf, h'.others k hv hv]
    exact h.rejected k (.inl (hk.resolve_right hv))

theorem transition_ok {sha : String} (reason actor now : String)
    (h : (w.reg.statusOf sha).isSome = true) :
    ∃ r, w.reg.transitionStatus sha .rejected reason actor now = .ok r := by
  unfold Registry.transitionStatus
  cases hrow : w.reg.files.get sha with
  | none => simp [Registry.statusOf, hrow] at h
  | some row => exact ⟨_, rfl⟩

/-- The pair with an id of its own is found, and both statuses are set. -/
theorem wp_applyLivePhotoPairStatus_marks {q : LivePhotoPairRecord}
    (hids : PairIdsDistinct w.reg) (hq : q ∈ w.reg.livePhotoPairs)
    (hphoto : (w.reg.statusOf q.photoSha256).isSome = true)
    (hvideo : (w.reg.statusOf q.videoSha256).isSome = true) :
    (applyLivePhotoPairStatus q.pairId .rejected reason actor).Wp (handle env) w fun r w' =>
      r = .ok () ∧ MarksPair q.photoSha256 q.videoSha256 w w' := by
  have hkey : (q.pairId, q.photoSha256, q.videoSha256) ∈ pairKeys w.reg := List.mem_map_of_mem hq
  unfold applyLivePhotoPairStatus
  refine wp_bind.mpr ?_
  simp only [getLivePhotoPair, wp_op, handle, wp_ret, thenWp_ok]
  cases hpair : w.reg.getLivePhotoPair q.pairId with
  | none =>
    have hnone := List.find?_eq_none.mp hpair q hq
    simp at hnone
  | some pair =>
    have hid : pair.pairId = q.pairId := by simpa using List.find?_some hpair
    obtain ⟨hp, hv⟩ := hids.members (by rw [← hid]; exact pairKeys_of_find hpair) hkey
    simp only [hp, hv]
    refine wp_bind.mpr (wp_transact (fun r now w₁ hr hfs₁ hreg₁ => ?_) fun e now w₁ he _ _ => ?_)
    · have hmark₁ : MarksPair q.photoSha256 q.photoSha256 w w₁ := marks_transition hr hfs₁ hreg₁
      have hvideo₁ : (w₁.reg.statusOf q.videoSha256).isSome = true := by
        rw [hreg₁]
        exact known_apply hr hvideo
      refine wp_bind.mpr (wp_transact (fun r now w₂ hr hfs₂ hreg₂ => ?_) fun e now w₂ he _ _ => ?_)
      · have hmark₂ : MarksPair q.videoSha256 q.videoSha256 w₁ w₂ := marks_transition hr hfs₂ hreg₂
        refine wp_transact (fun r now w₃ hr hfs₃ hreg₃ => ⟨rfl, ?_⟩) fun _ _ _ h => by cases h
        cases hr
        have hfiles₃ : w₃.reg.files = w₂.reg.files := by rw [hreg₃]; rfl
        have hmarks := hmark₁.trans hmark₂
        refine ⟨hfs₃.trans hmarks.fs, fun k => ?_, fun k hk => ?_, fun k h h' => ?_⟩
        · rw [pathOf, hfiles₃]
          exact hmarks.paths k
        · rw [Registry.statusOf, hfiles₃]
          exact hmarks.rejected k hk
        · rw [hfiles₃]
          exact hmarks.others k h h'
      · obtain ⟨r, hr⟩ := transition_ok reason actor now hvideo₁
        rw [Tx.apply, hr] at he
        cases he
    · obtain ⟨r, hr⟩ := transition_ok reason actor now hphoto
      rw [Tx.apply, hr] at he
      cases he

end Marking

/-! ## The two branches of a reject -/

/-- Nothing in the rejected root is in the way of the file of the hash: there is
room, and its row does not point to a file that is missing there. -/
structure Clear (env : Env) (cfg : CoreConfig) (w : World) (m : String) : Prop where
  room : RoomFor HasSpare env cfg w m
  stale : ∀ p, pathOf w m = some p → w.fs.get p = none → ¬ cfg.rejectedPath <+: p

/-- The ends of the pair branch: the photo's move raises, the video's does, or both
files are away and both statuses set. -/
inductive PairEnds (cfg : CoreConfig) (photo video : String) (w : World) :
    Except Err RejectResult → World → Prop
  | photo {e : Err} (hstuck : Stuck cfg w photo) : PairEnds cfg photo video w (.error e) w
  | video {e : Err} {w₁ : World} (hfree : ¬ Stuck cfg w photo) (hp : Shelves cfg photo w w₁)
      (hstuck : Stuck cfg w₁ video) : PairEnds cfg photo video w (.error e) w₁
  | both {res : RejectResult} {w₁ w₂ w' : World} (hfree : ¬ Stuck cfg w photo)
      (hp : Shelves cfg photo w w₁) (hfree' : ¬ Stuck cfg w₁ video) (hv : Shelves cfg video w₁ w₂)
      (hmarks : MarksPair photo video w₂ w') : PairEnds cfg photo video w (.ok res) w'

/-- The ends of the single branch: nothing to do, the move raises, or the file is
away and the status set. -/
inductive KnownEnds (cfg : CoreConfig) (sha : String) (w : World) :
    Except Err RejectResult → World → Prop
  | noop {res : RejectResult} {w' : World} (hst : w.reg.statusOf sha = some .rejected)
      (hfs : w'.fs = w.fs) (hfiles : w'.reg.files = w.reg.files) :
      KnownEnds cfg sha w (.ok res) w'
  | stuck {e : Err} (hst : w.reg.statusOf sha ≠ some .rejected) (hstuck : Stuck cfg w sha) :
      KnownEnds cfg sha w (.error e) w
  | moved {res : RejectResult} {w₁ w' : World} (hst : w.reg.statusOf sha ≠ some .rejected)
      (hfree : ¬ Stuck cfg w sha) (hs : Shelves cfg sha w w₁) (hmarks : MarksPair sha sha w₁ w') :
      KnownEnds cfg sha w (.ok res) w'

section Branches
variable {env : Env} {cfg : CoreConfig} {w w' w₁ : World} {sha reason actor : String}

theorem RoomFor.now {m : String} (h : RoomFor HasSpare env cfg w m) :
    RoomFor HasRoom env cfg w m := by
  intro row p b hrow hp hb hm ts hts
  obtain ⟨rel, hrel, hspare⟩ := h row p b hrow hp hb hm ts hts
  exact ⟨rel, hrel, hspare.room (d := []) fun _ _ hq => hq⟩

/-- A file the rejected root had, or has got, is not one a reject takes. -/
theorem Shelves.stays {m : String} (hapart : RejectedApart cfg) (h : Shelves cfg m w w₁) {p : Path}
    {b : Bytes} (hp : cfg.rejectedPath <+: p) (hb : w.fs.get p = some b) : w₁.fs.get p = some b := by
  refine h.others p b hb fun hpath => ?_
  have htaken := (h.taken p b ⟨hpath, hb⟩).1
  rw [hapart.not_managed hp] at htaken
  cases htaken

/-- Behind the photo's move the video's has room. -/
theorem Shelves.roomFor {photo video : String} (hapart : RejectedApart cfg)
    (h : Shelves cfg photo w w₁) (hroom : RoomFor HasSpare env cfg w video) :
    RoomFor HasRoom env cfg w₁ video := by
  intro row p b hrow hp hb hm ts hts
  have hpath : pathOf w₁ video = some p := by simp [pathOf, hrow, hp]
  have hout : ¬ cfg.rejectedPath <+: p := fun hin => by
    rw [hapart.not_managed hin] at hm
    cases hm
  by_cases hsame : video = photo
  · -- its file would be in the rejected root
    subst hsame
    by_cases hfile : ∃ q b', FileOf w video q b'
    · obtain ⟨q, b', hf⟩ := hfile
      obtain ⟨d, hd, hin⟩ := h.filed q b' hf
      obtain rfl := Option.some.inj (hd.1.symm.trans hpath)
      exact absurd hin hout
    · rw [h.unfiled fun q b' hf => hfile ⟨q, b', hf⟩] at hpath
      cases hpath
  · rw [h.rows video hsame] at hrow
    obtain ⟨d, hd, hfresh⟩ := h.fresh
    cases hbefore : w.fs.get p with
    | none =>
      rw [hfresh p (fun he => hout (he ▸ hd)) hbefore] at hb
      cases hb
    | some b' =>
      obtain ⟨rel, hrel, hspare⟩ := hroom row p b' hrow hp hbefore hm ts hts
      exact ⟨rel, hrel, hspare.room hfresh⟩

theorem row_of_known (h : (w.reg.statusOf sha).isSome = true) :
    ∃ row, w.reg.files.get sha = some row := by
  obtain ⟨st, hst⟩ := Option.isSome_iff_exists.mp h
  obtain ⟨row, hrow, -⟩ := Option.map_eq_some_iff.mp hst
  exact ⟨row, hrow⟩

theorem wp_rejectPair_ends {q : LivePhotoPairRecord} (hapart : RejectedApart cfg)
    (hsound : PairsSound w.reg) (hq : q ∈ w.reg.livePhotoPairs)
    (hphoto : RoomFor HasSpare env cfg w q.photoSha256)
    (hvideo : RoomFor HasSpare env cfg w q.videoSha256) :
    (rejectPair env cfg sha reason actor q).Wp (handle env) w
      (PairEnds cfg q.photoSha256 q.videoSha256 w) := by
  obtain ⟨hkp, hkv⟩ := hsound.members q hq
  obtain ⟨rowp, hrowp⟩ := row_of_known hkp
  unfold rejectPair
  refine wp_bind.mpr (wp_mono (fun r w₁ h₁ => ?_)
    (wp_move_ends (hsound.hashed _ hkp) hrowp hphoto.now))
  cases r with
  | error e =>
    obtain ⟨hstuck, rfl⟩ := h₁
    exact .photo hstuck
  | ok moved =>
    obtain ⟨hfree, hp⟩ := h₁
    have hkv₁ : (w₁.reg.statusOf q.videoSha256).isSome = true := by rw [hp.status, hkv]
    obtain ⟨rowv, hrowv⟩ := row_of_known hkv₁
    refine wp_bind.mpr (wp_mono (fun r w₂ h₂ => ?_)
      (wp_move_ends (hsound.hashed _ hkv) hrowv (hp.roomFor hapart hvideo)))
    cases r with
    | error e =>
      obtain ⟨hstuck, rfl⟩ := h₂
      exact .video hfree hp hstuck
    | ok moved' =>
      obtain ⟨hfree', hv⟩ := h₂
      have hpairs : w₂.reg.livePhotoPairs = w.reg.livePhotoPairs := hv.pairs.trans hp.pairs
      have hids : PairIdsDistinct w₂.reg := by
        unfold PairIdsDistinct pairKeys
        rw [hpairs]
        exact hsound.ids
      refine wp_bind.mpr (wp_mono (fun r w₃ h₃ => ?_) (wp_applyLivePhotoPairStatus_marks hids
        (by rw [hpairs]; exact hq) (by rw [hv.status, hp.status, hkp])
        (by rw [hv.status, hkv₁])))
      obtain ⟨rfl, hmarks⟩ := h₃
      exact wp_ret.mpr (.both hfree hp hfree' hv hmarks)

theorem wp_rejectKnown_ends {row : FileRecord} (hs : IsSha sha)
    (hrow : w.reg.files.get sha = some row) (hroom : RoomFor HasSpare env cfg w sha) :
    (rejectKnown env cfg sha reason actor row).Wp (handle env) w (KnownEnds cfg sha w) := by
  have hstatus : w.reg.statusOf sha = some row.status := by simp [Registry.statusOf, hrow]
  unfold rejectKnown
  split
  · next hst =>
    refine wp_bind.mpr (wp_transact (fun r now w₁ hr hfs hreg => ?_) (fun _ _ _ h => by cases h))
    cases hr
    exact wp_ret.mpr (.noop (by rw [hstatus, hst]) hfs (by rw [hreg]; rfl))
  · next hst =>
    have hne : w.reg.statusOf sha ≠ some .rejected := fun h =>
      hst (by rw [hstatus] at h; simpa using h)
    refine wp_bind.mpr (wp_mono (fun r w₁ h₁ => ?_) (wp_move_ends hs hrow hroom.now))
    cases r with
    | error e =>
      obtain ⟨hstuck, rfl⟩ := h₁
      exact .stuck hne hstuck
    | ok moved =>
      obtain ⟨hfree, hsh⟩ := h₁
      refine wp_bind.mpr (wp_transactOrReject (fun r now w₂ hr hfs hreg => ?_)
        fun e e' now w₂ he _ _ => ?_)
      · exact wp_ret.mpr (.moved hne hfree hsh (marks_transition hr hfs hreg))
      · have hknown : (w₁.reg.statusOf sha).isSome = true := by rw [hsh.status, hstatus]; rfl
        obtain ⟨r, hr⟩ := transition_ok reason actor now hknown
        rw [Tx.apply, hr] at he
        cases he

end Branches

/-! ## Both or nothing -/

def LivePhotoPairRecord.has (pr : LivePhotoPairRecord) (sha : String) : Prop :=
  pr.photoSha256 = sha ∨ pr.videoSha256 = sha

/-- The member is rejected, and the file it had is its file below the rejected
root. -/
def RejectedAway (cfg : CoreConfig) (w w' : World) (m : String) : Prop :=
  w'.reg.statusOf m = some .rejected ∧
    ∀ p b, FileOf w m p b → ∃ d, FileOf w' m d b ∧ cfg.rejectedPath <+: d

/-- The row and the file of the member are as before. -/
def Untouched (w w' : World) (m : String) : Prop :=
  w'.reg.files.get m = w.reg.files.get m ∧ ∀ p, pathOf w m = some p → w'.fs.get p = w.fs.get p

/-- What a reject that returns, and one that raises, owes to a pair. -/
def PairOutcome (cfg : CoreConfig) (pr : LivePhotoPairRecord) (w : World) :
    Except Err RejectResult → World → Prop
  | .ok _, w' => ∀ m, pr.has m → RejectedAway cfg w w' m
  | .error _, w' => ∀ m, pr.has m → Untouched w w' m

/-- `reject_sha256` of the hash, for every pair that has it as a member. -/
def BothOrNothing (env : Env) (cfg : CoreConfig) (w : World) (sha : String)
    (reason : Option String) (actor : String) : Prop :=
  ∀ pr ∈ w.reg.livePhotoPairs, pr.has sha →
    PairOutcome cfg pr w ((rejectSha256 env cfg sha reason actor).run (handle env) w).1
      ((rejectSha256 env cfg sha reason actor).run (handle env) w).2

/-! ## When -/

/-- The member is rejected, and its file is not outside the rejected root. -/
def ShelvedAway (cfg : CoreConfig) (w : World) (m : String) : Prop :=
  w.reg.statusOf m = some .rejected ∧ ∀ p b, FileOf w m p b → cfg.rejectedPath <+: p

/-- In every pair of the hash the members that the call leaves alone are settled. -/
def OthersShelved (cfg : CoreConfig) (w : World) (sha : String) (moves : String → Prop) : Prop :=
  ∀ pr ∈ w.reg.livePhotoPairs, pr.has sha → ∀ m, pr.has m → ¬ moves m → ShelvedAway cfg w m

/-- The pair that is rejected: its photo cannot be taken, or neither of the two is
moved, or both can be taken, from two paths, and no other pair is left half. -/
def PairGoes (cfg : CoreConfig) (w : World) (sha : String) (q : LivePhotoPairRecord) : Prop :=
  Stuck cfg w q.photoSha256 ∨
    (pathOf w q.photoSha256 = none ∧ Stuck cfg w q.videoSha256) ∨
    (¬ Stuck cfg w q.videoSha256 ∧
      (∀ p b, FileOf w q.photoSha256 p b → pathOf w q.videoSha256 ≠ some p) ∧
      OthersShelved cfg w sha q.has)

/-- The hash alone: it is rejected already, or cannot be taken, or can, and no pair
is left half. -/
def SingleGoes (cfg : CoreConfig) (w : World) (sha : String) : Prop :=
  (w.reg.statusOf sha = some .rejected ∧ OthersShelved cfg w sha fun _ => False) ∨
    (w.reg.statusOf sha ≠ some .rejected ∧
      (Stuck cfg w sha ∨ OthersShelved cfg w sha (· = sha)))

/-- By the pair that a reject of the hash finds. -/
def RejectsTogether (cfg : CoreConfig) (w : World) (sha : String) : Prop :=
  ∀ q, w.reg.getLivePhotoPairForMember sha = some q →
    if q.status = .of .rejected then SingleGoes cfg w sha else PairGoes cfg w sha q

section Ends
variable {env : Env} {cfg : CoreConfig} {w w' w₁ w₂ : World} {sha photo video m : String}

/-- A member whose row is left alone is away exactly when it was settled. -/
theorem rejectedAway_iff_shelved (hrow : w'.reg.files.get m = w.reg.files.get m)
    (hkept : ∀ p b, cfg.rejectedPath <+: p → w.fs.get p = some b → w'.fs.get p = some b) :
    RejectedAway cfg w w' m ↔ ShelvedAway cfg w m := by
  have hstatus : w'.reg.statusOf m = w.reg.statusOf m := by
    rw [Registry.statusOf, Registry.statusOf, hrow]
  have hpath : pathOf w' m = pathOf w m := by rw [pathOf, pathOf, hrow]
  constructor
  · rintro ⟨hst, hfiles⟩
    refine ⟨hstatus.symm.trans hst, fun p b hf => ?_⟩
    obtain ⟨d, hd, hin⟩ := hfiles p b hf
    obtain rfl := Option.some.inj (hf.1.symm.trans (hpath.symm.trans hd.1))
    exact hin
  · rintro ⟨hst, hfiles⟩
    refine ⟨hstatus.trans hst, fun p b hf => ⟨p, ⟨hpath.trans hf.1, ?_⟩, hfiles p b hf⟩⟩
    exact hkept p b (hfiles p b hf) hf.2

/-- Behind the photo's move, the video's raises where it would have raised before,
and where the two are one file. -/
theorem stuck_behind_iff (hapart : RejectedApart cfg) (hp : Shelves cfg photo w w₁)
    (hfree : ¬ Stuck cfg w photo) (hclear : Clear env cfg w video) :
    Stuck cfg w₁ video ↔
      Stuck cfg w video ∨ (video = photo ∧ ∃ p b, FileOf w photo p b) := by
  constructor
  · intro ⟨p, b, hf, hout⟩
    by_cases hsame : video = photo
    · subst hsame
      refine .inr ⟨rfl, ?_⟩
      by_contra hno
      have hnull := hp.unfiled fun q b' hq => hno ⟨q, b', hq⟩
      rw [hf.1] at hnull
      cases hnull
    · have hpath : pathOf w video = some p := by rw [← hf.1, pathOf, pathOf, hp.rows video hsame]
      obtain ⟨d, hd, hfresh⟩ := hp.fresh
      cases hb : w.fs.get p with
      | none =>
        have hne : p ≠ d := fun he => hclear.stale p hpath hb (he ▸ hd)
        have hnone := hf.2
        rw [hfresh p hne hb] at hnone
        cases hnone
      | some b' => exact .inl ⟨p, b', ⟨hpath, hb⟩, hout⟩
  · intro h
    rcases h with ⟨p, b, hf, hout⟩ | ⟨rfl, p, b, hf⟩
    · have hother : pathOf w photo ≠ some p := by
        intro hpath
        rw [(hp.taken p b ⟨hpath, hf.2⟩).1] at hout
        cases hout
      have hne : video ≠ photo := by
        rintro rfl
        exact hother hf.1
      exact ⟨p, b, ⟨by rw [pathOf, hp.rows video hne]; exact hf.1, hp.others p b hf.2 hother⟩, hout⟩
    · obtain ⟨d, hd, hin⟩ := hp.filed p b hf
      exact ⟨d, b, hd, hapart.not_managed hin⟩

/-- A member that no move and no status was for. -/
theorem away_of_other (hapart : RejectedApart cfg) (hp : Shelves cfg photo w w₁)
    (hv : Shelves cfg video w₁ w₂) (hmarks : MarksPair photo video w₂ w') (hmp : m ≠ photo)
    (hmv : m ≠ video) : RejectedAway cfg w w' m ↔ ShelvedAway cfg w m := by
  refine rejectedAway_iff_shelved ?_ fun p b hin hb => ?_
  · rw [hmarks.others m hmp hmv, hv.rows m hmv, hp.rows m hmp]
  · rw [hmarks.fs]
    exact hv.stays hapart hin (hp.stays hapart hin hb)

/-- Both members, when their files were at two paths. -/
theorem away_of_both (hapart : RejectedApart cfg) (hp : Shelves cfg photo w w₁)
    (hv : Shelves cfg video w₁ w₂) (hmarks : MarksPair photo video w₂ w')
    (hpaths : ∀ p b, FileOf w photo p b → pathOf w video ≠ some p) :
    RejectedAway cfg w w' photo ∧ RejectedAway cfg w w' video := by
  refine ⟨⟨hmarks.rejected _ (.inl rfl), fun p b hf => ?_⟩,
    ⟨hmarks.rejected _ (.inr rfl), fun p b hf => ?_⟩⟩
  · have hne : photo ≠ video := by
      rintro rfl
      exact hpaths p b hf hf.1
    obtain ⟨d, hd, hin⟩ := hp.filed p b hf
    refine ⟨d, ⟨?_, ?_⟩, hin⟩
    · rw [hmarks.paths, pathOf, hv.rows photo hne]
      exact hd.1
    · rw [hmarks.fs]
      exact hv.stays hapart hin hd.2
  · have hother : pathOf w photo ≠ some p := fun h => hpaths p b ⟨h, hf.2⟩ hf.1
    have hne : video ≠ photo := by
      rintro rfl
      exact hother hf.1
    have hf₁ : FileOf w₁ video p b :=
      ⟨by rw [pathOf, hp.rows video hne]; exact hf.1, hp.others p b hf.2 hother⟩
    obtain ⟨d, hd, hin⟩ := hv.filed p b hf₁
    exact ⟨d, ⟨by rw [hmarks.paths]; exact hd.1, by rw [hmarks.fs]; exact hd.2⟩, hin⟩

/-- A video whose file was the photo's has lost it. -/
theorem not_away_of_shared (hp : Shelves cfg photo w w₁) (hv : Shelves cfg video w₁ w₂)
    (hmarks : MarksPair photo video w₂ w') {p : Path} {b : Bytes} (hf : FileOf w photo p b)
    (hpath : pathOf w video = some p) (hne : video ≠ photo) : ¬ RejectedAway cfg w w' video := by
  intro ⟨_, hfiles⟩
  obtain ⟨d, hd, -⟩ := hfiles p b ⟨hpath, hf.2⟩
  have hnone : ∀ q b', ¬ FileOf w₁ video q b' := by
    intro q b' ⟨hq, hb'⟩
    rw [pathOf, hp.rows video hne] at hq
    obtain rfl := Option.some.inj (hpath.symm.trans hq)
    rw [(hp.taken p b hf).2] at hb'
    cases hb'
  have hnull := hv.unfiled hnone
  rw [← hmarks.paths, hd.1] at hnull
  cases hnull

/-- The pair branch, end by end. -/
theorem pairEnds_iff {q : LivePhotoPairRecord} {r : Except Err RejectResult}
    (hapart : RejectedApart cfg) (hq : q ∈ w.reg.livePhotoPairs) (hsha : q.has sha)
    (hclear : Clear env cfg w q.videoSha256)
    (h : PairEnds cfg q.photoSha256 q.videoSha256 w r w') :
    (∀ pr ∈ w.reg.livePhotoPairs, pr.has sha → PairOutcome cfg pr w r w') ↔
      PairGoes cfg w sha q := by
  cases h with
  | photo hstuck =>
    exact iff_of_true (fun pr _ _ m _ => ⟨rfl, fun _ _ => rfl⟩) (.inl hstuck)
  | video hfree hp hstuck =>
    have hbehind := (stuck_behind_iff hapart hp hfree hclear).mp hstuck
    constructor
    · intro hall
      have huntouched := hall q hq hsha q.photoSha256 (.inl rfl)
      have hnull : pathOf w q.photoSha256 = none := by
        by_contra hne
        exact hp.changed hne huntouched.1
      refine .inr (.inl ⟨hnull, hbehind.resolve_right fun ⟨_, p, b, hf⟩ => ?_⟩)
      rw [hf.1] at hnull
      cases hnull
    · rintro (hstuck' | ⟨hnull, -⟩ | ⟨hfree', hpaths, -⟩)
      · exact absurd hstuck' hfree
      · have hstill := hp.still hnull
        exact fun pr _ _ m _ => ⟨by rw [hstill.reg], fun _ _ => by rw [hstill.fs]⟩
      · obtain ⟨hsame, p, b, hf⟩ := hbehind.resolve_left hfree'
        exact absurd (hsame ▸ hf.1) (hpaths p b hf)
  | both hfree hp hfree' hv hmarks =>
    have hbehind := mt (stuck_behind_iff hapart hp hfree hclear).mpr hfree'
    constructor
    · intro hall
      refine .inr (.inr ⟨fun hs => hbehind (.inl hs), fun p b hf hpath => ?_,
        fun pr hpr hs m hm hno => ?_⟩)
      · have hne : q.videoSha256 ≠ q.photoSha256 := fun hsame => hbehind (.inr ⟨hsame, p, b, hf⟩)
        exact not_away_of_shared hp hv hmarks hf hpath hne (hall q hq hsha _ (.inr rfl))
      · exact (away_of_other hapart hp hv hmarks (fun he => hno (.inl he.symm))
          fun he => hno (.inr he.symm)).mp (hall pr hpr hs m hm)
    · rintro (hstuck | ⟨-, hstuck⟩ | ⟨-, hpaths, hothers⟩)
      · exact absurd hstuck hfree
      · exact absurd (.inl hstuck) hbehind
      · obtain ⟨haway, haway'⟩ := away_of_both hapart hp hv hmarks hpaths
        intro pr hpr hs m hm
        by_cases hin : q.has m
        · rcases hin with rfl | rfl
          · exact haway
          · exact haway'
        · exact (away_of_other hapart hp hv hmarks (fun he => hin (.inl he.symm))
            fun he => hin (.inr he.symm)).mpr (hothers pr hpr hs m hm hin)

/-- The single branch, end by end. -/
theorem knownEnds_iff {r : Except Err RejectResult} (hapart : RejectedApart cfg)
    (h : KnownEnds cfg sha w r w') :
    (∀ pr ∈ w.reg.livePhotoPairs, pr.has sha → PairOutcome cfg pr w r w') ↔
      SingleGoes cfg w sha := by
  cases h with
  | noop hst hfs hfiles =>
    have haway : ∀ m, RejectedAway cfg w w' m ↔ ShelvedAway cfg w m := fun m =>
      rejectedAway_iff_shelved (by rw [hfiles]) fun p b _ hb => by rw [hfs, hb]
    constructor
    · intro hall
      exact .inl ⟨hst, fun pr hpr hs m hm _ => (haway m).mp (hall pr hpr hs m hm)⟩
    · rintro (⟨-, hothers⟩ | ⟨hne, -⟩)
      · exact fun pr hpr hs m hm => (haway m).mpr (hothers pr hpr hs m hm id)
      · exact absurd hst hne
  | stuck hst hstuck =>
    exact iff_of_true (fun pr _ _ m _ => ⟨rfl, fun _ _ => rfl⟩) (.inr ⟨hst, .inl hstuck⟩)
  | moved hst hfree hs hmarks =>
    have haway : ∀ m, m ≠ sha → (RejectedAway cfg w w' m ↔ ShelvedAway cfg w m) := by
      intro m hm
      refine rejectedAway_iff_shelved ?_ fun p b hin hb => ?_
      · rw [hmarks.others m hm hm, hs.rows m hm]
      · rw [hmarks.fs]
        exact hs.stays hapart hin hb
    constructor
    · intro hall
      exact .inr ⟨hst, .inr fun pr hpr hs' m hm hne => (haway m hne).mp (hall pr hpr hs' m hm)⟩
    · rintro (⟨hst', -⟩ | ⟨-, hstuck | hothers⟩)
      · exact absurd hst' hst
      · exact absurd hstuck hfree
      · intro pr hpr hs' m hm
        by_cases he : m = sha
        · subst he
          refine ⟨hmarks.rejected _ (.inl rfl), fun p b hf => ?_⟩
          obtain ⟨d, hd, hin⟩ := hs.filed p b hf
          exact ⟨d, ⟨by rw [hmarks.paths]; exact hd.1, by rw [hmarks.fs]; exact hd.2⟩, hin⟩
        · exact (haway m he).mpr (hothers pr hpr hs' m hm he)

end Ends

/-- A photo and its video are ingested as a pair. -/
def pairRun : List Call :=
  [.action (.outside ((Table.put ∅ ["staging", "x"] [97]).put ["staging", "y"] [98]) []),
    .action (.command (.processBatch ⟨none⟩ pairBatch pairCandidates))]

def pairedWorld : World := afterCalls sampleEnv sampleConfig pairRun (sampleWorld [] Registry.empty)

theorem sampleStamp {ts : Timestamp} (h : Stamp sampleEnv ts) :
    ts = ⟨2024, 1, 1704164645000000⟩ ∨ ts = ⟨2024, 6, 1717200000000000⟩ := by
  rcases h with ⟨s, hs⟩ | ⟨n, hn⟩
  · simp only [sampleEnv] at hs
    split at hs
    · exact .inl (Option.some.inj hs).symm
    · cases hs
  · exact .inr hn

/-- A file in the queues whose name is free in the rejected root. -/
theorem sampleClear {w : World} {m name : String} {p : Path} {b : Bytes} {row : FileRecord}
    (hrow : w.reg.files.get m = some row) (hname : row.originalFilename = some name)
    (hpath : row.currentPath = some p) (hfile : w.fs.get p = some b)
    (hspare : ∀ ts ∈ [⟨2024, 1, 1704164645000000⟩, ⟨2024, 6, 1717200000000000⟩], ∃ rel,
      renderStorageRelativePath sampleConfig.storageTemplate m (textOr (some name) p.name) ts =
        .ok rel ∧ HasSpare w.fs (sampleConfig.rejectedPath ++ rel) 10000) :
    Clear sampleEnv sampleConfig w m := by
  refine ⟨fun row' p' b' hrow' hp' hb' _ ts hts => ?_, fun q hq hgone => ?_⟩
  · obtain rfl := Option.some.inj (hrow.symm.trans hrow')
    obtain rfl := Option.some.inj (hpath.symm.trans hp')
    rw [hname]
    exact hspare ts (by simpa using sampleStamp hts)
  · have hcur : pathOf w m = row.currentPath := by simp [pathOf, hrow]
    obtain rfl := Option.some.inj (hpath.symm.trans (hcur.symm.trans hq))
    rw [hfile] at hgone
    cases hgone

def pairedRow (name : String) : FileRecord :=
  { standingRow with
    originalFilename := some name
    currentPath := some ["lib", "pending", "2024", "01", name] }

def pairedFiles : Table Path Bytes :=
  (Table.put ∅ ["lib", "pending", "2024", "01", "IMG.JPG"] [97]).put
    ["lib", "pending", "2024", "01", "IMG.MOV"] [98]

/-- What the run leaves, evaluated once. -/
theorem pairedWorld_state : (pairedWorld.fs.entries = pairedFiles.entries ∧
      pairedWorld.reg.files.get shaA = some (pairedRow "IMG.JPG") ∧
      pairedWorld.reg.files.get shaB = some (pairedRow "IMG.MOV")) ∧
    (∀ pr ∈ pairedWorld.reg.livePhotoPairs,
      pr.photoSha256 = shaA ∧ pr.videoSha256 = shaB ∧ pr.status ≠ .of .rejected) ∧
    ∃ pr ∈ pairedWorld.reg.livePhotoPairs, pr.photoSha256 = shaA := by
  decide +kernel

theorem pairedWorld_fs : pairedWorld.fs = pairedFiles := AList.ext pairedWorld_state.1.1

theorem pairedWorld_photo : pairedWorld.reg.files.get shaA = some (pairedRow "IMG.JPG") :=
  pairedWorld_state.1.2.1

theorem pairedWorld_video : pairedWorld.reg.files.get shaB = some (pairedRow "IMG.MOV") :=
  pairedWorld_state.1.2.2

theorem pairedWorld_clear : Clear sampleEnv sampleConfig pairedWorld shaA ∧
    Clear sampleEnv sampleConfig pairedWorld shaB := by
  have hx : pairedWorld.fs.get ["lib", "pending", "2024", "01", "IMG.JPG"] = some [97] := by
    rw [pairedWorld_fs]
    decide
  have hy : pairedWorld.fs.get ["lib", "pending", "2024", "01", "IMG.MOV"] = some [98] := by
    rw [pairedWorld_fs]
    decide
  refine ⟨sampleClear pairedWorld_photo rfl rfl hx fun ts hts => ?_,
    sampleClear pairedWorld_video rfl rfl hy fun ts hts => ?_⟩
  · rw [pairedWorld_fs]
    simp only [List.mem_cons, List.not_mem_nil, or_false] at hts
    rcases hts with rfl | rfl
    · exact ⟨["2024", "01", "IMG.JPG"], by rfl, 0, 1, by decide, by decide, by decide +kernel,
        by decide +kernel, by decide +kernel⟩
    · exact ⟨["2024", "06", "IMG.JPG"], by rfl, 0, 1, by decide, by decide, by decide +kernel,
        by decide +kernel, by decide +kernel⟩
  · rw [pairedWorld_fs]
    simp only [List.mem_cons, List.not_mem_nil, or_false] at hts
    rcases hts with rfl | rfl
    · exact ⟨["2024", "01", "IMG.MOV"], by rfl, 0, 1, by decide, by decide, by decide +kernel,
        by decide +kernel, by decide +kernel⟩
    · exact ⟨["2024", "06", "IMG.MOV"], by rfl, 0, 1, by decide, by decide, by decide +kernel,
        by decide +kernel, by decide +kernel⟩

/-- The video is ingested alone and rejected; later it comes again with its photo. -/
def rejectedVideoRun : List Call :=
  [.action (.outside (Table.put ∅ ["staging", "y"] [98]) []),
    .action (.command (.processBatch ⟨none⟩ pairBatch
      [pairCandidate "id2" "IMG.MOV" ["staging", "y"]])),
    .action (.command (.rejectSha256 shaB none "cli")),
    .action (.outside (((Table.put ∅ ["lib", "rejected", "2024", "01", "IMG.MOV"] [98]).put
      ["staging", "x"] [97]).put ["staging", "y"] [98]) []),
    .action (.command (.processBatch ⟨none⟩ pairBatch pairCandidates))]

def rejectedVideoWorld : World :=
  afterCalls sampleEnv sampleConfig rejectedVideoRun (sampleWorld [] Registry.empty)

/-- The photo's row after its reject, which raises. -/
theorem rejectedVideoWorld_state :
    (∃ pr ∈ rejectedVideoWorld.reg.livePhotoPairs,
      pr.photoSha256 = shaA ∧ pr.videoSha256 = shaB) ∧
    ((rejectSha256 sampleEnv sampleConfig shaA none "cli").run (handle sampleEnv)
      rejectedVideoWorld).1.toOption = none ∧
    ((rejectSha256 sampleEnv sampleConfig shaA none "cli").run (handle sampleEnv)
      rejectedVideoWorld).2.reg.files.get shaA ≠ rejectedVideoWorld.reg.files.get shaA := by
  decide +kernel

end Nightfall
