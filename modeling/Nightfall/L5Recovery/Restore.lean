import Nightfall.L4System.System
import Nightfall.L5Recovery.CrashPoints

/-!
# Crash, then replay

`replay_interrupted_operations` decides from the journal alone, so it errs in
the windows between a durable change and its record.

* `Restored`: what the replay should end in.
* `Recoverable`: the crash point is in none of the windows.
* `replay_restores_iff`: the crash points from which the replay restores.
-/
namespace Nightfall
open Nightfall.Core Storage Prog

/-- The path carries the `.orphaned` suffix. -/
def orphaned (p : Path) : Bool := ".orphaned".toList.isSuffixOf p.name.toList

/-- Every pending row's file exists, and every file below the pending root is
the path of a row or orphaned. -/
structure Restored (root : Path) (w : World) : Prop where
  rows : ∀ sha row, w.reg.files.get sha = some row → row.status = .pending →
    ∃ p, row.currentPath = some p ∧ w.fs.get p ≠ none
  files : ∀ p, root <+: p → w.fs.get p ≠ none → orphaned p = true ∨ Named w.reg p

/-- The state a call starts from: restored, with pending paths below the
pending root and no row naming a missing file there. -/
structure Sound (root : Path) (w : World) : Prop where
  rows : ∀ sha row, w.reg.files.get sha = some row → row.status = .pending →
    ∃ p, row.currentPath = some p ∧ root <+: p
  named : ∀ p, Named w.reg p → root <+: p → w.fs.get p ≠ none
  files : ∀ p, root <+: p → w.fs.get p ≠ none → orphaned p = true ∨ Named w.reg p

/-- A file was put below the pending root without the suffix, no row has its
path, and its place is not journaled. -/
def Unrecorded (w : World) (m : Marks) : Prop :=
  ∃ q, m.put = some q ∧ m.recorded = false ∧ orphaned q = false ∧ ¬ Named w.reg q

/-- A block rule forced a row that had a file below the pending root, and no
other row has that path. -/
def Forced (root : Path) (w : World) (m : Marks) : Prop :=
  ∃ sha ∈ m.forced, ∃ row p, w.reg.files.get sha = some row ∧ row.currentPath = some p ∧
    root <+: p ∧ orphaned p = false ∧
    ∀ k row', k ≠ sha → w.reg.files.get k = some row' → row'.currentPath ≠ some p

/-- The file of a pending row was moved away. -/
def Clobbered (w : World) (m : Marks) : Prop :=
  ∃ p ∈ m.left, ∃ sha row, w.reg.files.get sha = some row ∧ row.status = .pending ∧
    row.currentPath = some p

/-- The crash point is in none of the windows. -/
structure Recoverable (root : Path) (w : World) (m : Marks) : Prop where
  unrecorded : ¬ Unrecorded w m
  finalized : m.finalized = false
  forced : ¬ Forced root w m
  clobbered : ¬ Clobbered w m

/-! ## Which crash points are restored -/

section Restore
variable {env : Env} {eng : Engine} {root : Path} {own : String} {w t t' : World}

theorem Sound.restored (hs : Sound root w) (h : SamePending root w t) : Restored root t := by
  have hnamed : ∀ p, Named t.reg p ↔ Named w.reg p := fun p => by unfold Named; rw [h.files]
  refine ⟨fun sha row hrow hst => ?_, fun p hp hfile => ?_⟩
  · rw [h.files] at hrow
    obtain ⟨p, hp, hroot⟩ := hs.rows sha row hrow hst
    exact ⟨p, hp, by rw [h.disk p hroot]; exact hs.named p ⟨sha, row, hrow, hp⟩ hroot⟩
  · rw [hnamed]
    exact hs.files p hp (by rwa [h.disk p hp] at hfile)

theorem not_unrecorded {m : Marks} (h : m.put = none ∨ m.recorded = true) : ¬ Unrecorded w m := by
  rintro ⟨q, hq, hr, -⟩
  rcases h with h | h
  · rw [h] at hq
    cases hq
  · rw [h] at hr
    cases hr

theorem not_forced {m : Marks} (h : m.forced = []) : ¬ Forced root w m := by
  rintro ⟨sha, hm, -⟩
  rw [h] at hm
  cases hm

theorem not_clobbered {m : Marks} (h : m.left = []) : ¬ Clobbered w m := by
  rintro ⟨p, hm, -⟩
  rw [h] at hm
  cases hm

theorem recoverable_none : Recoverable root w .none :=
  ⟨not_unrecorded (.inl rfl), rfl, not_forced rfl, not_clobbered rfl⟩

/-- A placed file that the journal does not know of. -/
theorem placed_restored_iff {q : Path} {v : Option Path} (hs : Sound root w)
    (hp : PutAt root w t q v) (hf : t.reg.files = w.reg.files) (ht : SamePending root t t') :
    Restored root t' ↔ Recoverable root w ⟨some q, v.toList, false, false, []⟩ := by
  have hnamed : ∀ p, Named t'.reg p ↔ Named w.reg p := fun p => by unfold Named; rw [ht.files, hf]
  constructor
  · intro h
    refine ⟨?_, rfl, not_forced rfl, ?_⟩
    · rintro ⟨q', hq', -, horph, hno⟩
      cases hq'
      rcases h.files q hp.below (by rw [ht.disk q hp.below]; exact hp.here) with ho | hn
      · rw [horph] at ho
        cases ho
      · exact hno ((hnamed q).mp hn)
    · rintro ⟨p, hpv, sha, row, hrow, hst, hpath⟩
      have hv : v = some p := by simpa [eq_comm] using hpv
      obtain ⟨p', hp', hfile⟩ := h.rows sha row (by rw [ht.files, hf, hrow]) hst
      rw [hpath] at hp'
      cases hp'
      obtain ⟨p'', hp'', hroot⟩ := hs.rows sha row hrow hst
      rw [hpath] at hp''
      cases hp''
      exact hfile (by rw [ht.disk p hroot, (hp.vacated p hv).2])
  · intro h
    refine ⟨fun sha row hrow hst => ?_, fun p hroot hfile => ?_⟩
    · rw [ht.files, hf] at hrow
      obtain ⟨p, hpath, hroot⟩ := hs.rows sha row hrow hst
      refine ⟨p, hpath, ?_⟩
      rw [ht.disk p hroot]
      by_cases hpq : p = q
      · rw [hpq]
        exact hp.here
      · have hv : v ≠ some p := fun hv => h.clobbered ⟨p, by simp [hv], sha, row, hrow, hst, hpath⟩
        rw [hp.rest p hroot hpq hv]
        exact hs.named p ⟨sha, row, hrow, hpath⟩ hroot
    · rw [ht.disk p hroot] at hfile
      rw [hnamed]
      by_cases hpq : p = q
      · subst hpq
        by_contra hno
        rw [not_or] at hno
        exact h.unrecorded ⟨p, rfl, rfl, by simpa using hno.1, hno.2⟩
      · have hv : v ≠ some p := fun hv => hfile (hp.vacated p hv).2
        rw [hp.rest p hroot hpq hv] at hfile
        exact hs.files p hroot hfile

/-- A placed file that the journal knows of and no row does. -/
theorem recorded_restored_iff {d : Path} {v : Option Path} (hs : Sound root w)
    (hp : PutAt root w t d v) (hfree : w.fs.get d = none)
    (hv : v ≠ some (d.addExt ".orphaned")) (hf : t.reg.files = w.reg.files)
    (hq : Quarantined root d t t') :
    Restored root t' ↔ Recoverable root w ⟨some d, v.toList, true, false, []⟩ := by
  have hnamed : ∀ p, Named t'.reg p ↔ Named w.reg p := fun p => by unfold Named; rw [hq.files, hf]
  constructor
  · intro h
    refine ⟨not_unrecorded (.inr rfl), rfl, not_forced rfl, ?_⟩
    rintro ⟨p, hpv, sha, row, hrow, hst, hpath⟩
    have hvp : v = some p := by simpa [eq_comm] using hpv
    obtain ⟨p', hp', hfile⟩ := h.rows sha row (by rw [hq.files, hf, hrow]) hst
    rw [hpath] at hp'
    cases hp'
    obtain ⟨p'', hp'', hroot⟩ := hs.rows sha row hrow hst
    rw [hpath] at hp''
    cases hp''
    have hpo : p ≠ d.addExt ".orphaned" := fun hc => hv (by rw [hvp, hc])
    exact hfile (by rw [hq.disk p hroot (hp.vacated p hvp).1 hpo, (hp.vacated p hvp).2])
  · intro h
    refine ⟨fun sha row hrow hst => ?_, fun p hroot hfile => ?_⟩
    · rw [hq.files, hf] at hrow
      obtain ⟨p, hpath, hroot⟩ := hs.rows sha row hrow hst
      refine ⟨p, hpath, ?_⟩
      have hex := hs.named p ⟨sha, row, hrow, hpath⟩ hroot
      have hpd : p ≠ d := by rintro rfl; exact hex hfree
      by_cases hpo : p = d.addExt ".orphaned"
      · rw [hpo]
        exact hq.kept
      · have hv' : v ≠ some p := fun hv' => h.clobbered ⟨p, by simp [hv'], sha, row, hrow, hst, hpath⟩
        rw [hq.disk p hroot hpd hpo, hp.rest p hroot hpd hv']
        exact hex
    · rw [hnamed]
      have hpd : p ≠ d := by rintro rfl; exact hfile hq.gone
      by_cases hpo : p = d.addExt ".orphaned"
      · left
        rw [hpo, orphaned, name_addExt, String.toList_append]
        exact List.isSuffixOf_iff_suffix.mpr (List.suffix_append _ _)
      · rw [hq.disk p hroot hpd hpo] at hfile
        have hv' : v ≠ some p := fun hv' => hfile (hp.vacated p hv').2
        rw [hp.rest p hroot hpd hv'] at hfile
        exact hs.files p hroot hfile

/-- A forced row, with its file left behind or not. -/
theorem forced_restored_iff {sha : String} {row : FileRecord} (hs : Sound root w)
    (hd : ∀ p, root <+: p → t.fs.get p = w.fs.get p) (hf : t.reg.files = w.reg.files.put sha row)
    (hst : row.status = .rejected) (hpath : row.currentPath = none) (ht : SamePending root t t') :
    Restored root t' ↔ Recoverable root w ⟨none, [], false, false, [sha]⟩ := by
  have hget : ∀ k, k ≠ sha → t'.reg.files.get k = w.reg.files.get k := fun k hk => by
    rw [ht.files, hf, Table.get_put, if_neg hk]
  have hown : t'.reg.files.get sha = some row := by
    rw [ht.files, hf]; exact Table.get_put_self _ _ _
  have hdisk : ∀ p, root <+: p → t'.fs.get p = w.fs.get p := fun p hp => by
    rw [ht.disk p hp, hd p hp]
  constructor
  · intro h
    refine ⟨not_unrecorded (.inl rfl), rfl, ?_, not_clobbered rfl⟩
    rintro ⟨sha', hmem, old, p, hold, hp, hroot, horph, halone⟩
    obtain rfl : sha' = sha := by simpa using hmem
    have hfile := hs.named p ⟨sha', old, hold, hp⟩ hroot
    rcases h.files p hroot (by rw [hdisk p hroot]; exact hfile) with ho | ⟨k, row', hk, hkp⟩
    · rw [horph] at ho
      cases ho
    · by_cases hks : k = sha'
      · subst hks
        rw [hown] at hk
        cases hk
        rw [hpath] at hkp
        cases hkp
      · rw [hget k hks] at hk
        exact halone k row' hks hk hkp
  · intro h
    refine ⟨fun k row' hk hst' => ?_, fun p hroot hfile => ?_⟩
    · have hks : k ≠ sha := by
        rintro rfl
        rw [hown] at hk
        cases hk
        rw [hst] at hst'
        cases hst'
      rw [hget k hks] at hk
      obtain ⟨p, hp, hroot⟩ := hs.rows k row' hk hst'
      exact ⟨p, hp, by rw [hdisk p hroot]; exact hs.named p ⟨k, row', hk, hp⟩ hroot⟩
    · rw [hdisk p hroot] at hfile
      by_contra hno
      rw [not_or] at hno
      rcases hs.files p hroot hfile with ho | ⟨k, row', hk, hkp⟩
      · exact hno.1 ho
      · by_cases hks : k = sha
        · subst hks
          refine h.forced ⟨k, by simp, row', p, hk, hkp, hroot, by simpa using hno.1, ?_⟩
          intro k' row'' hk' hrow'' hp''
          exact hno.2 ⟨k', row'', by rw [hget k' hk', hrow''], hp''⟩
        · exact hno.2 ⟨k, row', by rw [hget k hks, hk], hkp⟩

/-- The replay always returns; it restores exactly outside the windows. -/
theorem wp_replay_point {h : List (Event Ops World)} (hs : Sound root w)
    (hp : IngestPoint root eng own w h t) :
    (replayInterruptedOperations eng).Wp (handle env) t fun r t' => (∃ n, r = .ok n) ∧
      (Restored root t' ↔ Recoverable root w (marks root h)) := by
  cases hp with
  | idle hm hi =>
    refine wp_mono (fun r t' ht => ⟨ht.1, ?_⟩) (wp_replay_harmless hi.quiet)
    rw [hm]
    exact ⟨fun _ => recoverable_none, fun _ => hs.restored (hi.same.trans ht.2)⟩
  | placed hm hp hf hj =>
    refine wp_mono (fun r t' ht => ⟨ht.1, ?_⟩) (wp_replay_harmless hj)
    rw [hm]
    exact placed_restored_iff hs hp hf ht.2
  | recorded hm hp hfree hv horph hf hj heng =>
    obtain ⟨m, hmax⟩ := Option.isSome_iff_exists.mp heng
    obtain rfl : eng = ⟨some m⟩ := by cases eng; cases hmax; rfl
    refine wp_mono (fun r t' ht => ⟨ht.1, ?_⟩)
      (wp_replay_recorded hp.below horph hp.here hj.others hj.recorded hj.some)
    rw [hm]
    exact recorded_restored_iff hs hp hfree hv hf ht.2
  | @finalized d sha row hm hd horph here hf hst hpath hj heng =>
    obtain ⟨m, hmax⟩ := Option.isSome_iff_exists.mp heng
    obtain rfl : eng = ⟨some m⟩ := by cases eng; cases hmax; rfl
    refine wp_mono (fun r t' ht => ⟨ht.1, fun h => ?_, fun h => ?_⟩)
      (wp_replay_recorded hd horph here hj.others hj.recorded hj.some)
    · -- the row is committed and the replay has moved its file away
      have hrow : t'.reg.files.get sha = some row := by
        rw [ht.2.files, hf]; exact Table.get_put_self _ _ _
      obtain ⟨p, hp, hfile⟩ := h.rows sha row hrow hst
      rw [hpath] at hp
      cases hp
      exact absurd ht.2.gone hfile
    · have := h.finalized
      rw [hm] at this
      cases this
  | forced hm hd hf hst hpath hj =>
    refine wp_mono (fun r t' ht => ⟨ht.1, ?_⟩) (wp_replay_harmless hj)
    rw [hm]
    exact forced_restored_iff hs hd hf hst hpath ht.2

end Restore

/-- From a sound state, with a fresh operation id and no unfinished destination
in the journal: the replay returns, and it restores exactly when the crash point
is in none of the windows. -/
theorem replay_restores_iff (env : Env) (eng : Engine) (ps : IngestParams) (c : StagedCandidate)
    (w : World) (k : Nat) (hsha : ∀ b, IsSha (env.sha256 b))
    (ht : namesFile ps.storageTemplate = true) (hst : ¬ ps.pendingRoot <+: c.stagingPath)
    (hq : ∀ q, ps.quarantineDir = some q → Unnested ps.pendingRoot q)
    (hs : Sound ps.pendingRoot w) (hj : HarmlessBut none ps.pendingRoot w.journal.readAll)
    (hfresh : ∀ r ∈ w.journal.readAll, r.opId ≠ pyStrip (opIdOf c (env.uuid w.draws)))
    (hk : k < ((processOne env eng ps c).trace (handle env) w).length) :
    (∃ r, ((replayInterruptedOperations eng).run (handle env)
      ((processOne env eng ps c).crash (handle env) k w)).1 = .ok r) ∧
    (Restored ps.pendingRoot ((replayInterruptedOperations eng).run (handle env)
        ((processOne env eng ps c).crash (handle env) k w)).2 ↔
      Recoverable ps.pendingRoot w
        (marks ps.pendingRoot ((processOne env eng ps c).executed (handle env) k w))) := by
  have hi : Ingesting ps.pendingRoot (pyStrip (opIdOf c (env.uuid w.draws))) w w :=
    ⟨.refl w, hj, fun r hr hid => absurd hid (hfresh r hr)⟩
  have hpoint := track_crash (track_processOne eng (opId_ne_empty c _) rfl ht hsha hst hq
    hi) k hk
  exact wp_iff.mp (wp_replay_point hs hpoint)

/-- One photo, staged. -/
def stagedWorld : World := sampleWorld [(["staging", "x"], [97])] Registry.empty

/-- Its ingestion, with the default journal. -/
def stagedIngest : Flow IngestOutcome :=
  processOne sampleEnv ⟨some 5242880⟩ sampleParams (sampleCandidate "id1" ["staging", "x"])

theorem staged_sound : Sound sampleParams.pendingRoot stagedWorld := by
  have hfiles : ∀ sha, stagedWorld.reg.files.get sha = none := fun _ => rfl
  refine ⟨fun sha row h => ?_, fun p ⟨sha, row, h, _⟩ => ?_, fun p hp h => ?_⟩
  · rw [hfiles] at h; cases h
  · rw [hfiles] at h; cases h
  · obtain rfl : p = ["staging", "x"] := by
      by_contra hne
      refine h ?_
      simp [stagedWorld, sampleWorld, Table.get_put, hne]
    exact absurd hp (by decide)

/-- A crash behind the record of the destination. -/
theorem replay_restores_recorded :
    Restored sampleParams.pendingRoot ((replayInterruptedOperations ⟨some 5242880⟩).run
      (handle sampleEnv) (stagedIngest.crash (handle sampleEnv) 14 stagedWorld)).2 := by
  have hmarks : marks sampleParams.pendingRoot (stagedIngest.executed (handle sampleEnv) 14
      stagedWorld) = ⟨some ["lib", "pending", "2024", "01", "IMG.JPG"], [], true, false, []⟩ := by
    decide +kernel
  refine (replay_restores_iff sampleEnv ⟨some 5242880⟩ sampleParams
    (sampleCandidate "id1" ["staging", "x"]) stagedWorld 14 sampleEnv_isSha (by decide +kernel)
    (by decide) nofun staged_sound (fun _ _ => .inr nofun) nofun (by decide +kernel)).2.mpr ?_
  exact hmarks ▸ ⟨not_unrecorded (.inr rfl), rfl, not_forced rfl, not_clobbered rfl⟩

/-- A crash behind the row's commit: the replay takes its file away. -/
theorem replay_orphans_committed :
    Sound sampleParams.pendingRoot stagedWorld ∧
    16 < (stagedIngest.trace (handle sampleEnv) stagedWorld).length ∧
    ¬ Restored sampleParams.pendingRoot ((replayInterruptedOperations ⟨some 5242880⟩).run
      (handle sampleEnv) (stagedIngest.crash (handle sampleEnv) 16 stagedWorld)).2 := by
  obtain ⟨hlength, hrow, hgone⟩ :
      16 < (stagedIngest.trace (handle sampleEnv) stagedWorld).length ∧
      ((((replayInterruptedOperations ⟨some 5242880⟩).run (handle sampleEnv)
        (stagedIngest.crash (handle sampleEnv) 16 stagedWorld)).2.reg.files.get shaA).map
          fun row => (row.status, row.currentPath)) =
        some (.pending, some ["lib", "pending", "2024", "01", "IMG.JPG"]) ∧
      ((replayInterruptedOperations ⟨some 5242880⟩).run (handle sampleEnv)
        (stagedIngest.crash (handle sampleEnv) 16 stagedWorld)).2.fs.get
          ["lib", "pending", "2024", "01", "IMG.JPG"] = none := by decide +kernel
  refine ⟨staged_sound, hlength, fun h => ?_⟩
  obtain ⟨row, hget, hst⟩ := Option.map_eq_some_iff.mp hrow
  obtain ⟨hpend, hpath⟩ := Prod.mk.inj hst
  obtain ⟨p, hp, hfile⟩ := h.rows shaA row hget hpend
  rw [hpath] at hp
  cases hp
  exact hfile hgone

end Nightfall
