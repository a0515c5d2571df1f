import Nightfall.L3Flows.IngestSpecs
import Nightfall.L3Flows.OperatorSpecs

/-!
# Replaying the journal (`domain/ingest.py`, `domain/journal.py`)

What `replay_interrupted_operations` does to the files below the pending root,
read off the journal it finds.

* `HarmlessOp`, `RecordedOp`: an operation whose replay touches no file there,
  and one whose last record names a destination.
* `wp_replay_harmless`, `wp_replay_recorded`: the replay of a journal with
  harmless operations only, and of one with a recorded operation.
-/
namespace Nightfall
open Nightfall.Core Storage Prog

/-! ## The journal -/

/-- The operation id holds a colon, so reading never skips it. -/
theorem opId_ne_empty (c : StagedCandidate) (uuid : String) : pyStrip (opIdOf c uuid) ≠ "" := by
  intro h
  have hmem : ':' ∈ (opIdOf c uuid).toList := by simp [opIdOf]
  refine stripBy_ne_nil hmem (by decide : isPySpace ':' = false) ?_
  have := congrArg String.toList h
  simpa [pyStrip] using this

/-- The operation is finished, or its last record names no destination and a
staging path that is not below the pending root. -/
def HarmlessOp (root : Path) (recs : List JournalRecord) : Prop :=
  (∃ r ∈ recs, r.phase = .registryPersisted) ∨
    ∀ latest, recs.getLast? = some latest →
      latest.destinationPath = none ∧ ¬ root <+: latest.stagingPath

/-- Every operation in the journal except `own`. -/
def HarmlessBut (own : Option String) (root : Path) (recs : List JournalRecord) : Prop :=
  ∀ id, own ≠ some id → HarmlessOp root (recs.filter (·.opId == id))

/-- What the replay of harmless operations keeps. -/
structure SamePending (root : Path) (w w' : World) : Prop where
  files : w'.reg.files = w.reg.files
  disk : ∀ p, root <+: p → w'.fs.get p = w.fs.get p

section Replay
variable {env : Env} {root : Path} {w w' w'' : World}

theorem SamePending.refl (w : World) : SamePending root w w := ⟨rfl, fun _ _ => rfl⟩

theorem SamePending.trans (h : SamePending root w w') (h' : SamePending root w' w'') :
    SamePending root w w'' :=
  ⟨h'.files.trans h.files, fun p hp => (h'.disk p hp).trans (h.disk p hp)⟩

theorem SamePending.still (h : Still w w') : SamePending root w w' :=
  ⟨by rw [h.reg], fun p _ => by rw [h.fs]⟩

/-! ## Which operations it recovers -/

/-- The replay recovers an operation that has records and no
`registry_persisted` one. -/
def interrupted (op : String × List JournalRecord) : Bool :=
  !op.2.isEmpty && !op.2.any (·.phase == .registryPersisted)

theorem ok_quarantineDestination (d : Option Path) :
    (quarantineDestination d).Wp (handle env) w fun r _ => ∃ n, r = .ok n := by
  cases d with
  | none => exact wp_ret.mpr ⟨0, rfl⟩
  | some d =>
    refine wp_bind.mpr (wp_pathExists.mpr ?_)
    simp only [thenWp_ok]
    cases hb : w.fs.get d with
    | none => exact wp_ret.mpr ⟨0, rfl⟩
    | some b =>
      simp only [Option.isSome_some, if_true]
      exact wp_bind.mpr (wp_replaceFile hb fun _ _ _ => wp_ret.mpr ⟨1, rfl⟩)

theorem ok_removeStaging (staging : Path) :
    (removeStaging staging).Wp (handle env) w fun r _ => ∃ n, r = .ok n := by
  refine wp_bind.mpr (wp_pathExists.mpr ?_)
  simp only [thenWp_ok]
  split
  · exact wp_bind.mpr (wp_unlink fun _ _ _ => wp_ret.mpr ⟨1, rfl⟩)
  · exact wp_ret.mpr ⟨0, rfl⟩

theorem ok_auditRecovery (opId : String) (sha : Option String) :
    (auditRecovery opId sha).Wp (handle env) w fun r _ => r = .ok () := by
  cases sha with
  | none => exact wp_ret.mpr rfl
  | some sha =>
    refine wp_bind.mpr (wp_getFile.mpr ?_)
    simp only [thenWp_ok]
    cases w.reg.files.get sha with
    | none => exact wp_ret.mpr rfl
    | some row => exact wp_transact (fun _ _ _ _ _ _ => rfl) (fun _ _ _ h => by cases h)

/-- The loop always returns, and it counts and lists the interrupted
operations. -/
theorem wp_replayOps_ids : ∀ (ops : List (String × List JournalRecord)) (acc : ReplayResult)
    (w : World), (replayOps ops acc).Wp (handle env) w fun r _ => ∃ res, r = .ok res ∧
      res.interruptedTotal = acc.interruptedTotal + (ops.filter interrupted).length ∧
      res.unresolvedOpIds = acc.unresolvedOpIds ++ (ops.filter interrupted).map (·.1)
  | [], acc, w => wp_ret.mpr ⟨acc, rfl, by simp, by simp⟩
  | (opId, recs) :: rest, acc, w => by
    unfold replayOps
    cases hlast : recs.getLast? with
    | none =>
      have hnil : recs = [] := List.getLast?_eq_none_iff.mp hlast
      have hskip : interrupted (opId, recs) = false := by simp [interrupted, hnil]
      simp only [List.filter_cons, hskip]
      exact wp_replayOps_ids rest acc w
    | some latest =>
      have hne : recs ≠ [] := by
        intro hnil
        simp [hnil] at hlast
      simp only
      split
      · next hany =>
        have hskip : interrupted (opId, recs) = false := by simp [interrupted, hany]
        simp only [List.filter_cons, hskip]
        exact wp_replayOps_ids rest acc w
      · next hany =>
        have hrun : interrupted (opId, recs) = true := by
          simp only [Bool.not_eq_true] at hany
          simp [interrupted, hany, hne]
        simp only [List.filter_cons, hrun, if_true, List.length_cons, List.map_cons]
        refine wp_bind.mpr (wp_mono ?_ (ok_quarantineDestination latest.destinationPath))
        rintro _ w₁ ⟨q, rfl⟩
        refine wp_bind.mpr (wp_mono ?_ (ok_removeStaging latest.stagingPath))
        rintro _ w₂ ⟨n, rfl⟩
        refine wp_bind.mpr (wp_mono ?_ (ok_auditRecovery opId latest.sha256))
        rintro _ w₃ rfl
        refine wp_mono (fun r _ h => ?_) (wp_replayOps_ids rest _ w₃)
        obtain ⟨res, hr, htotal, hids⟩ := h
        refine ⟨res, hr, ?_, ?_⟩
        · simp only [htotal]; omega
        · simp [hids]

/-- Some record has this operation id, and none of them is `registry_persisted`. -/
def Interrupted (recs : List JournalRecord) (id : String) : Prop :=
  (∃ r ∈ recs, r.opId = id) ∧ ∀ r ∈ recs, r.opId = id → r.phase ≠ .registryPersisted

theorem mem_interrupted {recs : List JournalRecord} {id : String} :
    id ∈ ((Journal.byOp recs).filter interrupted).map (·.1) ↔ Interrupted recs id := by
  have hany : ∀ rs : List JournalRecord, interrupted (id, rs) = true ↔
      rs ≠ [] ∧ ∀ r ∈ rs, r.phase ≠ .registryPersisted := by
    intro rs
    simp [interrupted]
  simp only [List.mem_map, List.mem_filter]
  constructor
  · rintro ⟨⟨id', rs⟩, ⟨hmem, hint⟩, rfl⟩
    obtain ⟨rfl, hne⟩ := (Journal.mem_byOp recs).mp hmem
    obtain ⟨r, hr⟩ := List.exists_mem_of_ne_nil _ hne
    obtain ⟨hmem', hid⟩ := List.mem_filter.mp hr
    refine ⟨⟨r, hmem', by simpa using hid⟩, fun r' hr' hid' => ?_⟩
    exact ((hany _).mp hint).2 r' (List.mem_filter.mpr ⟨hr', by simpa using hid'⟩)
  · rintro ⟨⟨r, hr, hid⟩, hno⟩
    have hne : recs.filter (·.opId == id) ≠ [] :=
      List.ne_nil_of_mem (List.mem_filter.mpr ⟨hr, by simpa using hid⟩)
    refine ⟨(id, recs.filter (·.opId == id)), ⟨(Journal.mem_byOp recs).mpr ⟨rfl, hne⟩, ?_⟩, rfl⟩
    refine (hany _).mpr ⟨hne, fun r' hr' => ?_⟩
    obtain ⟨hmem', hid'⟩ := List.mem_filter.mp hr'
    exact hno r' hmem' (by simpa using hid')

/-- The replay returns and recovers exactly the interrupted operations it can
read. -/
theorem wp_replay_ids (maxBytes : Nat) :
    (replayInterruptedOperations ⟨some maxBytes⟩).Wp (handle env) w fun r _ => ∃ res, r = .ok res ∧
      ∀ id, id ∈ res.unresolvedOpIds ↔ Interrupted w.journal.readAll id := by
  unfold replayInterruptedOperations
  refine wp_bind.mpr (wp_op.mpr (wp_ret.mpr ?_))
  refine wp_bind.mpr (wp_mono ?_ (wp_replayOps_ids (Journal.byOp w.journal.readAll) ⟨0, 0, 0, []⟩ w))
  rintro _ w₁ ⟨res, rfl, -, hids⟩
  refine wp_bind.mpr (wp_op.mpr (wp_ret.mpr (wp_ret.mpr ⟨res, rfl, fun id => ?_⟩)))
  rw [hids, List.nil_append]
  exact mem_interrupted

/-! ## What it does below the pending root -/

/-- Removing the staged file and the audit record. -/
theorem wp_replay_rest (staging : Path) (opId : String) (sha : Option String)
    (hst : ¬ root <+: staging) :
    (removeStaging staging).Wp (handle env) w (fun r w' => (∃ n, r = .ok n) ∧
      SamePending root w w') ∧
    (auditRecovery opId sha).Wp (handle env) w (fun r w' => r = .ok () ∧ SamePending root w w') := by
  constructor
  · unfold removeStaging
    refine wp_bind.mpr (wp_pathExists.mpr ?_)
    simp only [thenWp_ok]
    split
    · refine wp_bind.mpr (wp_unlink fun w₁ hfs hreg => wp_ret.mpr ⟨⟨1, rfl⟩, by rw [hreg], ?_⟩)
      intro p hp
      have hne : p ≠ staging := by rintro rfl; exact hst hp
      rw [hfs, Table.get_drop, if_neg hne]
    · exact wp_ret.mpr ⟨⟨0, rfl⟩, .refl w⟩
  · unfold auditRecovery
    cases sha with
    | none => exact wp_ret.mpr ⟨rfl, .refl w⟩
    | some sha =>
      refine wp_bind.mpr (wp_getFile.mpr ?_)
      simp only [thenWp_ok]
      cases w.reg.files.get sha with
      | none => exact wp_ret.mpr ⟨rfl, .refl w⟩
      | some row =>
        refine wp_transact (fun r now w₁ hr hfs hreg => ?_) (fun _ _ _ h => by cases h)
        cases hr
        exact ⟨rfl, by rw [hreg]; rfl, fun p _ => by rw [hfs]⟩

/-- One operation of the loop whose effect below the pending root is `E`, then
the others. -/
theorem wp_replayOps_cons {opId : String} {recs : List JournalRecord}
    {rest : List (String × List JournalRecord)} {E : World → World → Prop}
    {Q : Except Err ReplayResult → World → Prop}
    (hskip : (∃ r ∈ recs, r.phase = .registryPersisted) ∨ recs = [] → E w w)
    (hrun : ∀ latest, recs.getLast? = some latest →
      (∀ r ∈ recs, r.phase ≠ .registryPersisted) → ¬ root <+: latest.stagingPath ∧
      (quarantineDestination latest.destinationPath).Wp (handle env) w
        fun r w' => (∃ n, r = .ok n) ∧ E w w')
    (hE : ∀ w', E w w' → ∀ w'', SamePending root w' w'' → E w w'')
    (hrest : ∀ acc w', E w w' → (replayOps rest acc).Wp (handle env) w' Q)
    (acc : ReplayResult) : (replayOps ((opId, recs) :: rest) acc).Wp (handle env) w Q := by
  unfold replayOps
  cases hlast : recs.getLast? with
  | none => exact hrest acc w (hskip (.inr (List.getLast?_eq_none_iff.mp hlast)))
  | some latest =>
    simp only
    split
    · next hany =>
      obtain ⟨r, hr, hp⟩ := List.any_eq_true.mp hany
      exact hrest acc w (hskip (.inl ⟨r, hr, by simpa using hp⟩))
    · next hany =>
      obtain ⟨hst, hq⟩ := hrun latest hlast fun r hr hp => hany
        (List.any_eq_true.mpr ⟨r, hr, by simpa using hp⟩)
      refine wp_bind.mpr (wp_mono ?_ hq)
      rintro _ w₁ ⟨⟨q, rfl⟩, h₁⟩
      refine wp_bind.mpr (wp_mono ?_ (wp_replay_rest latest.stagingPath opId latest.sha256 hst).1)
      rintro _ w₂ ⟨⟨n, rfl⟩, h₂⟩
      refine wp_bind.mpr (wp_mono ?_ (wp_replay_rest latest.stagingPath opId latest.sha256 hst).2)
      rintro _ w₃ ⟨rfl, h₃⟩
      exact hrest _ w₃ (hE w₁ h₁ w₃ (h₂.trans h₃))

theorem wp_replayOps_harmless (root : Path) : ∀ (ops : List (String × List JournalRecord))
    (acc : ReplayResult)
    (w : World), (∀ op ∈ ops, HarmlessOp root op.2) →
    (replayOps ops acc).Wp (handle env) w fun r w' => (∃ n, r = .ok n) ∧ SamePending root w w'
  | [], acc, w, _ => wp_ret.mpr ⟨⟨acc, rfl⟩, .refl w⟩
  | (opId, recs) :: rest, acc, w, hops => by
    have hop : HarmlessOp root recs := hops _ List.mem_cons_self
    refine wp_replayOps_cons (E := SamePending root) (fun _ => .refl w) (fun latest hl hno => ?_)
      (fun _ h _ h' => h.trans h') (fun acc w₁ h₁ => ?_) acc
    · rcases hop with ⟨r, hr, hp⟩ | hop
      · exact absurd hp (hno r hr)
      · obtain ⟨hd, hst⟩ := hop latest hl
        rw [hd]
        exact ⟨hst, wp_ret.mpr ⟨⟨0, rfl⟩, .refl w⟩⟩
    · refine wp_mono (fun r w' h => ⟨h.1, h₁.trans h.2⟩)
        (wp_replayOps_harmless root rest acc w₁ fun op h => hops op (List.mem_cons_of_mem _ h))

/-- An unfinished operation whose last record names the destination `d`. -/
def RecordedOp (root d : Path) (recs : List JournalRecord) : Prop :=
  (∀ r ∈ recs, r.phase ≠ .registryPersisted) ∧ ∀ latest, recs.getLast? = some latest →
    latest.destinationPath = some d ∧ ¬ root <+: latest.stagingPath

/-- The file at `d` now carries the suffix; nothing else changed below the
pending root. -/
structure Quarantined (root d : Path) (w w' : World) : Prop where
  files : w'.reg.files = w.reg.files
  gone : w'.fs.get d = none
  kept : w'.fs.get (d.addExt ".orphaned") ≠ none
  disk : ∀ p, root <+: p → p ≠ d → p ≠ d.addExt ".orphaned" → w'.fs.get p = w.fs.get p

theorem Quarantined.same {d : Path} (h : Quarantined root d w w') (hd : root <+: d)
    (horph : root <+: d.addExt ".orphaned") (h' : SamePending root w' w'') :
    Quarantined root d w w'' where
  files := h'.files.trans h.files
  gone := by rw [h'.disk d hd, h.gone]
  kept := by rw [h'.disk _ horph]; exact h.kept
  disk p hp hpd hpo := by rw [h'.disk p hp, h.disk p hp hpd hpo]

/-- The move of a recorded destination, the first time and any later time. -/
theorem wp_quarantineDestination {d : Path} {w₀ : World} (hd : root <+: d)
    (hfile : w₀.fs.get d ≠ none) (hw : SamePending root w₀ w ∨ Quarantined root d w₀ w) :
    (quarantineDestination (some d)).Wp (handle env) w fun r w' =>
      (∃ n, r = .ok n) ∧ Quarantined root d w₀ w' := by
  unfold quarantineDestination
  refine wp_bind.mpr (wp_pathExists.mpr ?_)
  simp only [thenWp_ok]
  rcases hw with hw | hw
  · obtain ⟨b, hb⟩ := Option.ne_none_iff_exists'.mp hfile
    rw [← hw.disk d hd] at hb
    simp only [hb, Option.isSome_some, if_true]
    refine wp_bind.mpr (wp_replaceFile hb fun w₁ hfs hreg => wp_ret.mpr ⟨⟨1, rfl⟩, ?_⟩)
    have hne : d ≠ d.addExt ".orphaned" := (addExt_ne (by decide)).symm
    refine ⟨by rw [hreg, hw.files], ?_, by rw [hfs]; simp, fun p hp hpd hpo => ?_⟩
    · rw [hfs, Table.get_put, if_neg hne, Table.get_drop, if_pos rfl]
    · rw [hfs, Table.get_put, if_neg hpo, Table.get_drop, if_neg hpd, hw.disk p hp]
  · simp only [hw.gone]
    exact wp_ret.mpr ⟨⟨0, rfl⟩, hw⟩

/-- The loop over harmless operations and recorded ones: once a recorded one has
had its turn, its destination is out of the way. -/
theorem wp_replayOps_recorded {d : Path} {w₀ : World} (hd : root <+: d)
    (horph : root <+: d.addExt ".orphaned") (hfile : w₀.fs.get d ≠ none) :
    ∀ (ops : List (String × List JournalRecord)) (acc : ReplayResult) (w : World),
      (∀ op ∈ ops, HarmlessOp root op.2 ∨ RecordedOp root d op.2) →
      SamePending root w₀ w ∨ Quarantined root d w₀ w →
      (replayOps ops acc).Wp (handle env) w fun r w' => (∃ n, r = .ok n) ∧
        ((∃ op ∈ ops, RecordedOp root d op.2 ∧ op.2 ≠ []) ∨ Quarantined root d w₀ w →
          Quarantined root d w₀ w')
  | [], acc, w, _, hw => wp_ret.mpr ⟨⟨acc, rfl⟩, by simp⟩
  | (opId, recs) :: rest, acc, w, hops, hw => by
    have hrest : ∀ op ∈ rest, HarmlessOp root op.2 ∨ RecordedOp root d op.2 :=
      fun op h => hops op (List.mem_cons_of_mem _ h)
    by_cases hrec : RecordedOp root d recs ∧ recs ≠ []
    · -- its turn: from here on the destination is quarantined
      refine wp_replayOps_cons (E := fun _ w' => Quarantined root d w₀ w')
        ?_ ?_ (fun _ h _ h' => h.same hd horph h') (fun acc w₁ h₁ => ?_) acc
      · rintro (⟨r, hr, hp⟩ | hnil)
        · exact absurd hp (hrec.1.1 r hr)
        · exact absurd hnil hrec.2
      · intro latest hl _
        obtain ⟨hdest, hst⟩ := hrec.1.2 latest hl
        rw [hdest]
        exact ⟨hst, wp_quarantineDestination hd hfile hw⟩
      · exact wp_mono (fun r w' h => ⟨h.1, fun _ => h.2 (.inr h₁)⟩)
          (wp_replayOps_recorded hd horph hfile rest acc w₁ hrest (.inr h₁))
    · have hop : HarmlessOp root recs := by
        rcases hops _ List.mem_cons_self with hop | hop
        · exact hop
        · have hnil : recs = [] := not_not.mp fun h => hrec ⟨hop, h⟩
          refine .inr fun latest hl => ?_
          rw [hnil] at hl
          cases hl
      refine wp_replayOps_cons (E := SamePending root) (fun _ => .refl w) (fun latest hl hno => ?_)
        (fun _ h _ h' => h.trans h') (fun acc w₁ h₁ => ?_) acc
      · rcases hop with ⟨r, hr, hp⟩ | hop
        · exact absurd hp (hno r hr)
        · obtain ⟨hdest, hst⟩ := hop latest hl
          rw [hdest]
          exact ⟨hst, wp_ret.mpr ⟨⟨0, rfl⟩, .refl w⟩⟩
      · refine wp_mono (fun r w' h => ⟨h.1, ?_⟩) (wp_replayOps_recorded hd horph hfile rest acc w₁
          hrest (hw.imp (·.trans h₁) (·.same hd horph h₁)))
        rintro (⟨op, hop', hrec'⟩ | hq)
        · rcases List.mem_cons.mp hop' with rfl | hop'
          · exact absurd hrec' hrec
          · exact h.2 (.inl ⟨op, hop', hrec'⟩)
        · exact h.2 (.inr (hq.same hd horph h₁))

/-! ## The whole replay -/

theorem mem_byOp_filter {recs rs : List JournalRecord} {id : String}
    (h : (id, rs) ∈ Journal.byOp recs) : rs = recs.filter (·.opId == id) :=
  ((Journal.mem_byOp recs).mp h).1

/-- A journal that names no destination. -/
theorem wp_replay_harmless {eng : Engine} (h : HarmlessBut none root w.journal.readAll) :
    (replayInterruptedOperations eng).Wp (handle env) w fun r w' =>
      (∃ n, r = .ok n) ∧ SamePending root w w' := by
  unfold replayInterruptedOperations
  cases eng.journalMaxBytes with
  | none => exact wp_ret.mpr ⟨⟨_, rfl⟩, .refl w⟩
  | some m =>
    refine wp_bind.mpr (wp_op.mpr (wp_ret.mpr ?_))
    refine wp_bind.mpr (wp_mono ?_ (wp_replayOps_harmless root
      (Journal.byOp w.journal.readAll) ⟨0, 0, 0, []⟩ w ?_))
    · rintro _ w₁ ⟨⟨n, rfl⟩, h₁⟩
      exact wp_bind.mpr (wp_op.mpr (wp_ret.mpr (wp_ret.mpr
        ⟨⟨n, rfl⟩, h₁.trans ⟨rfl, fun _ _ => rfl⟩⟩)))
    · rintro ⟨id, rs⟩ hop
      rw [mem_byOp_filter hop]
      exact h id (by simp)

/-- A journal in which `own` has recorded its destination. -/
theorem wp_replay_recorded {maxBytes : Nat} {own : String} {d : Path} (hd : root <+: d)
    (horph : root <+: d.addExt ".orphaned") (hfile : w.fs.get d ≠ none)
    (hothers : HarmlessBut (some own) root w.journal.readAll)
    (hown : RecordedOp root d (w.journal.readAll.filter (·.opId == own)))
    (hsome : w.journal.readAll.filter (·.opId == own) ≠ []) :
    (replayInterruptedOperations ⟨some maxBytes⟩).Wp (handle env) w fun r w' =>
      (∃ n, r = .ok n) ∧ Quarantined root d w w' := by
  unfold replayInterruptedOperations
  refine wp_bind.mpr (wp_op.mpr (wp_ret.mpr ?_))
  refine wp_bind.mpr (wp_mono ?_ (wp_replayOps_recorded hd horph hfile
    (Journal.byOp w.journal.readAll) ⟨0, 0, 0, []⟩ w ?_ (.inl (.refl w))))
  · rintro _ w₁ ⟨⟨n, rfl⟩, h₁⟩
    have hq := h₁ (.inl ⟨(own, _), (Journal.mem_byOp _).mpr ⟨rfl, hsome⟩, hown, hsome⟩)
    exact wp_bind.mpr (wp_op.mpr (wp_ret.mpr (wp_ret.mpr
      ⟨⟨n, rfl⟩, hq.same hd horph ⟨rfl, fun _ _ => rfl⟩⟩)))
  · rintro ⟨id, rs⟩ hop
    rw [mem_byOp_filter hop]
    by_cases hid : id = own
    · subst hid
      exact .inr hown
    · exact .inl (hothers id fun h => hid (Option.some.inj h).symm)

end Replay

end Nightfall
