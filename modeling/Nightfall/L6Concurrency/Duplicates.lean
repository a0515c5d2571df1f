import Nightfall.Core.Pool
import Nightfall.L3Flows.IngestSpecs
import Nightfall.L4System.System

/-!
# Workers that ingest the same content at once

Several `_process_one` calls over copies of one file. Whether the hash is known
is read long before `finalize_unknown_ingest`, whose upsert settles a conflict
by overwriting the path.

* `racer`: the contract of one call.
* `Ended`: how a call may end: it won (it finalized, and left a file only at its
  destination) or it lost (it found the row, and left no file).
* `duplicates_ingested_once`: when every finalize still finds no row, one call
  wins, the others return `discard_pending`, and no file is left without a row.
* `duplicates_race`: two lookups before either finalize.
-/
namespace Nightfall
open Nightfall.Core Storage Prog

/-! ## What the calls share -/

section Contract
variable {ι : Type} (env : Env) (b : Bytes) (c : ι → StagedCandidate)

/-- No rule blocks a candidate, a metadata match names the common hash, and the
row of that hash is pending. -/
structure Racing (s : World) : Prop where
  rules : ∀ i, blockedBy env (c i) s = none
  hit : ∀ i st sha, prefiltered (c i) s = some (st, sha) → sha = env.sha256 b
  row : ∀ row, s.reg.files.get (env.sha256 b) = some row → row.status = .pending

/-- The destination of a `finalize_unknown_ingest`. -/
def Op.finalizes : Op → Option Path
  | .tx (.finalizeUnknownIngest _ _ _ d _ _ _ _ _) => some d
  | _ => none

/-- What call `i` relies on. -/
structure LeavesStaged (i : ι) (s t : World) : Prop where
  racing : Racing env b c s → Racing env b c t
  staged : s.fs.get (c i).stagingPath = some b → t.fs.get (c i).stagingPath = some b

/-- What call `i` guarantees: only a finalize writes the row. -/
structure RacesFairly (i : ι) (o : Op) (s t : World) : Prop where
  racing : Racing env b c s → Racing env b c t
  staged : ∀ j, j ≠ i → s.fs.get (c j).stagingPath = some b → t.fs.get (c j).stagingPath = some b
  row : o.finalizes = none →
    t.reg.files.get (env.sha256 b) = s.reg.files.get (env.sha256 b)
  finalized : ∀ d, o.finalizes = some d → ∃ row, t.reg.files.get (env.sha256 b) = some row ∧
    row.status = .pending ∧ row.currentPath = some d

def racer (i : ι) : Contract Ops World where
  rely _ s t := LeavesStaged env b c i s t
  cond _ _ _ := True
  guar o s t := RacesFairly env b c i o s t
  rely_refl _ _ := ⟨id, id⟩
  rely_trans _ _ _ _ h h' := ⟨h'.racing ∘ h.racing, h'.staged ∘ h.staged⟩

end Contract

/-- Did the last change of the file at `p` in these steps leave one there. -/
def leftAt (h : List (Event Ops World)) (p : Path) : Bool :=
  h.foldl (fun v e => if e.post.fs.get p = e.pre.fs.get p then v else (e.post.fs.get p).isSome) false

theorem leftAt_snoc (h : List (Event Ops World)) (e : Event Ops World) (p : Path) :
    leftAt (h ++ [e]) p =
      if e.post.fs.get p = e.pre.fs.get p then leftAt h p else (e.post.fs.get p).isSome := by
  simp [leftAt]

theorem leftAt_still {h h' : List (Event Ops World)} (hh : ∀ e ∈ h', e.post.fs = e.pre.fs)
    (p : Path) : leftAt (h ++ h') p = leftAt h p := by
  induction h' using List.reverseRecOn with
  | nil => simp
  | append_singleton h' e ih =>
    rw [← List.append_assoc, leftAt_snoc, hh e (by simp), if_pos rfl,
      ih fun e' he' => hh e' (by simp [he'])]

/-! ## Each step keeps the contract -/

section Fair
variable {ι : Type} {env : Env} {b : Bytes} {c : ι → StagedCandidate} {i : ι} {s t : World}

theorem Racing.of_reg (h : t.reg = s.reg) (hr : Racing env b c s) : Racing env b c t := by
  have hblock : ∀ i, blockedBy env (c i) t = blockedBy env (c i) s := fun i => by
    unfold blockedBy; rw [h]
  have hpre : ∀ i, prefiltered (c i) t = prefiltered (c i) s := fun i => by
    unfold prefiltered; rw [h]
  exact ⟨fun i => by rw [hblock, hr.rules], fun i st sha hit => hr.hit i st sha (by rwa [← hpre]),
    fun row hrow => hr.row row (by rwa [← h])⟩

/-- A step that writes no table and no staged file of another call. -/
theorem fair_files {o : Op} (htx : o.isTx = false) (hfs : ∀ j, j ≠ i →
      s.fs.get (c j).stagingPath = some b → (handle env o s).2.fs.get (c j).stagingPath = some b) :
    RacesFairly env b c i o s (handle env o s).2 := by
  have hreg : (handle env o s).2.reg = s.reg := handle_reg htx
  refine ⟨Racing.of_reg hreg, hfs, fun _ => by rw [hreg], fun d hd => ?_⟩
  cases o with
  | tx tx => cases htx
  | _ => cases hd

theorem fair_quiet {o : Op} (ho : o.Quiet) : RacesFairly env b c i o s (handle env o s).2 :=
  fair_files ho.1 fun j _ hj => by rw [handle_fs ho.2, hj]

/-- A table gains only what concerns `sha`. -/
structure Notes (sha : String) (r r' : Registry) : Prop where
  files : ∀ k, k ≠ sha → r'.files.get k = r.files.get k
  hits : ∀ key, r'.metadataIndex.get key = r.metadataIndex.get key ∨
    ∃ m, r'.metadataIndex.get key = some m ∧ m.sha256 = sha
  rules : r'.blockedRules = r.blockedRules

theorem Racing.notes (h : Notes (env.sha256 b) s.reg t.reg)
    (hrow : ∀ row, t.reg.files.get (env.sha256 b) = some row → row.status = .pending)
    (hr : Racing env b c s) : Racing env b c t := by
  refine ⟨fun i => ?_, fun i st sha hit => ?_, hrow⟩
  · have hblock : blockedBy env (c i) t = blockedBy env (c i) s := by
      simp only [blockedBy, Registry.enabledBlockRules, h.rules]
    rw [hblock, hr.rules]
  · simp only [prefiltered, Registry.prefilterStatus] at hit
    rcases h.hits ((c i).accountName, (c i).onedriveId) with hsame | ⟨m, hm, hsha⟩
    · -- the entry is old: it names the hash, or the row it names is old too
      rw [hsame] at hit
      cases hm : s.reg.metadataIndex.get ((c i).accountName, (c i).onedriveId) with
      | none => rw [hm] at hit; cases hit
      | some m =>
        rw [hm] at hit
        simp only at hit
        split at hit
        · next hmatch =>
          obtain ⟨row, hget, hrow'⟩ := Option.map_eq_some_iff.mp hit
          obtain ⟨-, rfl⟩ := Prod.mk.inj hrow'
          by_contra hne
          refine hne (hr.hit i row.status m.sha256 ?_)
          rw [h.files _ hne] at hget
          simp only [prefiltered, Registry.prefilterStatus, hm, if_pos hmatch, hget, Option.map_some]
        · cases hit
    · rw [hm] at hit
      simp only at hit
      split at hit
      · obtain ⟨row, -, hrow'⟩ := Option.map_eq_some_iff.mp hit
        obtain ⟨-, rfl⟩ := Prod.mk.inj hrow'
        exact hsha
      · cases hit

section Notes
variable {r r' r'' : Registry} {sha account id mt actor now : String} {n : Nat}

theorem Notes.trans (h : Notes sha r r') (h' : Notes sha r' r'') : Notes sha r r'' := by
  refine ⟨fun k hk => (h'.files k hk).trans (h.files k hk), fun key => ?_, h'.rules.trans h.rules⟩
  rcases h'.hits key with hsame | hnew
  · rw [hsame]
    exact h.hits key
  · exact .inr hnew

theorem notes_audit {s' account' : Option String} {a : AuditAction} {reason : Option String} :
    Notes sha r (r.audit s' account' a reason actor now) :=
  ⟨fun _ _ => rfl, fun _ => .inl rfl, rfl⟩

theorem notes_upsertFile {st : Status} {name : Option String} {path : Option Path} :
    Notes sha r (r.upsertFile sha n st name path now) := by
  obtain ⟨row, -, -, hf⟩ := Registry.files_upsertFile r sha n st name path now
  exact ⟨fun k hk => by rw [hf, Table.get_put, if_neg hk], fun _ => .inl rfl, rfl⟩

theorem notes_upsertMetadataIndex :
    Notes sha r (r.upsertMetadataIndex account id n mt sha now) := by
  refine ⟨fun _ _ => rfl, fun key => ?_, rfl⟩
  simp only [Registry.upsertMetadataIndex, Table.get_put]
  split
  · exact .inr ⟨_, rfl, rfl⟩
  · exact .inl rfl

theorem notes_upsertFileOrigin {hint : Option String}
    (h : r.upsertFileOrigin sha account id hint now = .ok r') : Notes sha r r' := by
  unfold Registry.upsertFileOrigin at h
  simp only at h
  split at h
  · cases h
    exact ⟨fun _ _ => rfl, fun _ => .inl rfl, rfl⟩
  · cases h

theorem notes_finalizeUnknownIngest {name src : String} {path : Path}
    (h : r.finalizeUnknownIngest sha n name path account id src mt actor now = .ok r') :
    Notes sha r r' := by
  simp only [Registry.finalizeUnknownIngest, bind, Except.bind] at h
  split at h
  · cases h
  · next r₁ h₁ =>
    cases h
    exact ((notes_upsertFile.trans notes_upsertMetadataIndex).trans
      (notes_upsertFileOrigin h₁)).trans notes_audit

theorem notes_finalizeKnownIngest {st : Status} {src : String}
    (h : r.finalizeKnownIngest sha st account id src mt n actor now = .ok r') :
    Notes sha r r' := by
  simp only [Registry.finalizeKnownIngest, bind, Except.bind] at h
  split at h
  · cases h
  · next r₁ h₁ =>
    cases h
    exact (notes_upsertMetadataIndex.trans (notes_upsertFileOrigin h₁)).trans notes_audit

end Notes

/-- A transaction that writes no row. -/
theorem fair_tx {tx : Tx} (hkeep : tx.keepsFiles = true) (hnot : ∀ r r' now,
      tx.apply r now = .ok r' → Notes (env.sha256 b) r r') :
    RacesFairly env b c i (.tx tx) s (handle env (.tx tx) s).2 := by
  have hfs : (handle env (.tx tx) s).2.fs = s.fs := handle_fs rfl
  have hrow : (handle env (.tx tx) s).2.reg.files = s.reg.files ∧
      Notes (env.sha256 b) s.reg (handle env (.tx tx) s).2.reg := by
    simp only [handle]
    split
    · next r hr => exact ⟨files_of_keepsFiles hkeep hr, hnot _ _ _ hr⟩
    · exact ⟨rfl, fun _ _ => rfl, fun _ => .inl rfl, rfl⟩
  refine ⟨fun hr => hr.notes hrow.2 fun row h => hr.row row (by rwa [← hrow.1]),
    fun j _ hj => by rw [hfs, hj], fun _ => by rw [hrow.1], fun d hd => ?_⟩
  cases tx with
  | finalizeUnknownIngest => cases hkeep
  | _ => cases hd

theorem fair_finalizeUnknown {n : Nat} {name account id src mt actor : String} {d : Path} :
    RacesFairly env b c i (.tx (.finalizeUnknownIngest (env.sha256 b) n name d account id src mt
      actor)) s (handle env (.tx (.finalizeUnknownIngest (env.sha256 b) n name d account id src mt
      actor)) s).2 := by
  obtain ⟨r', hr'⟩ := Registry.finalizeUnknownIngest_ok s.reg (env.sha256 b) n name d account id src
    mt actor (env.clock s.ticks).iso
  obtain ⟨row, hst, hpath, hf⟩ := Registry.files_finalizeUnknownIngest hr'
  have hown : r'.files.get (env.sha256 b) = some row := by rw [hf, Table.get_put_self]
  simp only [handle, Tx.apply, hr']
  refine ⟨fun hr => hr.notes (notes_finalizeUnknownIngest hr') fun row' h => ?_, fun _ _ hj => hj,
    fun h => by simp [Op.finalizes] at h, fun d' hd => ?_⟩
  · simp only [hown] at h
    cases h
    exact hst
  · cases hd
    exact ⟨row, hown, hst, hpath⟩

theorem fair_unlink {p : Path} (hp : ∀ j, j ≠ i → (c j).stagingPath ≠ p) :
    RacesFairly env b c i (.unlink p) s (handle env (.unlink p) s).2 :=
  fair_files rfl fun j hj h => by simp only [handle]; rw [Table.get_drop, if_neg (hp j hj), h]

theorem fair_replace {src dst : Path} (hsrc : ∀ j, j ≠ i → (c j).stagingPath ≠ src)
    (hdst : ∀ j, j ≠ i → (c j).stagingPath ≠ dst) :
    RacesFairly env b c i (.replace src dst) s (handle env (.replace src dst) s).2 := by
  refine fair_files rfl fun j hj h => ?_
  simp only [handle, moveFile]
  cases s.fs.get src with
  | none => exact h
  | some v =>
    simp only [Option.map_some]
    rw [Table.get_put, if_neg (hdst j hj), Table.get_drop, if_neg (hsrc j hj), h]

theorem fair_copy2 {src dst : Path} (hdst : ∀ j, j ≠ i → (c j).stagingPath ≠ dst) :
    RacesFairly env b c i (.copy2 src dst) s (handle env (.copy2 src dst) s).2 := by
  refine fair_files rfl fun j hj h => ?_
  simp only [handle, copyFile]
  cases s.fs.get src with
  | none => exact h
  | some v =>
    simp only [Option.map_some]
    rw [Table.get_put, if_neg (hdst j hj), h]

end Fair

/-! ## The files a call leaves -/

/-- The own steps left files only at `ds`, and finalized only `fin`. -/
structure LeftOnly (fin : Option Path) (ds : List Path) (h : List (Event Ops World)) : Prop where
  left : ∀ p, leftAt h p = true → p ∈ ds
  fin : ∀ e ∈ h, ∀ d, e.op.finalizes = some d → fin = some d

theorem finalizes_of_not_tx {o : Op} (ho : o.isTx = false) : o.finalizes = none := by
  cases o with
  | tx tx => cases ho
  | _ => rfl

section Left
variable {fin : Option Path} {ds : List Path} {h : List (Event Ops World)}

theorem LeftOnly.still {h' : List (Event Ops World)} (hl : LeftOnly fin ds h)
    (hh : ∀ e ∈ h', e.post.fs = e.pre.fs ∧ e.op.finalizes = none) : LeftOnly fin ds (h ++ h') := by
  refine ⟨fun p hp => hl.left p ?_, List.forall_mem_append.mpr ⟨hl.fin, fun e he d hd => ?_⟩⟩
  · rwa [leftAt_still fun e he => (hh e he).1] at hp
  · rw [(hh e he).2] at hd
    cases hd

theorem LeftOnly.quiet {env : Env} {h' : List (Event Ops World)} (hl : LeftOnly fin ds h)
    (hh : ∀ e ∈ h', e.op.Quiet ∧ e.post = (handle env e.op e.pre).2) : LeftOnly fin ds (h ++ h') :=
  hl.still fun e he => ⟨by rw [(hh e he).2, handle_fs (hh e he).1.2],
    finalizes_of_not_tx (hh e he).1.1⟩

/-- A step that is no finalize, by what it does to the files. -/
theorem LeftOnly.snoc {ds' : List Path} {e : Event Ops World} (hl : LeftOnly fin ds h)
    (he : e.op.finalizes = none) (hleft : ∀ p, leftAt (h ++ [e]) p = true → p ∈ ds') :
    LeftOnly fin ds' (h ++ [e]) := by
  refine ⟨hleft, List.forall_mem_append.mpr ⟨hl.fin, fun e' he' d hd => ?_⟩⟩
  obtain rfl := List.mem_singleton.mp he'
  rw [he] at hd
  cases hd

theorem LeftOnly.step {o : Op} (hl : LeftOnly fin ds h) (ho : o.writesFs = false)
    (hfin : o.finalizes = none) (env : Env) (s : World) :
    LeftOnly fin ds (h ++ [⟨o, s, (handle env o s).2⟩]) :=
  hl.still fun e he => by
    obtain rfl := List.mem_singleton.mp he
    exact ⟨handle_fs ho, hfin⟩

/-- The finalize of `d`. -/
theorem LeftOnly.finalize {o : Op} {d : Path} (hl : LeftOnly none ds h) (ho : o.writesFs = false)
    (hd : o.finalizes = some d) (env : Env) (s : World) :
    LeftOnly (some d) ds (h ++ [⟨o, s, (handle env o s).2⟩]) := by
  refine ⟨fun p hp => hl.left p ?_, List.forall_mem_append.mpr ⟨fun e he d' hd' => ?_, ?_⟩⟩
  · rw [leftAt_snoc] at hp
    simpa [handle_fs ho] using hp
  · cases hl.fin e he d' hd'
  · simp [hd]

theorem LeftOnly.unlink (hl : LeftOnly fin ds h) (env : Env) (s : World) (p : Path) :
    LeftOnly fin ds (h ++ [⟨.unlink p, s, (handle env (.unlink p) s).2⟩]) := by
  refine hl.snoc rfl fun q hq => ?_
  rw [leftAt_snoc] at hq
  split at hq
  · exact hl.left q hq
  · next hne =>
    have hqp : q = p := by
      by_contra hqp
      exact hne (by simp only [handle]; rw [Table.get_drop, if_neg hqp])
    simp [handle, hqp, Table.get_drop] at hq

theorem LeftOnly.replace {s : World} {src : Path} {v : Bytes} (hl : LeftOnly fin ds h)
    (hds : ∀ p ∈ ds, p = src) (hv : s.fs.get src = some v) (env : Env) (dst : Path) :
    LeftOnly fin [dst] (h ++ [⟨.replace src dst, s, (handle env (.replace src dst) s).2⟩]) := by
  refine hl.snoc rfl fun q hq => ?_
  rw [leftAt_snoc] at hq
  simp only [handle, moveFile, hv, Option.map_some] at hq
  by_contra hqd
  have hqd : q ≠ dst := by simpa using hqd
  rw [Table.get_put, if_neg hqd, Table.get_drop] at hq
  by_cases hqs : q = src
  · subst hqs
    simp [hv] at hq
  · simp only [if_neg hqs, if_true] at hq
    exact hqs (hds q (hl.left q hq))

theorem LeftOnly.copy2 (hl : LeftOnly fin [] h) (env : Env) (s : World) (src dst : Path) :
    LeftOnly fin [dst] (h ++ [⟨.copy2 src dst, s, (handle env (.copy2 src dst) s).2⟩]) := by
  refine hl.snoc rfl fun q hq => ?_
  rw [leftAt_snoc] at hq
  simp only [handle, copyFile] at hq
  by_contra hqd
  have hqd : q ≠ dst := by simpa using hqd
  have hnot : leftAt h q = false := by
    by_contra hq'
    cases hl.left q (by simpa using hq')
  cases hv : s.fs.get src with
  | none => simp [hv, hnot] at hq
  | some v => simp [hv, Table.get_put, hqd, hnot] at hq

end Left

/-! ## How a call ends -/

/-- The call finalized its destination and left a file only there. -/
def Won (h : List (Event Ops World)) : Prop :=
  ∃ d, (∃ e ∈ h, e.op.finalizes = some d) ∧ LeftOnly (some d) [d] h

/-- The call found the row of the hash and left no file. -/
def Lost (env : Env) (b : Bytes) (h : List (Event Ops World)) : Prop :=
  (∃ e ∈ h, e.pre.reg.files.get (env.sha256 b) ≠ none) ∧ LeftOnly none [] h

def Ended (env : Env) (b : Bytes) :
    Except Err IngestOutcome → List (Event Ops World) → World → Prop
  | .ok out, h, _ => (out.action = .pending ∧ Won h) ∨
      (out.action = .discard .pending ∧ Lost env b h)
  | .error _, _, _ => True

/-- The call has read so far; its staged file is there. -/
structure Waiting {ι : Type} (env : Env) (b : Bytes) (c : ι → StagedCandidate) (i : ι)
    (h : List (Event Ops World)) (s : World) : Prop where
  racing : Racing env b c s
  staged : s.fs.get (c i).stagingPath = some b
  left : LeftOnly none [] h

section Calls
variable {ι : Type} {env : Env} {b : Bytes} {c : ι → StagedCandidate} {i : ι} {α β : Type}
  {h : List (Event Ops World)} {s : World}

theorem Waiting.rely {t : World} (hw : Waiting env b c i h s) (hr : LeavesStaged env b c i s t) :
    Waiting env b c i h t := ⟨hr.racing hw.racing, hr.staged hw.staged, hw.left⟩

/-- A stretch of steps that write nothing. -/
theorem safe_waiting {pr : Flow α} {Q : Except Err α → List (Event Ops World) → World → Prop}
    (hp : pr.Calls Op.Quiet) (hw : Waiting env b c i h s)
    (hQ : ∀ r h' t, Waiting env b c i (h ++ h') t → Q r (h ++ h') t) :
    Safe (handle env) (racer env b c i) Q pr h s := by
  refine safe_calls (A := Op.Quiet) (R := LeavesStaged env b c i) ?_ (fun _ _ _ hr => hr) ?_ hp ?_
  · exact fun _ _ _ h h' => (racer env b c i).rely_trans [] _ _ _ h h'
  · intro o s ho
    have hs : Still s (handle env o s).2 := still_handle ho
    exact ⟨fair_quiet ho, Racing.of_reg hs.reg, fun h => by rw [hs.fs, h]⟩
  · intro r h' t hR hh
    have hw' := hw.rely hR
    exact hQ r h' t ⟨hw'.racing, hw'.staged, hw.left.quiet hh⟩

/-- One step that writes nothing, with its answer. -/
theorem safe_read {o : Op} {k : Op.Res o → Flow α}
    {Q : Except Err α → List (Event Ops World) → World → Prop} (ho : o.Quiet)
    (hw : Waiting env b c i h s)
    (hk : ∀ s₁ t h', Waiting env b c i h s₁ → Waiting env b c i (h ++ h') t →
      (∃ e ∈ h ++ h', e.pre = s₁) →
      Safe (handle env) (racer env b c i) Q (k (handle env o s₁).1) (h ++ h') t) :
    Safe (handle env) (racer env b c i) Q (.op o k) h s := by
  intro s₁ hr _
  have hw₁ := hw.rely hr
  have hs : Still s₁ (handle env o s₁).2 := still_handle ho
  refine ⟨fair_quiet ho, hk s₁ _ _ hw₁ ⟨hw₁.racing.of_reg hs.reg, ?_,
    hw.left.step ho.2 (finalizes_of_not_tx ho.1) env s₁⟩
    ⟨_, List.mem_append_right _ List.mem_cons_self, rfl⟩⟩
  rw [hs.fs, hw₁.staged]

/-- A step whose guarantee needs nothing of the state. -/
theorem safe_fair {o : Op} {k : Op.Res o → Flow α}
    {Q : Except Err α → List (Event Ops World) → World → Prop}
    (ho : ∀ s, RacesFairly env b c i o s (handle env o s).2)
    (hk : ∀ s₁, Safe (handle env) (racer env b c i) Q (k (handle env o s₁).1)
      (h ++ [⟨o, s₁, (handle env o s₁).2⟩]) (handle env o s₁).2) :
    Safe (handle env) (racer env b c i) Q (.op o k) h s := fun s₁ _ _ => ⟨ho s₁, hk s₁⟩

/-- A stretch of steps that write nothing, in any state. -/
theorem safe_left {pr : Flow α} {fin : Option Path} {ds : List Path}
    {Q : Except Err α → List (Event Ops World) → World → Prop} (hp : pr.Calls Op.Quiet)
    (hl : LeftOnly fin ds h) (hQ : ∀ r h' t, LeftOnly fin ds (h ++ h') → Q r (h ++ h') t) :
    Safe (handle env) (racer env b c i) Q pr h s :=
  safe_calls (A := Op.Quiet) (R := fun _ _ => True) (fun _ _ _ _ _ => trivial)
    (fun _ _ _ _ => trivial) (fun _ _ ho => ⟨fair_quiet ho, trivial⟩) hp
    fun r h' t _ hh => hQ r h' t (hl.quiet hh)

/-! ## Steps on files -/

section Steps
variable {fin : Option Path} {ds : List Path} {src dst : Path}

/-- No staged file of another call. -/
def NotStaged (c : ι → StagedCandidate) (i : ι) (p : Path) : Prop :=
  ∀ j, j ≠ i → (c j).stagingPath ≠ p

theorem safe_replaceFile_left {Q : Except Err Unit → List (Event Ops World) → World → Prop}
    (hl : LeftOnly fin ds h) (hds : ∀ p ∈ ds, p = src) (hsrc : NotStaged c i src)
    (hdst : NotStaged c i dst) (hok : ∀ h' t, LeftOnly fin [dst] h' → Q (.ok ()) h' t)
    (herr : ∀ e h' t, Q (.error e) h' t) :
    Safe (handle env) (racer env b c i) Q (replaceFile src dst) h s := by
  refine safe_fair (fun _ => fair_replace hsrc hdst) fun s₁ => ?_
  cases hv : s₁.fs.get src with
  | none =>
    simp only [handle, moveFile, hv, Option.map_none]
    exact fun _ _ => herr _ _ _
  | some v =>
    have hl₁ := hl.replace hds hv env dst
    simp only [handle, moveFile, hv, Option.map_some] at hl₁ ⊢
    exact fun _ _ => hok _ _ hl₁

theorem safe_copy2_left {Q : Except Err Unit → List (Event Ops World) → World → Prop}
    (hl : LeftOnly fin [] h) (hdst : NotStaged c i dst)
    (hok : ∀ h' t, LeftOnly fin [dst] h' → Q (.ok ()) h' t) (herr : ∀ e h' t, Q (.error e) h' t) :
    Safe (handle env) (racer env b c i) Q (copy2 src dst) h s := by
  rw [copy2]
  split
  · exact fun _ _ => herr _ _ _
  refine safe_fair (fun _ => fair_copy2 hdst) fun s₁ => ?_
  have hl₁ := hl.copy2 env s₁ src dst
  split
  · exact fun _ _ => hok _ _ hl₁
  · exact fun _ _ => herr _ _ _

theorem safe_unlink_left {p : Path} {Q : Except Err Unit → List (Event Ops World) → World → Prop}
    (hl : LeftOnly fin ds h) (hp : NotStaged c i p)
    (hok : ∀ h' t, LeftOnly fin ds (h ++ h') → Q (.ok ()) (h ++ h') t) :
    Safe (handle env) (racer env b c i) Q (unlink p) h s :=
  safe_fair (fun _ => fair_unlink hp) fun s₁ _ _ => hok _ _ (hl.unlink env s₁ p)

theorem safe_transact_left {tx : Tx}
    {Q : Except Err Unit → List (Event Ops World) → World → Prop} (hl : LeftOnly fin ds h)
    (ho : ∀ s, RacesFairly env b c i (.tx tx) s (handle env (.tx tx) s).2)
    (hfin : Op.finalizes (.tx tx) = none)
    (hok : ∀ h' t, LeftOnly fin ds (h ++ h') → Q (.ok ()) (h ++ h') t)
    (herr : ∀ e h' t, Q (.error e) h' t) :
    Safe (handle env) (racer env b c i) Q (transact tx) h s := by
  refine safe_fair ho fun s₁ => ?_
  have hl₁ := hl.step (o := .tx tx) rfl hfin env s₁
  cases (handle env (.tx tx) s₁).1 with
  | ok u => exact fun _ _ => hok _ _ hl₁
  | error e => exact fun _ _ => herr _ _ _

theorem safe_finalize_left {n : Nat} {name account id src mt actor : String} {d : Path}
    {Q : Except Err Unit → List (Event Ops World) → World → Prop} (hl : LeftOnly none ds h)
    (hok : ∀ h' t, LeftOnly (some d) ds (h ++ h') → (∃ e ∈ h ++ h', e.op.finalizes = some d) →
      Q (.ok ()) (h ++ h') t)
    (herr : ∀ e h' t, Q (.error e) h' t) :
    Safe (handle env) (racer env b c i) Q (transact (.finalizeUnknownIngest (env.sha256 b) n name d
      account id src mt actor)) h s := by
  refine safe_fair (fun _ => fair_finalizeUnknown) fun s₁ => ?_
  have hl₁ := hl.finalize (o := .tx (.finalizeUnknownIngest (env.sha256 b) n name d account id src
    mt actor)) rfl rfl env s₁
  cases (handle env (.tx (.finalizeUnknownIngest (env.sha256 b) n name d account id src mt
    actor)) s₁).1 with
  | ok u => exact fun _ _ => hok _ _ hl₁ ⟨_, List.mem_append_right _ List.mem_cons_self, rfl⟩
  | error e => exact fun _ _ => herr _ _ _

end Steps

/-! ## Steps that read -/

theorem safe_pathExists_waiting {Q : Except Err Bool → List (Event Ops World) → World → Prop}
    (hw : Waiting env b c i h s)
    (hQ : ∀ h' t, Waiting env b c i (h ++ h') t → Q (.ok true) (h ++ h') t) :
    Safe (handle env) (racer env b c i) Q (pathExists (c i).stagingPath) h s := by
  refine safe_read (o := .pathExists _) ⟨rfl, rfl⟩ hw fun s₁ t h' hw₁ ht _ => ?_
  simp only [handle, hw₁.staged, Option.isSome_some]
  exact fun _ hr => hQ _ _ (ht.rely hr)

theorem safe_statSize_waiting {Q : Except Err Nat → List (Event Ops World) → World → Prop}
    (hw : Waiting env b c i h s)
    (hQ : ∀ h' t, Waiting env b c i (h ++ h') t → Q (.ok b.length) (h ++ h') t) :
    Safe (handle env) (racer env b c i) Q (statSize (c i).stagingPath) h s := by
  refine safe_read (o := .statSize _) ⟨rfl, rfl⟩ hw fun s₁ t h' hw₁ ht _ => ?_
  simp only [handle, hw₁.staged, Option.map_some]
  exact fun _ hr => hQ _ _ (ht.rely hr)

theorem safe_sha256File_waiting {Q : Except Err String → List (Event Ops World) → World → Prop}
    (hw : Waiting env b c i h s)
    (hQ : ∀ h' t, Waiting env b c i (h ++ h') t → Q (.ok (env.sha256 b)) (h ++ h') t) :
    Safe (handle env) (racer env b c i) Q (sha256File (c i).stagingPath) h s := by
  refine safe_read (o := .sha256File _) ⟨rfl, rfl⟩ hw fun s₁ t h' hw₁ ht _ => ?_
  simp only [handle, hw₁.staged, Option.map_some]
  exact fun _ hr => hQ _ _ (ht.rely hr)

theorem safe_matchBlockRule_waiting {Q : Except Err (Option (RuleType × String)) →
      List (Event Ops World) → World → Prop} (hw : Waiting env b c i h s)
    (hQ : ∀ h' t, Waiting env b c i (h ++ h') t → Q (.ok none) (h ++ h') t) :
    Safe (handle env) (racer env b c i) Q (matchBlockRule env (c i).originalFilename) h s := by
  refine safe_read (o := .enabledBlockRules) ⟨rfl, rfl⟩ hw fun s₁ t h' hw₁ ht _ => ?_
  have hnone : (handle env .enabledBlockRules s₁).1.find? (ruleMatches env (c i).originalFilename) =
    none := hw₁.racing.rules i
  intro s₂ hr
  have hend := hQ h' s₂ (ht.rely hr)
  rw [← hnone] at hend
  exact hend

/-- A metadata match names the common hash, whose row is pending. -/
theorem safe_prefilterStatus_waiting {Q : Except Err (Option (Status × String)) →
      List (Event Ops World) → World → Prop} (hw : Waiting env b c i h s)
    (hmiss : ∀ h' t, Waiting env b c i (h ++ h') t → Q (.ok none) (h ++ h') t)
    (hhit : ∀ sha h' t, Lost env b (h ++ h') → Q (.ok (some (.pending, sha))) (h ++ h') t) :
    Safe (handle env) (racer env b c i) Q (prefilterStatus (c i)) h s := by
  refine safe_read (o := .prefilterStatus ..) ⟨rfl, rfl⟩ hw fun s₁ t h' hw₁ ht hmem => ?_
  cases hpre : prefiltered (c i) s₁ with
  | none =>
    simp only [prefiltered] at hpre
    simp only [handle, hpre]
    exact fun _ hr => hmiss _ _ (ht.rely hr)
  | some hit =>
    obtain ⟨st, sha⟩ := hit
    obtain rfl := hw₁.racing.hit i st sha hpre
    have hst : st = .pending ∧ s₁.reg.files.get (env.sha256 b) ≠ none := by
      simp only [prefiltered, Registry.prefilterStatus] at hpre
      split at hpre
      · cases hpre
      · split at hpre
        · obtain ⟨row, hget, hrow⟩ := Option.map_eq_some_iff.mp hpre
          obtain ⟨rfl, hsha⟩ := Prod.mk.inj hrow
          rw [hsha] at hget
          exact ⟨hw₁.racing.row row hget, by rw [hget]; simp⟩
        · cases hpre
    obtain ⟨rfl, hrow⟩ := hst
    obtain ⟨e, he, hpreS⟩ := hmem
    simp only [prefiltered] at hpre
    simp only [handle, hpre]
    exact fun _ hr => hhit _ _ _ ⟨⟨e, he, by rw [hpreS]; exact hrow⟩, ht.left⟩

theorem safe_getFile_waiting {Q : Except Err (Option FileRecord) →
      List (Event Ops World) → World → Prop} (hw : Waiting env b c i h s)
    (hnone : ∀ h' t, Waiting env b c i (h ++ h') t → Q (.ok none) (h ++ h') t)
    (hsome : ∀ row h' t, row.status = .pending → Lost env b (h ++ h') →
      Q (.ok (some row)) (h ++ h') t) :
    Safe (handle env) (racer env b c i) Q (getFile (env.sha256 b)) h s := by
  refine safe_read (o := .getFile _) ⟨rfl, rfl⟩ hw fun s₁ t h' hw₁ ht hmem => ?_
  simp only [handle, Registry.getFile]
  cases hrow : s₁.reg.files.get (env.sha256 b) with
  | none => exact fun _ hr => hnone _ _ (ht.rely hr)
  | some row =>
    obtain ⟨e, he, hpre⟩ := hmem
    exact fun _ hr => hsome row _ _ (hw₁.racing.row row hrow)
      ⟨⟨e, he, by rw [hpre, hrow]; simp⟩, ht.left⟩

/-! ## The losing branches -/

theorem Lost.still {h' : List (Event Ops World)} (hl : Lost env b h)
    (hh : LeftOnly none [] (h ++ h')) : Lost env b (h ++ h') := by
  obtain ⟨⟨e, he, hrow⟩, -⟩ := hl
  exact ⟨⟨e, List.mem_append_left _ he, hrow⟩, hh⟩

variable {eng : Engine} {ps : IngestParams} {opId : String}

/-- The unlink of the staged file and the transaction behind it. -/
theorem safe_lost_discard {tx : Tx} {rest : Unit → Flow IngestOutcome} (hl : Lost env b h)
    (hinj : NotStaged c i (c i).stagingPath) (hkeep : tx.keepsFiles = true)
    (hfin : Op.finalizes (.tx tx) = none)
    (hnot : ∀ r r' now, tx.apply r now = .ok r' → Notes (env.sha256 b) r r')
    (hrest : ∀ h' t, Lost env b h' →
      Safe (handle env) (racer env b c i) (Ended env b) (rest ()) h' t) :
    Safe (handle env) (racer env b c i) (Ended env b)
      (unlink (c i).stagingPath >>= fun _ => transact tx >>= rest) h s := by
  refine safe_bind (safe_unlink_left hl.2 hinj fun h₁ s₁ hl₁ => ?_)
  exact safe_bind (safe_transact_left hl₁ (fun _ => fair_tx hkeep hnot) hfin
    (fun h₂ s₂ hl₂ => hrest _ _ ((hl.still hl₁).still hl₂)) fun _ _ _ _ _ => trivial)

theorem safe_discardPrefiltered_lost {sha : String} (hl : Lost env b h)
    (hinj : NotStaged c i (c i).stagingPath) :
    Safe (handle env) (racer env b c i) (Ended env b) (discardPrefiltered (c i) .pending sha) h s :=
  safe_lost_discard hl hinj rfl rfl (fun r r' now h => by cases h; exact notes_audit)
    fun _ _ hl' _ _ => .inr ⟨rfl, hl'⟩

theorem safe_discardKnown_lost {record : FileRecord} (hl : Lost env b h)
    (hst : record.status = .pending)
    (hinj : NotStaged c i (c i).stagingPath) :
    Safe (handle env) (racer env b c i) (Ended env b)
      (discardKnown eng (c i) opId (env.sha256 b) record) h s := by
  unfold discardKnown
  refine safe_bind (safe_left (calls_statSize ⟨rfl, rfl⟩) hl.2 ?_)
  rintro (e | n) h₁ s₁ hl₁
  · exact fun _ _ => trivial
  refine safe_lost_discard (hl.still hl₁) hinj rfl rfl (fun r r' now h => notes_finalizeKnownIngest h)
    fun h₂ s₂ hl₂ => ?_
  refine safe_bind (safe_left (calls_journalAppend fun _ _ => ⟨rfl, rfl⟩) hl₂.2 ?_)
  rintro (e | u) h₃ s₃ hl₃
  · exact fun _ _ => trivial
  · exact fun _ _ => .inr ⟨by rw [outcome, hst], hl₂.still hl₃⟩

/-! ## The winning branch -/

section Commit
variable {d : Path} {Q : Except Err CommitResult → List (Event Ops World) → World → Prop}

theorem safe_commitRename_left (hl : LeftOnly none [] h) (hi : NotStaged c i (c i).stagingPath)
    (hd : NotStaged c i d) (hok : ∀ r h' t, LeftOnly none [d] h' → Q (.ok r) h' t)
    (herr : ∀ e h' t, Q (.error e) h' t) :
    Safe (handle env) (racer env b c i) Q (commitRename (c i).stagingPath d) h s := by
  unfold commitRename
  refine safe_bind (safe_replaceFile_left hl (by simp) hi hd (fun h₁ s₁ hl₁ => ?_)
    fun _ _ _ _ _ => herr _ _ _)
  refine safe_bind (safe_left (calls_statSize ⟨rfl, rfl⟩) hl₁ ?_)
  rintro (e | n) h₂ s₂ hl₂
  · exact fun _ _ => herr _ _ _
  · exact fun _ _ => hok _ _ _ hl₂

/-- The temporary copy is gone again when the commit returns. -/
theorem safe_commitCopy_left (hl : LeftOnly none [] h) (hi : NotStaged c i (c i).stagingPath)
    (hd : NotStaged c i d) (htmp : NotStaged c i (d.addExt ".tmp"))
    (hok : ∀ r h' t, LeftOnly none [d] h' → Q (.ok r) h' t) (herr : ∀ e h' t, Q (.error e) h' t) :
    Safe (handle env) (racer env b c i) Q (commitCopy (c i).stagingPath d) h s := by
  unfold commitCopy
  refine safe_bind (safe_copy2_left hl htmp (fun h₁ s₁ hl₁ => ?_) fun _ _ _ _ _ => herr _ _ _)
  refine safe_bind (safe_left (calls_statSize ⟨rfl, rfl⟩) hl₁ ?_)
  rintro (e | n) h₂ s₂ hl₂
  · exact fun _ _ => herr _ _ _
  refine safe_bind (safe_left (calls_statSize ⟨rfl, rfl⟩) hl₂ ?_)
  rintro (e | m) h₃ s₃ hl₃
  · exact fun _ _ => herr _ _ _
  simp only [thenSafe_ok]
  split
  · exact safe_bind (safe_unlink_left hl₃ htmp fun _ _ _ _ _ => herr _ _ _)
  refine safe_bind (safe_left (calls_sha256File ⟨rfl, rfl⟩) hl₃ ?_)
  rintro (e | x) h₄ s₄ hl₄
  · exact fun _ _ => herr _ _ _
  refine safe_bind (safe_left (calls_sha256File ⟨rfl, rfl⟩) hl₄ ?_)
  rintro (e | y) h₅ s₅ hl₅
  · exact fun _ _ => herr _ _ _
  simp only [thenSafe_ok]
  split
  · exact safe_bind (safe_unlink_left hl₅ htmp fun _ _ _ _ _ => herr _ _ _)
  refine safe_bind (safe_replaceFile_left hl₅ (by simp) htmp hd (fun h₆ s₆ hl₆ => ?_)
    fun _ _ _ _ _ => herr _ _ _)
  exact safe_bind (safe_unlink_left hl₆ hi fun h₇ s₇ hl₇ _ _ => hok _ _ _ hl₇)

theorem safe_commit_left {same : Bool} {root : Option Path} (hl : LeftOnly none [] h)
    (hi : NotStaged c i (c i).stagingPath) (hd : NotStaged c i d)
    (htmp : NotStaged c i (d.addExt ".tmp"))
    (hok : ∀ r h' t, LeftOnly none [d] h' → Q (.ok r) h' t) (herr : ∀ e h' t, Q (.error e) h' t) :
    Safe (handle env) (racer env b c i) Q
      (commitStagingToAccepted (c i).stagingPath d same root) h s := by
  unfold commitStagingToAccepted
  refine safe_bind (safe_left (calls_pathExists ⟨rfl, rfl⟩) hl ?_)
  rintro (e | found) h₁ s₁ hl₁
  · exact fun _ _ => herr _ _ _
  cases found with
  | false => exact fun _ _ => herr _ _ _
  | true =>
    refine safe_bind (safe_left calls_ensureWithin hl₁ ?_)
    rintro (e | u) h₂ s₂ hl₂
    · exact fun _ _ => herr _ _ _
    cases same with
    | false => exact safe_commitCopy_left hl₂ hi hd htmp hok herr
    | true => exact safe_commitRename_left hl₂ hi hd hok herr

end Commit

theorem yields_renderRelativePath {template sha original mt : String}
    (ht : namesFile template = true) (hs : IsSha sha) :
    (renderRelativePath env template sha original mt).Yields (· ≠ []) := by
  unfold renderRelativePath
  refine yields_bind yields_true fun ts _ => ?_
  cases hr : renderStorageRelativePath template sha original ts with
  | error e => trivial
  | ok rel => exact renderStorageRelativePath_ne_nil (hasGood_of_namesFile ht) hs.hasGood hr

theorem yields_tryCollisions {base : Path} : ∀ index n,
    (tryCollisions base index n).Yields fun d => ∀ p, d = some p → Beside base p
  | _, 0 => nofun
  | index, n + 1 => by
    unfold tryCollisions
    refine yields_bind yields_true fun found _ => ?_
    cases found
    · intro p hp
      cases hp
      exact beside_withName _ _
    · exact yields_tryCollisions (index + 1) n

theorem yields_choose {base : Path} {n : Int} (hbase : base ≠ []) :
    (chooseCollisionSafeDestinationWithThreshold base n).Yields (Beside base) := by
  unfold chooseCollisionSafeDestinationWithThreshold
  split
  · trivial
  · refine yields_bind yields_true fun found _ => ?_
    cases found
    · exact beside_self hbase
    · refine yields_bind (yields_tryCollisions _ _) fun d hd => ?_
      cases d with
      | none => trivial
      | some d => exact hd d rfl

theorem safe_ingestUnknown_won (hs : IsSha (env.sha256 b))
    (ht : namesFile ps.storageTemplate = true)
    (hroot : ∀ j, ¬ ps.pendingRoot <+: (c j).stagingPath)
    (hi : NotStaged c i (c i).stagingPath) (hw : Waiting env b c i h s) :
    Safe (handle env) (racer env b c i) (Ended env b)
      (ingestUnknown env eng ps (c i) opId (env.sha256 b)) h s := by
  have hbelow : ∀ p, ps.pendingRoot <+: p → NotStaged c i p := fun p hp j _ hj =>
    hroot j (hj ▸ hp)
  unfold ingestUnknown
  refine safe_bind (safe_mono ?_ (safe_yields (yields_renderRelativePath ht hs)
    (safe_left (Q := fun _ h _ => LeftOnly none [] h) (calls_renderRelativePath ⟨rfl, rfl⟩) hw.left
      fun _ _ _ hl => hl)))
  rintro (e | rel) h₁ s₁ ⟨hl₁, hrel⟩
  · exact fun _ _ => trivial
  have hrel : rel ≠ [] := hrel rel rfl
  refine safe_bind (safe_mono ?_ (safe_yields (yields_choose (by simp [hrel]))
    (safe_left (Q := fun _ h _ => LeftOnly none [] h) (calls_choose fun _ => ⟨rfl, rfl⟩) hl₁
      fun _ _ _ hl => hl)))
  rintro (e | d) h₂ s₂ ⟨hl₂, hd⟩
  · exact fun _ _ => trivial
  have hd : Beside (ps.pendingRoot ++ rel) d := hd d rfl
  refine safe_bind (safe_commit_left hl₂ hi (hbelow _ (hd.within hrel))
    (hbelow _ ((hd.addExt _).within hrel)) ?_ fun _ _ _ _ _ => trivial)
  intro r h₃ s₃ hl₃
  refine safe_bind (safe_left (calls_journalAppend fun _ _ => ⟨rfl, rfl⟩) hl₃ ?_)
  rintro (e | u) h₄ s₄ hl₄
  · exact fun _ _ => trivial
  refine safe_bind (safe_left (calls_statSize ⟨rfl, rfl⟩) hl₄ ?_)
  rintro (e | n) h₅ s₅ hl₅
  · exact fun _ _ => trivial
  refine safe_bind (safe_finalize_left hl₅ (fun h₆ s₆ hl₆ hfin => ?_) fun _ _ _ _ _ => trivial)
  obtain ⟨e, he, hop⟩ := hfin
  refine safe_bind (safe_left (calls_journalAppend fun _ _ => ⟨rfl, rfl⟩) hl₆ ?_)
  rintro (e' | u) h₇ s₇ hl₇
  · exact fun _ _ => trivial
  · exact fun _ _ => .inl ⟨rfl, d, ⟨e, List.mem_append_left _ he, hop⟩, hl₇⟩

/-! ## The whole call -/

theorem safe_processOne_ended (hs : IsSha (env.sha256 b))
    (ht : namesFile ps.storageTemplate = true)
    (hroot : ∀ j, ¬ ps.pendingRoot <+: (c j).stagingPath)
    (hi : NotStaged c i (c i).stagingPath) (hadm : Admitted ps (c i) b.length)
    (hw : Waiting env b c i h s) :
    Safe (handle env) (racer env b c i) (Ended env b) (processOne env eng ps (c i)) h s := by
  unfold processOne
  refine safe_bind (safe_waiting (.op ⟨rfl, rfl⟩ fun _ => .ret) hw ?_)
  rintro (e | uuid) h₁ s₁ hw₁
  · exact fun _ _ => trivial
  refine safe_bind (safe_waiting (calls_journalAppend fun _ _ => ⟨rfl, rfl⟩) hw₁ ?_)
  rintro (e | u) h₂ s₂ hw₂
  · exact fun _ _ => trivial
  refine safe_bind (safe_pathExists_waiting hw₂ fun h₃ s₃ hw₃ => ?_)
  simp only [thenSafe_ok, if_true]
  refine safe_bind (safe_statSize_waiting hw₃ fun h₄ s₄ hw₄ => ?_)
  have hzero : ∀ policy, policy ≠ .allow → ¬ (b.length = 0 ∧ ps.zeroBytePolicy = policy) := by
    rintro policy hne ⟨h0, rfl⟩
    exact hne (hadm.2 h0)
  simp only [thenSafe_ok, hadm.1, Bool.false_eq_true, if_false]
  rw [if_neg (hzero .reject (by simp)), if_neg (hzero .quarantine (by simp))]
  unfold decideStaged
  refine safe_bind (safe_prefilterStatus_waiting hw₄ (fun h₅ s₅ hw₅ => ?_)
    fun sha h₅ s₅ hl₅ => safe_discardPrefiltered_lost hl₅ hi)
  simp only [thenSafe_ok, decideByHash]
  refine safe_bind (safe_sha256File_waiting hw₅ fun h₆ s₆ hw₆ => ?_)
  refine safe_bind (safe_waiting (calls_journalAppend fun _ _ => ⟨rfl, rfl⟩) hw₆ ?_)
  rintro (e | u) h₇ s₇ hw₇
  · exact fun _ _ => trivial
  refine safe_bind (safe_matchBlockRule_waiting hw₇ fun h₈ s₈ hw₈ => ?_)
  exact safe_bind (safe_getFile_waiting hw₈
    (fun h₉ s₉ hw₉ => safe_ingestUnknown_won hs ht hroot hi hw₉)
    fun row h₉ s₉ hst hl₉ => safe_discardKnown_lost hl₉ hst hi)

end Calls

/-! ## The whole run -/

section Runs
variable {ι : Type} [DecidableEq ι] {env : Env} {b : Bytes} {c : ι → StagedCandidate}
  {P P' : Pool ι Ops Err fun _ => IngestOutcome} {s s' : World} {t : List (ι × Event Ops World)}

/-- Once the hash has its row, nobody finalizes and the row stays. -/
theorem row_stays (hrun : Run (handle env) P s t P' s')
    (hfair : ∀ e ∈ t, RacesFairly env b c e.1 e.2.op e.2.pre e.2.post)
    (hcond : ∀ e ∈ t, e.2.op.finalizes ≠ none → e.2.pre.reg.files.get (env.sha256 b) = none) :
    ∀ row, s.reg.files.get (env.sha256 b) = some row →
      s'.reg.files.get (env.sha256 b) = some row ∧ ∀ e ∈ t, e.2.op.finalizes = none := by
  induction hrun with
  | refl P s => exact fun row hrow => ⟨hrow, List.forall_mem_nil _⟩
  | @step P₀ _ s₀ _ t j o k hop rest ih =>
    intro row hrow
    have hmem : (j, (⟨o, s₀, (handle env o s₀).2⟩ : Event Ops World)) ∈
        (j, (⟨o, s₀, (handle env o s₀).2⟩ : Event Ops World)) :: t := List.mem_cons_self
    have hhead : o.finalizes = none := by
      by_contra hne
      have hnone : s₀.reg.files.get (env.sha256 b) = none := hcond _ hmem hne
      rw [hrow] at hnone
      cases hnone
    have hkeep := (hfair _ hmem).row hhead
    obtain ⟨hend, hnone⟩ := ih (fun e he => hfair e (.tail _ he)) (fun e he => hcond e (.tail _ he))
      row (hkeep.trans hrow)
    exact ⟨hend, List.forall_mem_cons.mpr ⟨hhead, hnone⟩⟩

/-- From an unknown hash: nobody finalizes and nobody ever sees a row, or one
call does, and its destination is the path of the row at the end. -/
theorem finalized_once (hrun : Run (handle env) P s t P' s')
    (hfair : ∀ e ∈ t, RacesFairly env b c e.1 e.2.op e.2.pre e.2.post)
    (hcond : ∀ e ∈ t, e.2.op.finalizes ≠ none → e.2.pre.reg.files.get (env.sha256 b) = none) :
    s.reg.files.get (env.sha256 b) = none →
      ((∀ e ∈ t, e.2.op.finalizes = none ∧ e.2.pre.reg.files.get (env.sha256 b) = none) ∨
        ∃ j d row, s'.reg.files.get (env.sha256 b) = some row ∧ row.currentPath = some d ∧
          (∃ e ∈ t, e.1 = j ∧ e.2.op.finalizes = some d) ∧
          ∀ e ∈ t, e.2.op.finalizes ≠ none → e.1 = j ∧ e.2.op.finalizes = some d) := by
  induction hrun with
  | refl P s => exact fun _ => .inl (List.forall_mem_nil _)
  | @step P₀ _ s₀ _ t j o k hop rest ih =>
    intro hrow
    have hfair' : ∀ e ∈ t, RacesFairly env b c e.1 e.2.op e.2.pre e.2.post :=
      fun e he => hfair e (.tail _ he)
    have hcond' : ∀ e ∈ t, e.2.op.finalizes ≠ none →
        e.2.pre.reg.files.get (env.sha256 b) = none := fun e he => hcond e (.tail _ he)
    have hmem : (j, (⟨o, s₀, (handle env o s₀).2⟩ : Event Ops World)) ∈
        (j, (⟨o, s₀, (handle env o s₀).2⟩ : Event Ops World)) :: t := List.mem_cons_self
    cases hfin : o.finalizes with
    | some d =>
      -- this step writes the row, and nobody finalizes behind it
      obtain ⟨row, hget, -, hpath⟩ := (hfair _ hmem).finalized d hfin
      obtain ⟨hend, hnone⟩ := row_stays rest hfair' hcond' row hget
      refine .inr ⟨j, d, row, hend, hpath, ⟨_, hmem, rfl, hfin⟩, ?_⟩
      refine List.forall_mem_cons.mpr ⟨fun _ => ⟨rfl, hfin⟩, fun e he hne => ?_⟩
      exact absurd (hnone e he) hne
    | none =>
      have hkeep := (hfair _ hmem).row hfin
      rcases ih hfair' hcond' (hkeep.trans hrow) with hnone | ⟨j', d, row, hend, hpath, hex, hall⟩
      · exact .inl (List.forall_mem_cons.mpr ⟨⟨hfin, hrow⟩, hnone⟩)
      · obtain ⟨e, he, hej, hed⟩ := hex
        refine .inr ⟨j', d, row, hend, hpath, ⟨e, .tail _ he, hej, hed⟩, ?_⟩
        exact List.forall_mem_cons.mpr ⟨fun hne => absurd hfin hne, hall⟩

/-- A file that is not as it was at the start was left by the last call that
changed it. -/
theorem left_of_changed {p : Path} (hrun : Run (handle env) P s t P' s') :
    (s'.fs.get p = s.fs.get p ∧ ∀ e ∈ t, e.2.post.fs.get p = e.2.pre.fs.get p) ∨
      ∃ j, ∀ v, (own j t).foldl (fun v e => if e.post.fs.get p = e.pre.fs.get p then v
        else (e.post.fs.get p).isSome) v = (s'.fs.get p).isSome := by
  induction hrun with
  | refl P s => exact .inl ⟨rfl, List.forall_mem_nil _⟩
  | @step P₀ _ s₀ _ t i o k hop rest ih =>
    rcases ih with ⟨hsame, hno⟩ | ⟨j, hj⟩
    · by_cases hstep : (handle env o s₀).2.fs.get p = s₀.fs.get p
      · exact .inl ⟨hsame.trans hstep, List.forall_mem_cons.mpr ⟨hstep, hno⟩⟩
      · refine .inr ⟨i, fun v => ?_⟩
        have hrest : ∀ h : List (Event Ops World), (∀ e ∈ h, e.post.fs.get p = e.pre.fs.get p) →
            ∀ v, h.foldl (fun v e => if e.post.fs.get p = e.pre.fs.get p then v
              else (e.post.fs.get p).isSome) v = v := by
          intro h hh v
          induction h generalizing v with
          | nil => rfl
          | cons e h ih' =>
            rw [List.foldl_cons, if_pos (hh e List.mem_cons_self)]
            exact ih' (fun e' he' => hh e' (.tail _ he')) v
        rw [own_cons_self, List.foldl_cons]
        simp only [if_neg hstep]
        rw [hrest _ fun e he => hno (i, e) (mem_own.mp he), hsame]
    · refine .inr ⟨j, fun v => ?_⟩
      by_cases hij : i = j
      · subst hij
        rw [own_cons_self, List.foldl_cons]
        exact hj _
      · rw [own_cons_ne hij]
        exact hj v

end Runs

/-- In every interleaving of calls over copies of one unknown content in which
every finalize still finds no row: when all have returned, one of them returned
`pending`, the others `discard_pending`, and every file that is new is the path
of a row. -/
theorem duplicates_ingested_once {ι : Type} [DecidableEq ι] [Nonempty ι] (env : Env)
    (eng : ι → Engine) (ps : ι → IngestParams) (c : ι → StagedCandidate) (b : Bytes)
    (P' : Pool ι Ops Err fun _ => IngestOutcome) (s s' : World) (t : List (ι × Event Ops World))
    (hsha : IsSha (env.sha256 b)) (htemplate : ∀ i, namesFile (ps i).storageTemplate = true)
    (hroot : ∀ i j, ¬ (ps i).pendingRoot <+: (c j).stagingPath)
    (hpaths : Function.Injective fun i => (c i).stagingPath)
    (hstaged : ∀ i, s.fs.get (c i).stagingPath = some b)
    (hunknown : s.reg.files.get (env.sha256 b) = none)
    (hadm : ∀ i, Admitted (ps i) (c i) b.length) (hblock : ∀ i, blockedBy env (c i) s = none)
    (hpre : ∀ i, prefiltered (c i) s = none)
    (hrun : Run (handle env) (fun i => processOne env (eng i) (ps i) (c i)) s t P' s')
    (hdone : ∀ i, ∃ out, (P' i).result = some (.ok out))
    (hcond : ∀ e ∈ t, e.2.op.finalizes ≠ none → e.2.pre.reg.files.get (env.sha256 b) = none) :
    ∃ i, (∃ out, (P' i).result = some (.ok out) ∧ out.action = .pending) ∧
      (∀ j, j ≠ i → ∃ out, (P' j).result = some (.ok out) ∧ out.action = .discard .pending) ∧
      ∀ p, s'.fs.get p ≠ none → s'.fs.get p ≠ s.fs.get p → Named s'.reg p := by
  have hpar : ∀ i j, i ≠ j → ∀ (h : List (Event Ops World)) (o : Op) (s t : World),
      (racer env b c j).guar o s t → (racer env b c i).rely h s t :=
    fun i j hij h o s t hg => ⟨hg.racing, hg.staged i hij⟩
  have hracing : Racing env b c s := by
    refine ⟨hblock, fun i st sha hit => ?_, fun row hrow => ?_⟩
    · rw [hpre i] at hit; cases hit
    · rw [hunknown] at hrow; cases hrow
  have hwait : ∀ i, Waiting env b c i [] s := fun i =>
      ⟨hracing, hstaged i, nofun, List.forall_mem_nil _⟩
  obtain ⟨hfair, hsafe⟩ := parallel (C := racer env b c) (Q := fun _ => Ended env b) hpar hrun
    (h := fun _ => []) (fun i => safe_processOne_ended hsha (htemplate i) (hroot i)
      (fun j hj h => hj (hpaths h)) (hadm i) (hwait i)) (conds_of_forall fun _ _ _ => trivial)
  have hended : ∀ i out, (P' i).result = some (.ok out) →
      (out.action = .pending ∧ Won (own i t)) ∨
        (out.action = .discard .pending ∧ Lost env b (own i t)) := fun i out hout => by
    simpa [Ended] using (hsafe i).result hout
  rcases finalized_once hrun hfair hcond hunknown with hnone | ⟨w, d, row, hrow, hpath, hex, hall⟩
  · -- nobody finalized: then nobody can have returned
    obtain ⟨i⟩ := ‹Nonempty ι›
    obtain ⟨out, hout⟩ := hdone i
    rcases hended i out hout with ⟨-, d, ⟨e, he, hfin⟩, -⟩ | ⟨-, ⟨e, he, hseen⟩, -⟩
    · rw [(hnone (i, e) (mem_own.mp he)).1] at hfin
      cases hfin
    · exact absurd (hnone (i, e) (mem_own.mp he)).2 hseen
  · have hpending : ∀ i out, (P' i).result = some (.ok out) → out.action = .pending → i = w := by
      intro i out hout hact
      rcases hended i out hout with ⟨-, d', ⟨e, he, hfin⟩, -⟩ | ⟨hdis, -⟩
      · exact (hall (i, e) (mem_own.mp he) (by simp [hfin])).1
      · rw [hact] at hdis
        cases hdis
    refine ⟨w, ?_, fun j hj => ?_, fun p hp hchanged => ?_⟩
    · -- the call that finalized did not lose
      obtain ⟨out, hout⟩ := hdone w
      obtain ⟨e, he, rfl, hfin⟩ := hex
      rcases hended e.1 out hout with ⟨hact, -⟩ | ⟨-, -, hleft⟩
      · exact ⟨out, hout, hact⟩
      · cases hleft.fin e.2 (mem_own.mpr he) d hfin
    · obtain ⟨out, hout⟩ := hdone j
      rcases hended j out hout with ⟨hact, -⟩ | ⟨hact, -⟩
      · exact absurd (hpending j out hout hact) hj
      · exact ⟨out, hout, hact⟩
    · -- the last call to change the file left it there, so it won and finalized it
      rcases left_of_changed (p := p) hrun with ⟨hsame, -⟩ | ⟨j, hj⟩
      · exact absurd hsame hchanged
      have hleft : leftAt (own j t) p = true := by
        rw [leftAt, hj]
        exact Option.isSome_iff_ne_none.mpr hp
      obtain ⟨out, hout⟩ := hdone j
      rcases hended j out hout with ⟨-, d', ⟨e, he, hfin⟩, hl⟩ | ⟨-, -, hl⟩
      · have hd := (hall (j, e) (mem_own.mp he) (by simp [hfin])).2
        rw [hfin] at hd
        cases hd
        obtain rfl : p = d := by simpa using hl.left p hleft
        exact ⟨_, row, hrow, hpath⟩
      · cases hl.left p hleft

/-! ## Two copies of one photo -/

def copyCandidates (i : Bool) : StagedCandidate :=
  if i then sampleCandidate "id2" ["staging", "y"] else sampleCandidate "id1" ["staging", "x"]

def copiesStaged : World :=
  sampleWorld [(["staging", "x"], [97]), (["staging", "y"], [97])] Registry.empty

def copyWorkers : Pool Bool Ops Err fun _ => IngestOutcome := fun i =>
  processOne sampleEnv ⟨none⟩ sampleParams (copyCandidates i)

/-- One call after the other. -/
def copiesInTurn :
    List (Bool × Event Ops World) × Pool Bool Ops Err (fun _ => IngestOutcome) × World :=
  exec (handle sampleEnv) (List.replicate 13 false ++ List.replicate 10 true) copyWorkers copiesStaged

theorem copies_in_turn_ingested_once :
    ∃ i, (∃ out, (copiesInTurn.2.1 i).result = some (.ok out) ∧ out.action = .pending) ∧
      (∀ j, j ≠ i → ∃ out, (copiesInTurn.2.1 j).result = some (.ok out) ∧
        out.action = .discard .pending) ∧
      ∀ p, copiesInTurn.2.2.fs.get p ≠ none → copiesInTurn.2.2.fs.get p ≠ copiesStaged.fs.get p →
        Named copiesInTurn.2.2.reg p := by
  have hcond : ∀ e ∈ copiesInTurn.1, e.2.op.finalizes.isSome = true →
      e.2.pre.reg.files.get (sampleEnv.sha256 [97]) = none := by decide +kernel
  have hdone : ∀ i, ((copiesInTurn.2.1 i).result.map fun r => r.toOption.isSome) = some true := by
    decide +kernel
  refine duplicates_ingested_once sampleEnv (fun _ => ⟨none⟩) (fun _ => sampleParams) copyCandidates
    [97] copiesInTurn.2.1 copiesStaged copiesInTurn.2.2 copiesInTurn.1 (sampleEnv_isSha _)
    (fun _ => by decide +kernel) (fun _ j => by cases j <;> decide) ?_ (fun j => by cases j <;> rfl)
    rfl (fun j => by cases j <;> decide) (fun _ => rfl) (fun _ => rfl) (exec_run _ _ _ _)
    (fun i => ?_) fun e he hne => hcond e he (Option.isSome_iff_ne_none.mpr hne)
  · rintro (_ | _) (_ | _) h
    · rfl
    · exact absurd h (by decide)
    · exact absurd h (by decide)
    · rfl
  · obtain ⟨r, hr, hok⟩ := Option.map_eq_some_iff.mp (hdone i)
    cases r with
    | ok out => exact ⟨out, hr⟩
    | error e => cases hok

/-- Both look the hash up before either finalizes. -/
def copiesAtOnce :
    List (Bool × Event Ops World) × Pool Bool Ops Err (fun _ => IngestOutcome) × World :=
  exec (handle sampleEnv) (List.replicate 7 false ++ List.replicate 7 true ++
    List.replicate 6 false ++ List.replicate 7 true) copyWorkers copiesStaged

/-- Both calls return `pending`, and the file of the first is no row's path. -/
theorem duplicates_race :
    Run (handle sampleEnv) copyWorkers copiesStaged copiesAtOnce.1 copiesAtOnce.2.1
      copiesAtOnce.2.2 ∧
    (∀ i, ((copiesAtOnce.2.1 i).result.map fun r => r.toOption.map (·.action)) =
      some (some .pending)) ∧
    copiesAtOnce.2.2.fs.get ["lib", "pending", "2024", "01", "IMG.JPG"] = some [97] ∧
    ¬ Named copiesAtOnce.2.2.reg ["lib", "pending", "2024", "01", "IMG.JPG"] := by
  refine ⟨exec_run _ _ _ _, by decide +kernel, by decide +kernel, ?_⟩
  rintro ⟨sha, row, hrow, hpath⟩
  have hrows : ∀ k ∈ copiesAtOnce.2.2.reg.files.keys,
      (copiesAtOnce.2.2.reg.files.get k).bind (·.currentPath) ≠
        some ["lib", "pending", "2024", "01", "IMG.JPG"] := by decide +kernel
  refine hrows sha ((Table.mem_keys_iff _ sha).mpr ⟨row, hrow⟩) ?_
  rw [hrow]
  exact hpath

end Nightfall
