import Nightfall.Core.Confluence
import Nightfall.L4System.Reingest
import Nightfall.L6Concurrency.Accounting

/-!
# Size-aware scheduling (`domain/ingest.py`)

With `size_aware_scheduling` the candidates of a batch are processed largest
first, else in the order they came in. What a call decides depends on its staged
file, its item's row of the index and the block rules, which no other call of the
batch changes, and on the status of two hashes, which another call may change. A
call with another declared size sets the status of neither: the bytes it hashes
have that size, and so do the bytes the index row was written for.

* `verdict`: what `_process_one` reports and does to the statuses, from what it
  meets. `wp_processOne_decides`: the flow does that.
* `ruled_keyed`, `ruled_commute`: calls with different declared sizes commute.
* `schedules_agree`: both schedules report the same and leave the same statuses.
-/
namespace Nightfall
open Nightfall.Core Storage Prog

/-- What `process_batch` reports of a candidate, less the destination. -/
structure Report where
  action : IngestAction
  sha256 : Option String
  prefilterHit : Bool
  deriving DecidableEq, Repr

def IngestOutcome.report (out : IngestOutcome) : Report :=
  ⟨out.action, out.sha256, out.prefilterHit⟩

/-! ## The decision, from what a call meets -/

abbrev Statuses := String → Option Status

def setStatus (σ : Statuses) (sha : String) (st : Status) : Statuses :=
  fun k => if k = sha then some st else σ k

/-- What a call meets that no other call of the batch changes. -/
structure Sighting where
  staged : Option Bytes
  indexed : Option MetadataRow
  blocked : Option (RuleType × String)

def sighted (env : Env) (w : World) (c : StagedCandidate) : Sighting :=
  ⟨w.fs.get c.stagingPath, w.reg.metadataIndex.get (c.accountName, c.onedriveId),
    blockedBy env c w⟩

/-- The prefilter's answer. -/
def Sighting.hit (v : Sighting) (c : StagedCandidate) (σ : Statuses) : Option (Status × String) :=
  match v.indexed with
  | none => none
  | some m =>
    if m.sizeBytes = c.sizeBytes.getD (-1) ∧ m.modifiedTime = c.modifiedTime then
      (σ m.sha256).map fun st => (st, m.sha256)
    else none

/-- From the hash on. -/
def hashVerdict (sha : String) (blocked : Option (RuleType × String)) (σ : Statuses) :
    Report × Statuses :=
  match blocked, σ sha with
  | some _, _ => (⟨.discard .rejected, some sha, false⟩, setStatus σ sha .rejected)
  | none, none => (⟨.pending, some sha, false⟩, setStatus σ sha .pending)
  | none, some st => (⟨.discard st, some sha, false⟩, σ)

/-- The report of a call and the statuses behind it. -/
def verdict (env : Env) (ps : IngestParams) (c : StagedCandidate) (v : Sighting) (σ : Statuses) :
    Report × Statuses :=
  match v.staged with
  | none => (⟨.missingStaged, none, false⟩, σ)
  | some b =>
    if Admitted ps c b.length then
      match v.hit c σ with
      | some (st, sha) => (⟨.discard st, some sha, true⟩, σ)
      | none => hashVerdict (env.sha256 b) v.blocked σ
    else (⟨refusal ps c b.length, none, false⟩, σ)

section Verdict
variable {env : Env} {eng : Engine} {ps : IngestParams} {c : StagedCandidate} {w w' : World}
  {opId sha : String} {b : Bytes}

theorem sighted_still (h : Still w w') (c : StagedCandidate) :
    sighted env w' c = sighted env w c := by
  rw [sighted, sighted, h.fs, blockedBy_still h, h.reg]

theorem hit_sighted : (sighted env w c).hit c w.reg.statusOf = prefiltered c w := by
  unfold Sighting.hit prefiltered Registry.prefilterStatus sighted
  cases w.reg.metadataIndex.get (c.accountName, c.onedriveId) with
  | none => rfl
  | some m =>
    simp only [Registry.statusOf, Option.map_map]
    rfl

theorem statusOf_put {row : FileRecord} {r r' : Registry} {st : Status}
    (h : r'.files = r.files.put sha row) (hst : row.status = st) :
    r'.statusOf = setStatus r.statusOf sha st := by
  funext k
  rw [Registry.statusOf_of_put h, hst]
  rfl

theorem statusOf_files {r r' : Registry} (h : r'.files = r.files) : r'.statusOf = r.statusOf :=
  funext (Registry.statusOf_of_files h)

/-! ## The unknown branch, in either mode -/

/-- A commit touches the source, the destination and the name of the copy. -/
theorem wp_commit_frame {source destination : Path} {same : Bool} {root : Option Path} {b : Bytes}
    (hb : w.fs.get source = some b) :
    (commitStagingToAccepted source destination same root).Wp (handle env) w (onOk fun _ w' =>
      ∀ p, p ≠ source → p ≠ destination → p ≠ destination.addExt ".tmp" →
        w'.fs.get p = w.fs.get p) := by
  have hmove : (if same then commitRename source destination else commitCopy source destination).Wp
      (handle env) w (onOk fun _ w' => ∀ p, p ≠ source → p ≠ destination →
        p ≠ destination.addExt ".tmp" → w'.fs.get p = w.fs.get p) := by
    cases same with
    | true =>
      refine wp_bind.mpr (wp_replaceFile hb fun w' hfs _ => ?_)
      refine wp_bind.mpr ((wp_statSize (b := b) (by simp [hfs])).mpr (wp_ret.mpr ?_))
      intro p hs hd _
      rw [hfs, Table.get_put, if_neg hd, Table.get_drop, if_neg hs]
    | false =>
      refine wp_commitCopy hb (fun _ _ => trivial) fun r w' hfs _ p hs hd ht => ?_
      rw [hfs, Table.get_drop, if_neg hs, Table.get_put, if_neg hd, Table.get_drop, if_neg ht,
        Table.get_put, if_neg ht]
  unfold commitStagingToAccepted
  refine wp_bind.mpr (wp_pathExists.mpr ?_)
  simp only [thenWp_ok, hb, Option.isSome_some, if_true]
  refine wp_bind.mpr ?_
  cases root with
  | none => exact wp_ret.mpr hmove
  | some root =>
    simp only [ensureWithin, ensureWithinRoot]
    split
    · exact wp_ret.mpr hmove
    · exact wp_err.mpr trivial

/-- Neither the pending root nor the quarantine has the path. -/
def Outside (pendingRoot : Path) (quarantineDir : Option Path) (p : Path) : Prop :=
  ¬ pendingRoot <+: p ∧ ∀ d, quarantineDir = some d → ¬ d <+: p

theorem wp_ingestUnknown_frame (ht : namesFile ps.storageTemplate = true) (hs : IsSha sha)
    (hb : w.fs.get c.stagingPath = some b) :
    (ingestUnknown env eng ps c opId sha).Wp (handle env) w (onOk fun out w' =>
      out.report = ⟨.pending, some sha, false⟩ ∧
      w'.reg.statusOf = setStatus w.reg.statusOf sha .pending ∧
      ∀ p, p ≠ c.stagingPath → Outside ps.pendingRoot ps.quarantineDir p →
        w'.fs.get p = w.fs.get p) := by
  unfold ingestUnknown
  refine wp_bind.mpr (wp_renderRelativePath ht hs (fun rel w₁ h₁ hrel => ?_) fun _ _ _ => trivial)
  refine wp_bind.mpr (wp_choose (by simp [hrel]) (fun d hfree hd => ?_) fun _ => trivial)
  have hb₁ : w₁.fs.get c.stagingPath = some b := by rw [h₁.fs, hb]
  have hne : d ≠ c.stagingPath := by
    intro h
    rw [h, hb₁] at hfree
    cases hfree
  refine wp_bind.mpr (wp_mono (fun r w₂ h₂ => ?_) (wp_and (wp_commit_frame hb₁) (wp_commit hb₁ hne
    (Q := onOk fun _ w₂ => w₂.fs.get d = some b ∧ w₂.reg = w₁.reg)
    (fun _ _ hd _ hreg => ⟨hd, hreg⟩) fun _ => trivial)))
  cases r with
  | error e => trivial
  | ok r =>
    obtain ⟨hframe, hdest, hreg₂⟩ := h₂
    refine wp_bind.mpr (wp_journalAppend fun w₃ h₃ => ?_)
    refine wp_bind.mpr ((wp_statSize (b := b) (by rw [h₃.fs, hdest])).mpr ?_)
    refine wp_bind.mpr (wp_transact (fun r now w₄ hr hfs₄ hreg₄ => ?_) fun _ _ _ _ _ _ => trivial)
    refine wp_bind.mpr (wp_journalAppend fun w₅ h₅ => wp_ret.mpr ⟨rfl, ?_, fun p hp hout => ?_⟩)
    · obtain ⟨row, hst, -, hf⟩ := Registry.files_finalizeUnknownIngest hr
      refine statusOf_put ?_ hst
      rw [h₅.reg, hreg₄, hf, h₃.reg, hreg₂, h₁.reg]
    · rw [h₅.fs, hfs₄, h₃.fs, hframe p hp, h₁.fs]
      · intro h
        exact hout.1 (h ▸ hd.within hrel)
      · intro h
        exact hout.1 (h ▸ (hd.addExt _).within hrel)

/-! ## The flow decides so -/

/-- The statuses, the report and the files elsewhere. -/
def Decides (env : Env) (ps : IngestParams) (c : StagedCandidate) (w : World)
    (out : IngestOutcome) (w' : World) : Prop :=
  verdict env ps c (sighted env w c) w.reg.statusOf = (out.report, w'.reg.statusOf) ∧
    ∀ p, p ≠ c.stagingPath → Outside ps.pendingRoot ps.quarantineDir p → w'.fs.get p = w.fs.get p

theorem Decides.still {w₁ : World} {out : IngestOutcome} (hw : Still w w₁)
    (h : Decides env ps c w₁ out w') : Decides env ps c w out w' := by
  rw [Decides, sighted_still hw, hw.reg, hw.fs] at h
  exact h

/-- The staged file goes and the statuses stay or one is set. -/
theorem Decides.unstaged {out : IngestOutcome} (hfs : Unstaged c w w')
    (h : verdict env ps c (sighted env w c) w.reg.statusOf = (out.report, w'.reg.statusOf)) :
    Decides env ps c w out w' := by
  refine ⟨h, fun p hp _ => ?_⟩
  rw [hfs, Table.get_drop, if_neg hp]

theorem verdict_admitted (hb : w.fs.get c.stagingPath = some b) (hadm : Admitted ps c b.length) :
    verdict env ps c (sighted env w c) w.reg.statusOf = match prefiltered c w with
      | some (st, sha) => (⟨.discard st, some sha, true⟩, w.reg.statusOf)
      | none => hashVerdict (env.sha256 b) (blockedBy env c w) w.reg.statusOf := by
  rw [verdict, hit_sighted]
  simp only [sighted, hb, if_pos hadm]

theorem wp_decideByHash_decides (hsha : ∀ b, IsSha (env.sha256 b))
    (ht : namesFile ps.storageTemplate = true) (hb : w.fs.get c.stagingPath = some b)
    (hadm : Admitted ps c b.length) (hmiss : prefiltered c w = none) :
    (decideByHash env eng ps c opId b.length).Wp (handle env) w (onOk (Decides env ps c w)) := by
  have hverdict : verdict env ps c (sighted env w c) w.reg.statusOf = match prefiltered c w with
      | some (st, sha) => (⟨.discard st, some sha, true⟩, w.reg.statusOf)
      | none => hashVerdict (env.sha256 b) (blockedBy env c w) w.reg.statusOf :=
    verdict_admitted hb hadm
  rw [hmiss] at hverdict
  refine wp_decideByHash hb (fun w₁ rule h₁ hrule => ?_) (fun w₁ h₁ hrule hnone => ?_)
    fun w₁ record h₁ hrule hrow => ?_
  · refine wp_rejectBlocked fun w₂ row hun hst _ hf => Decides.still h₁ (.unstaged hun ?_)
    rw [sighted_still h₁, h₁.reg, hverdict, hrule]
    rw [h₁.reg] at hf
    rw [statusOf_put hf hst]
    rfl
  · refine wp_mono (fun r w₂ h => ?_) (wp_ingestUnknown_frame ht (hsha b) (by rw [h₁.fs, hb]))
    cases r with
    | error e => trivial
    | ok out =>
      obtain ⟨hrep, hstatus, hframe⟩ := h
      refine Decides.still h₁ ⟨?_, hframe⟩
      rw [sighted_still h₁, h₁.reg, hverdict, hrule, hrep, hstatus, h₁.reg]
      simp [hashVerdict, Registry.statusOf, hnone]
  · refine wp_discardKnown (by rw [h₁.fs, hb]) (by rw [h₁.reg, hrow]) fun w₂ hun hf =>
      Decides.still h₁ (.unstaged hun ?_)
    rw [sighted_still h₁, statusOf_files hf, h₁.reg, hverdict, hrule]
    simp [hashVerdict, Registry.statusOf, hrow, outcome, IngestOutcome.report]

/-- A call that returns has decided so. -/
theorem wp_processOne_decides (hsha : ∀ b, IsSha (env.sha256 b))
    (ht : namesFile ps.storageTemplate = true) :
    (processOne env eng ps c).Wp (handle env) w (onOk (Decides env ps c w)) := by
  refine wp_processOne (fun w' hnone hw => ?_) (fun b a w' hb hadm ha hreg hfs => ?_)
    fun b opId w' hb hadm hw => ?_
  · refine ⟨?_, fun p _ _ => by rw [hw.fs]⟩
    rw [hw.reg]
    simp only [verdict, sighted, hnone]
    rfl
  · have hverdict : verdict env ps c (sighted env w c) w.reg.statusOf =
        ((outcome c a none none false).report, w'.reg.statusOf) := by
      rw [hreg, ha]
      simp only [verdict, sighted, hb, if_neg hadm]
      rfl
    rcases hfs with hun | ⟨d, target, hd, htarget, -, hfs⟩
    · exact .unstaged hun hverdict
    · refine ⟨hverdict, fun p hp hout => ?_⟩
      rw [hfs, Table.get_put, Table.get_drop, if_neg hp, if_neg]
      intro h
      exact hout.2 d hd (h ▸ htarget)
  · have hb' : w'.fs.get c.stagingPath = some b := by rw [hw.fs, hb]
    refine wp_mono (fun r w₁ h => ?_) (wp_decideStaged (w := w') (Q := onOk (Decides env ps c w'))
      (fun st sha hpre => ?_) fun hmiss => wp_decideByHash_decides hsha ht hb' hadm hmiss)
    · cases r with
      | error e => trivial
      | ok out => exact Decides.still hw h
    · refine wp_discardPrefiltered fun w₁ hun hf => .unstaged hun ?_
      rw [verdict_admitted hb' hadm, hpre, statusOf_files hf]
      rfl

end Verdict

/-! ## The other calls -/

def StagedCandidate.item (c : StagedCandidate) : String × String := (c.accountName, c.onedriveId)

/-- A call decides, and another candidate meets what it met before. -/
structure Ingests (env : Env) (ps : IngestParams) (c : StagedCandidate) (w : World)
    (out : IngestOutcome) (w' : World) : Prop where
  decides : Decides env ps c w out w'
  others : ∀ d : StagedCandidate, d.stagingPath ≠ c.stagingPath → d.item ≠ c.item →
    Outside ps.pendingRoot ps.quarantineDir d.stagingPath → sighted env w' d = sighted env w d

/-- The candidates of a batch do not get in each other's way. -/
structure Separate (ps : IngestParams) (cs : List (Nat × StagedCandidate)) : Prop where
  paths : (cs.map fun x => x.2.stagingPath).Nodup
  items : (cs.map fun x => x.2.item).Nodup
  outside : ∀ x ∈ cs, Outside ps.pendingRoot ps.quarantineDir x.2.stagingPath

/-- The step of a call on the statuses, from what each candidate meets. -/
def ruled (env : Env) (ps : IngestParams) (v : StagedCandidate → Sighting)
    (x : Nat × StagedCandidate) (σ : Statuses) : Report × Statuses := verdict env ps x.2 (v x.2) σ

/-- The answer of a step, from what the call returned. -/
def CallResult.answer (x : CallResult) : (Nat × StagedCandidate) × Report :=
  ((x.1, x.2.1), x.2.2.report)

section Others
variable {env : Env} {eng : Engine} {ps : IngestParams} {c : StagedCandidate} {w w' : World}

theorem wp_processOne_ingests (hsha : ∀ b, IsSha (env.sha256 b))
    (ht : namesFile ps.storageTemplate = true) :
    (processOne env eng ps c).Wp (handle env) w (onOk (Ingests env ps c w)) := by
  refine wp_mono (fun r w' h => ?_) (wp_and (wp_processOne_decides hsha ht)
    (wp_and wp_processOne_indexes (rules_run (processOne env eng ps c))))
  cases r with
  | error e => trivial
  | ok out =>
    obtain ⟨hdecides, hindexes, hrules⟩ := h
    refine ⟨hdecides, fun d hpath hitem hout => ?_⟩
    have hindex : w'.reg.metadataIndex.get d.item = w.reg.metadataIndex.get d.item := by
      rcases hindexes with ⟨-, hsame⟩ | ⟨b, -, -, row, -, hput⟩
      · rw [hsame]
      · rw [hput, Table.get_put]
        exact if_neg hitem
    have hblocked : blockedBy env d w' = blockedBy env d w := by
      rw [blockedBy, blockedBy, Registry.enabledBlockRules, Registry.enabledBlockRules, hrules]
    show Sighting.mk _ (w'.reg.metadataIndex.get d.item) _ = _
    rw [hdecides.2 d.stagingPath hpath hout, hindex, hblocked]
    rfl

/-- The calls one after the other, by induction on them: each meets what it met
before the first. -/
theorem runAll_processAll (hsha : ∀ b, IsSha (env.sha256 b))
    (ht : namesFile ps.storageTemplate = true) (v : StagedCandidate → Sighting) :
    ∀ {cs : List (Nat × StagedCandidate)} {w w' : World} {outs : List CallResult},
      Separate ps cs → (∀ x ∈ cs, sighted env w x.2 = v x.2) →
      (processAll env eng ps cs).run (handle env) w = (.ok outs, w') →
      runAll (ruled env ps v) cs w.reg.statusOf = (outs.map CallResult.answer, w'.reg.statusOf)
  | [], w, w', outs, _, _, hrun => by
    cases hrun
    rfl
  | (index, c) :: cs, w, w', outs, hsep, hv, hrun => by
    rw [processAll] at hrun
    obtain ⟨out, w₁, hone, hrun⟩ := run_bind_ok hrun
    obtain ⟨rest, w₂, hall, hret⟩ := run_bind_ok hrun
    cases hret
    have hing : Ingests env ps c w out w₁ := by
      have hwp : (processOne env eng ps c).Wp (handle env) w (onOk (Ingests env ps c w)) :=
        wp_processOne_ingests hsha ht
      rw [wp_iff] at hwp
      rwa [hone] at hwp
    have hpaths := List.nodup_cons.mp hsep.paths
    have hitems := List.nodup_cons.mp hsep.items
    have hrest : Separate ps cs :=
      ⟨hpaths.2, hitems.2, fun x hx => hsep.outside x (List.mem_cons_of_mem _ hx)⟩
    have hv₁ : ∀ x ∈ cs, sighted env w₁ x.2 = v x.2 := by
      intro x hx
      rw [← hv x (List.mem_cons_of_mem _ hx)]
      refine hing.others x.2 ?_ ?_ (hrest.outside x hx)
      · intro h
        exact hpaths.1 (List.mem_map.mpr ⟨x, hx, h⟩)
      · intro h
        exact hitems.1 (List.mem_map.mpr ⟨x, hx, h⟩)
    have hstep : ruled env ps v (index, c) w.reg.statusOf = (out.report, w₁.reg.statusOf) := by
      rw [ruled, ← hv (index, c) List.mem_cons_self]
      exact hing.decides.1
    have htail := runAll_processAll hsha ht v hrest hv₁ hall
    simp only [runAll, hstep, htail, List.map_cons]
    rfl

end Others

/-! ## Calls with different sizes -/

/-- The statuses a call looks at. -/
def readsStatus (env : Env) (ps : IngestParams) (c : StagedCandidate) (v : Sighting) (k : String) :
    Prop :=
  ∃ b, v.staged = some b ∧ Admitted ps c b.length ∧ (env.sha256 b = k ∨
    ∃ m, v.indexed = some m ∧ m.sizeBytes = c.sizeBytes.getD (-1) ∧ m.sha256 = k)

/-- The status a call may set. -/
def setsStatus (env : Env) (ps : IngestParams) (c : StagedCandidate) (v : Sighting) (k : String) :
    Prop :=
  ∃ b, v.staged = some b ∧ Admitted ps c b.length ∧ env.sha256 b = k

section Keys
variable {env : Env} {ps : IngestParams} {v : StagedCandidate → Sighting}

theorem hit_congr {c : StagedCandidate} {v : Sighting} {σ τ : Statuses}
    (h : ∀ m, v.indexed = some m → m.sizeBytes = c.sizeBytes.getD (-1) → σ m.sha256 = τ m.sha256) :
    v.hit c σ = v.hit c τ := by
  unfold Sighting.hit
  cases hm : v.indexed with
  | none => rfl
  | some m =>
    simp only
    split
    · next hsame => rw [h m hm hsame.1]
    · rfl

theorem hashVerdict_congr {sha : String} {blocked : Option (RuleType × String)} {σ τ : Statuses}
    (h : σ sha = τ sha) : (hashVerdict sha blocked σ).1 = (hashVerdict sha blocked τ).1 ∧
      (hashVerdict sha blocked σ).2 sha = (hashVerdict sha blocked τ).2 sha := by
  unfold hashVerdict
  rw [h]
  cases blocked with
  | some rule => simp [setStatus]
  | none =>
    cases hst : τ sha with
    | none => simp [setStatus]
    | some st => simp [h, hst]

theorem hashVerdict_frame {sha k : String} {blocked : Option (RuleType × String)} {σ : Statuses}
    (h : k ≠ sha) : (hashVerdict sha blocked σ).2 k = σ k := by
  unfold hashVerdict
  split <;> simp [setStatus, h]

theorem ruled_keyed (x : Nat × StagedCandidate) : Keyed (ruled env ps v) x
    (readsStatus env ps x.2 (v x.2)) (setsStatus env ps x.2 (v x.2)) := by
  have hcongr : ∀ σ τ : Statuses, (∀ k, readsStatus env ps x.2 (v x.2) k → σ k = τ k) →
      (ruled env ps v x σ).1 = (ruled env ps v x τ).1 ∧
      ∀ k, setsStatus env ps x.2 (v x.2) k →
        (ruled env ps v x σ).2 k = (ruled env ps v x τ).2 k := by
    intro σ τ h
    unfold ruled verdict
    cases hb : (v x.2).staged with
    | none => exact ⟨rfl, fun k ⟨b, hb', _⟩ => by rw [hb] at hb'; cases hb'⟩
    | some b =>
      simp only
      by_cases hadm : Admitted ps x.2 b.length
      · simp only [if_pos hadm]
        have hown : σ (env.sha256 b) = τ (env.sha256 b) := h _ ⟨b, hb, hadm, .inl rfl⟩
        rw [hit_congr (τ := τ) fun m hm hsize => h _ ⟨b, hb, hadm, .inr ⟨m, hm, hsize, rfl⟩⟩]
        have hkey : ∀ k, setsStatus env ps x.2 (v x.2) k → k = env.sha256 b := by
          intro k ⟨b', hb', _, hk⟩
          rw [hb] at hb'
          cases hb'
          exact hk.symm
        split
        · exact ⟨rfl, fun k hk => by rw [hkey k hk]; exact hown⟩
        · refine ⟨(hashVerdict_congr hown).1, fun k hk => ?_⟩
          rw [hkey k hk]
          exact (hashVerdict_congr hown).2
      · simp only [if_neg hadm]
        refine ⟨trivial, fun k ⟨b', hb', hadm', _⟩ => ?_⟩
        rw [hb] at hb'
        cases hb'
        exact absurd hadm' hadm
  refine ⟨fun σ τ h => (hcongr σ τ h).1, fun σ τ h => (hcongr σ τ h).2, fun σ k hk => ?_⟩
  unfold ruled verdict
  cases hb : (v x.2).staged with
  | none => rfl
  | some b =>
    simp only
    by_cases hadm : Admitted ps x.2 b.length
    · simp only [if_pos hadm]
      split
      · rfl
      · exact hashVerdict_frame fun h => hk ⟨b, hb, hadm, h.symm⟩
    · simp only [if_neg hadm]

/-- Staged bytes that are let through have the declared size. -/
theorem declared_of_admitted {c : StagedCandidate} {n : Nat} (hverify : ps.preHashSizeVerify = true)
    (hsize : c.sizeBytes.isSome = true) (h : Admitted ps c n) : c.sizeBytes = some (n : Int) := by
  have hmis := h.1
  simp only [sizeMismatch, hverify, hsize, Bool.true_and, bne_eq_false_iff_eq] at hmis
  exact hmis

/-- Equal hashes are of contents with one size, among the staged files and the
rows of the index. -/
structure SizesAgree (env : Env) (cs : List StagedCandidate) (w : World) : Prop where
  staged : ∀ c ∈ cs, ∀ d ∈ cs, ∀ b b', w.fs.get c.stagingPath = some b →
    w.fs.get d.stagingPath = some b' → env.sha256 b = env.sha256 b' → b.length = b'.length
  indexed : ∀ c ∈ cs, ∀ d ∈ cs, ∀ m b, w.reg.metadataIndex.get c.item = some m →
    w.fs.get d.stagingPath = some b → m.sha256 = env.sha256 b → m.sizeBytes = (b.length : Int)

theorem SizesAgree.still {cs : List StagedCandidate} {w w' : World} (h : SizesAgree env cs w)
    (hw : Still w w') : SizesAgree env cs w' := by
  refine ⟨?_, ?_⟩
  · rw [hw.fs]
    exact h.staged
  · rw [hw.fs, hw.reg]
    exact h.indexed

/-- What one call looks at, another with a different declared size does not set. -/
theorem not_reads_of_sets {cs : List StagedCandidate} {w : World} {c d : StagedCandidate}
    {k : String} (hagree : SizesAgree env cs w) (hverify : ps.preHashSizeVerify = true)
    (hsizes : ∀ c ∈ cs, c.sizeBytes.isSome = true) (hc : c ∈ cs) (hd : d ∈ cs)
    (hne : c.sizeBytes ≠ d.sizeBytes) (hsets : setsStatus env ps d (sighted env w d) k) :
    ¬ readsStatus env ps c (sighted env w c) k := by
  obtain ⟨b, hb, hadm, hk⟩ := hsets
  intro ⟨b', hb', hadm', hread⟩
  have hdeclared := declared_of_admitted hverify (hsizes d hd) hadm
  have hdeclared' := declared_of_admitted hverify (hsizes c hc) hadm'
  refine hne (hdeclared'.trans (Eq.trans ?_ hdeclared.symm))
  rcases hread with hk' | ⟨m, hm, hsize, hk'⟩
  · rw [hagree.staged c hc d hd b' b hb' hb (hk'.trans hk.symm)]
  · have hrow := hagree.indexed c hc d hd m b hm hb (hk'.trans hk.symm)
    rw [hsize, hdeclared', Option.getD_some] at hrow
    rw [hrow]

theorem ruled_commute {cs : List StagedCandidate} {w : World} (hagree : SizesAgree env cs w)
    (hverify : ps.preHashSizeVerify = true) (hsizes : ∀ c ∈ cs, c.sizeBytes.isSome = true)
    {x y : Nat × StagedCandidate} (hx : x.2 ∈ cs) (hy : y.2 ∈ cs)
    (hne : x.2.sizeBytes ≠ y.2.sizeBytes) : Commutes (ruled env ps (sighted env w)) x y := by
  have hreads_of_sets : ∀ {c : StagedCandidate} {v : Sighting} {k : String},
      setsStatus env ps c v k → readsStatus env ps c v k :=
    fun ⟨b, hb, hadm, hk⟩ => ⟨b, hb, hadm, .inl hk⟩
  refine (ruled_keyed x).commute (ruled_keyed y) (fun k hk => ?_) fun k hk => ?_
  · have hnot := not_reads_of_sets hagree hverify hsizes hx hy hne hk
    exact ⟨hnot, fun h => hnot (hreads_of_sets h)⟩
  · exact not_reads_of_sets hagree hverify hsizes hy hx hne.symm hk

end Keys

/-! ## The two schedules -/

def BatchParams.schedule (bp : BatchParams) (sizeAware : Bool) : BatchParams :=
  { bp with sizeAwareScheduling := sizeAware }

/-- What a batch is given: checked and declared sizes, distinct items and distinct
staged files. -/
structure DeclaredBatch (bp : BatchParams) (cs : List StagedCandidate) : Prop where
  verify : bp.preHashSizeVerify = true
  sizes : ∀ c ∈ cs, c.sizeBytes.isSome = true
  items : (cs.map StagedCandidate.item).Nodup
  paths : (cs.map StagedCandidate.stagingPath).Nodup

/-- Where both schedules return, they report the same of every candidate and leave
the same statuses. -/
def SchedulesAgree (env : Env) (eng : Engine) (bp : BatchParams) (cs : List StagedCandidate)
    (w : World) : Prop :=
  ∀ r₁ w₁ r₂ w₂, (processBatch env eng (bp.schedule true) cs).run (handle env) w = (.ok r₁, w₁) →
    (processBatch env eng (bp.schedule false) cs).run (handle env) w = (.ok r₂, w₂) →
    r₁.outcomes.map IngestOutcome.report = r₂.outcomes.map IngestOutcome.report ∧
      ∀ sha, w₁.reg.statusOf sha = w₂.reg.statusOf sha

/-- The reports of a batch that returns. -/
def reported (env : Env) (eng : Engine) (bp : BatchParams) (cs : List StagedCandidate) (w : World)
    (sizeAware : Bool) : Option (List Report) :=
  ((processBatch env eng (bp.schedule sizeAware) cs).run (handle env) w).1.toOption.map
    (·.outcomes.map IngestOutcome.report)

section Schedules
variable {env : Env} {eng : Engine} {bp : BatchParams} {cs : List StagedCandidate} {w : World}

/-- The sort exchanges no two candidates of one size. -/
theorem sizes_ne_of_not_sizeFirst {x y : Nat × StagedCandidate} (h : x.1 ≤ y.1)
    (hfirst : ¬ sizeFirst x y = true) : x.2.sizeBytes ≠ y.2.sizeBytes := by
  intro heq
  simp [sizeFirst, heq, h] at hfirst

theorem sameRun_scheduled {ps : IngestParams} (hagree : SizesAgree env cs w)
    (hverify : ps.preHashSizeVerify = true) (hsizes : ∀ c ∈ cs, c.sizeBytes.isSome = true)
    (σ : Statuses) : SameRun (runAll (ruled env ps (sighted env w)) (scheduled true cs) σ)
      (runAll (ruled env ps (sighted env w)) (scheduled false cs) σ) := by
  simp only [scheduled, if_true, Bool.false_eq_true, if_false]
  refine runAll_insertionSort σ (List.Pairwise.imp_of_mem (fun hx hy hle hfirst => ?_)
    (pairwise_index cs))
  exact ruled_commute hagree hverify hsizes (List.of_mem_zip hx).2 (List.of_mem_zip hy).2
    (sizes_ne_of_not_sizeFirst hle hfirst)

/-- Sorted by index, the answers stand in one order. -/
theorem ordered_answers {outs₁ outs₂ : List CallResult} (h₂ : InOrder (scheduled false cs) outs₂)
    (hperm : (outs₁.map CallResult.answer).Perm (outs₂.map CallResult.answer)) :
    (outs₁.insertionSort fun a b => a.1 ≤ b.1).map (·.2.2.report) =
      (outs₂.insertionSort fun a b => a.1 ≤ b.1).map (·.2.2.report) := by
  have hsorted : ∀ outs : List CallResult, ((outs.insertionSort fun a b => a.1 ≤ b.1).map
      CallResult.answer).Pairwise fun a b => a.1.1 ≤ b.1.1 := fun outs =>
    List.pairwise_map.mpr (List.pairwise_insertionSort (fun a b : CallResult => a.1 ≤ b.1) outs)
  have hkeys : (((outs₂.insertionSort fun a b => a.1 ≤ b.1).map CallResult.answer).map
      fun a => a.1.1).Nodup := by
    have hindex := congrArg (List.map Prod.fst) (ordered_eq h₂)
    simp only [List.map_map] at hindex ⊢
    exact (congrArg List.Nodup hindex).mpr (nodup_index cs)
  have hanswers : (outs₁.insertionSort fun a b => a.1 ≤ b.1).map CallResult.answer =
      (outs₂.insertionSort fun a b => a.1 ≤ b.1).map CallResult.answer := by
    refine eq_of_sorted_by (fun a => a.1.1) ?_ hkeys (hsorted outs₁) (hsorted outs₂)
    exact ((List.perm_insertionSort _ outs₁).map _).trans
      (hperm.trans ((List.perm_insertionSort _ outs₂).map _).symm)
  have hreports := congrArg (List.map Prod.snd) hanswers
  simp only [List.map_map] at hreports
  exact hreports

theorem separate_scheduled (hbatch : DeclaredBatch bp cs)
    (hout : ∀ c ∈ cs, Outside bp.pendingRoot bp.quarantineDir c.stagingPath)
    (policy : ZeroBytePolicy) (sizeAware : Bool) :
    Separate (bp.ingest policy) (scheduled sizeAware cs) := by
  have hmap : ∀ {β : Type} (f : StagedCandidate → β),
      ((scheduled sizeAware cs).map fun x => f x.2).Perm (cs.map f) := by
    intro β f
    have hzip : (((List.range cs.length).zip cs).map fun x => f x.2) = cs.map f := by
      have hsnd : ((List.range cs.length).zip cs).map Prod.snd = cs := List.map_snd_zip (by simp)
      conv_rhs => rw [← hsnd, List.map_map]
      rfl
    exact hzip ▸ (scheduled_perm sizeAware cs).map _
  exact ⟨(hmap _).nodup_iff.mpr hbatch.paths, (hmap _).nodup_iff.mpr hbatch.items,
    fun x hx => hout x.2 (mem_scheduled hx)⟩

theorem lint_of_prepare {start : ZeroBytePolicy × String} {w₁ : World}
    (h : (prepareBatch env bp 1 cs).run (handle env) w = (.ok start, w₁)) :
    lintStorageTemplate bp.storageTemplate = [] := by
  unfold prepareBatch at h
  obtain ⟨_, w₂, -, h⟩ := run_bind_ok h
  cases hp : ZeroBytePolicy.parse bp.zeroBytePolicy with
  | none =>
    rw [hp] at h
    cases h
  | some policy =>
    simp only [hp] at h
    split at h
    · cases h
    split at h
    · cases h
    split at h
    · cases h
    · next hlint => exact not_not.mp hlint

/-- A batch that returns: what its calls returned, sorted back, and the statuses
they left. -/
theorem batch_calls {sizeAware : Bool} {r : IngestBatchResult} {w' : World}
    (h : (processBatch env eng (bp.schedule sizeAware) cs).run (handle env) w = (.ok r, w')) :
    ∃ start w₁ outs w₂, (prepareBatch env bp 1 cs).run (handle env) w = (.ok start, w₁) ∧
      (processAll env eng (bp.ingest start.1) (scheduled sizeAware cs)).run (handle env) w₁ =
        (.ok outs, w₂) ∧
      r.outcomes = (outs.insertionSort fun a b => a.1 ≤ b.1).map (·.2.2) ∧
      w'.reg.statusOf = w₂.reg.statusOf := by
  rw [processBatch_eq] at h
  obtain ⟨start, w₁, hstart, h⟩ := run_bind_ok h
  obtain ⟨outs, w₂, hall, hend⟩ := run_bind_ok h
  refine ⟨start, w₁, outs, w₂, hstart, hall, ?_⟩
  rw [finishBatch, ofExcept_ok, ret_bind] at hend
  obtain ⟨_, w₃, hrec, hret⟩ := run_bind_ok hend
  cases hret
  have hkept : SameRows w₂ w' := by
    have hcalls : (recordOutcomes env bp.livePhotoHeuristics start.2 0 [] ∅
        (outs.insertionSort fun a b => a.1 ≤ b.1)).Calls Op.KeepsRows :=
      keepsRows_recordOutcomes _ _ _ _
    have hwp := wp_iff.mp (hcalls.wp (R := SameRows)
      (H := handle env) (s := w₂) (Q := fun _ => SameRows w₂) (fun _ => ⟨rfl, rfl⟩)
      (fun _ _ _ => SameRows.trans) (fun _ _ ho => sameRows_handle ho) fun _ _ ht => ht)
    rwa [show (recordOutcomes env bp.livePhotoHeuristics start.2 0 [] ∅ _).run (handle env) w₂ = _
      from hrec] at hwp
  exact ⟨rfl, statusOf_files hkept.files⟩

theorem returns_of_reported {sizeAware : Bool}
    (h : (reported env eng bp cs w sizeAware).isSome = true) :
    ∃ r w', (processBatch env eng (bp.schedule sizeAware) cs).run (handle env) w = (.ok r, w') := by
  unfold reported at h
  cases hrun : (processBatch env eng (bp.schedule sizeAware) cs).run (handle env) w with
  | mk r w' =>
    rw [hrun] at h
    cases r with
    | error e => cases h
    | ok r => exact ⟨r, w', rfl⟩

theorem SchedulesAgree.reported (h : SchedulesAgree env eng bp cs w)
    (h₁ : (reported env eng bp cs w true).isSome = true)
    (h₂ : (reported env eng bp cs w false).isSome = true) :
    Nightfall.reported env eng bp cs w true = Nightfall.reported env eng bp cs w false := by
  obtain ⟨r₁, w₁, hrun₁⟩ := returns_of_reported h₁
  obtain ⟨r₂, w₂, hrun₂⟩ := returns_of_reported h₂
  rw [Nightfall.reported, Nightfall.reported, hrun₁, hrun₂]
  exact congrArg some (h r₁ w₁ r₂ w₂ hrun₁ hrun₂).1

/-- Two batches that return with different reports. -/
theorem not_schedulesAgree (h : (Nightfall.reported env eng bp cs w true).isSome = true ∧
    (Nightfall.reported env eng bp cs w false).isSome = true ∧
    Nightfall.reported env eng bp cs w true ≠ Nightfall.reported env eng bp cs w false) :
    ¬ SchedulesAgree env eng bp cs w :=
  fun hagree => h.2.2 (hagree.reported h.1 h.2.1)

end Schedules

/-- For every batch, from every state in which no staged file stands where the batch
writes and sizes agree. -/
theorem schedules_agree (env : Env) (eng : Engine) (bp : BatchParams) (cs : List StagedCandidate)
    (w : World) (hsha : ∀ b, IsSha (env.sha256 b)) (hbatch : DeclaredBatch bp cs)
    (hout : ∀ c ∈ cs, Outside bp.pendingRoot bp.quarantineDir c.stagingPath)
    (hagree : SizesAgree env cs w) : SchedulesAgree env eng bp cs w := by
  intro r₁ w₁ r₂ w₂ haware hplain
  obtain ⟨start, u, outs₁, u₁, hstart, hall₁, hres₁, hst₁⟩ := batch_calls haware
  obtain ⟨start', u', outs₂, u₂, hstart', hall₂, hres₂, hst₂⟩ := batch_calls hplain
  obtain ⟨hok, rfl⟩ := Prod.mk.inj (hstart.symm.trans hstart')
  cases hok
  have ht : namesFile (bp.ingest start.1).storageTemplate = true :=
    namesFile_of_lint (lint_of_prepare hstart)
  have hrun₁ := runAll_processAll hsha ht (sighted env u)
    (separate_scheduled hbatch hout start.1 true) (fun _ _ => rfl) hall₁
  have hrun₂ := runAll_processAll hsha ht (sighted env u)
    (separate_scheduled hbatch hout start.1 false) (fun _ _ => rfl) hall₂
  have hsame : SameRun
      (runAll (ruled env (bp.ingest start.1) (sighted env u)) (scheduled true cs) u.reg.statusOf)
      (runAll (ruled env (bp.ingest start.1) (sighted env u)) (scheduled false cs)
        u.reg.statusOf) :=
    sameRun_scheduled (hagree.still (still_of_prepare hstart)) hbatch.verify hbatch.sizes _
  rw [hrun₁, hrun₂] at hsame
  refine ⟨?_, fun sha => ?_⟩
  · have hreports := ordered_answers ((yields_processAll _).of_run (congrArg Prod.fst hall₂))
      hsame.answers
    rw [hres₁, hres₂, List.map_map, List.map_map]
    exact hreports
  · rw [hst₁, hst₂]
    exact congrFun hsame.state sha

/-- A photo of `size` bytes by its declared size. -/
def sizedPhoto (id : String) (size : Int) (staging : Path) : StagedCandidate :=
  { sampleCandidate id staging with sizeBytes := some size }

def sizedBatch : BatchParams := { sampleBatch with quarantineDir := some ["lib", "quarantine"] }

/-- An empty photo, a copy of it, and a larger one behind them. -/
def mixedPhotos : List StagedCandidate :=
  [sizedPhoto "id1" 0 ["staging", "x"], sizedPhoto "id2" 0 ["staging", "y"],
    sizedPhoto "id3" 1 ["staging", "z"]]

def mixedWorld : World :=
  sampleWorld [(["staging", "x"], []), (["staging", "y"], []), (["staging", "z"], [97])]
    Registry.empty

/-- Both schedules take the copy for a duplicate. -/
theorem mixed_photos_agree : ∃ r₁ w₁ r₂ w₂,
    (processBatch sampleEnv ⟨none⟩ (sizedBatch.schedule true) mixedPhotos).run (handle sampleEnv)
      mixedWorld = (.ok r₁, w₁) ∧
    (processBatch sampleEnv ⟨none⟩ (sizedBatch.schedule false) mixedPhotos).run (handle sampleEnv)
      mixedWorld = (.ok r₂, w₂) ∧
    r₁.outcomes.map IngestOutcome.report = r₂.outcomes.map IngestOutcome.report ∧
      ∀ sha, w₁.reg.statusOf sha = w₂.reg.statusOf sha := by
  have hout : ∀ c ∈ mixedPhotos,
      Outside sizedBatch.pendingRoot sizedBatch.quarantineDir c.stagingPath := by
    unfold Outside
    decide
  have hagree : SizesAgree sampleEnv mixedPhotos mixedWorld := by
    refine ⟨fun c hc d hd b b' hb hb' h => ?_, fun c hc d hd m b hm => by cases hm⟩
    have hstaged : ∀ c ∈ mixedPhotos, mixedWorld.fs.get c.stagingPath = some [] ∨
        mixedWorld.fs.get c.stagingPath = some [97] := by decide +kernel
    have hne : sampleEnv.sha256 [] ≠ sampleEnv.sha256 [97] := by decide +kernel
    rcases hstaged c hc with hc | hc <;> rcases hstaged d hd with hd | hd <;>
      rw [hc] at hb <;> rw [hd] at hb' <;> cases hb <;> cases hb'
    · rfl
    · exact absurd h hne
    · exact absurd h.symm hne
    · rfl
  have hreturns : ∀ sizeAware,
      (reported sampleEnv ⟨none⟩ sizedBatch mixedPhotos mixedWorld sizeAware).isSome = true := by
    decide +kernel
  obtain ⟨r₁, w₁, h₁⟩ := returns_of_reported (hreturns true)
  obtain ⟨r₂, w₂, h₂⟩ := returns_of_reported (hreturns false)
  exact ⟨r₁, w₁, r₂, w₂, h₁, h₂, schedules_agree sampleEnv ⟨none⟩ sizedBatch mixedPhotos mixedWorld
    sampleEnv_isSha ⟨rfl, by decide, by decide, by decide⟩ hout hagree r₁ w₁ r₂ w₂ h₁ h₂⟩

/-- The second photo is staged where the first one goes. -/
def stagedInPending : List StagedCandidate :=
  [sizedPhoto "id1" 0 ["staging", "x"],
    sizedPhoto "id2" 1 ["lib", "pending", "2024", "01", "IMG.JPG"]]

/-- The second photo is staged where the first one, of the wrong size, is set aside. -/
def stagedInQuarantine : List StagedCandidate :=
  [sizedPhoto "id1" 0 ["staging", "x"],
    sizedPhoto "id2" 1 ["lib", "quarantine", "size_mismatch", "x"]]

/-- A row of the index with the size of other content; a rule blocks the photo the
row names. -/
def stalePhotos : List StagedCandidate :=
  [sizedPhoto "id1" 0 ["staging", "x"],
    { sizedPhoto "id2" 1 ["staging", "y"] with originalFilename := "ad.jpg" }]

def staleWorld : World :=
  sampleWorld [(["staging", "x"], []), (["staging", "y"], [97])]
    { Registry.empty with
      files := Table.put ∅ shaA (sampleRow .pending (some ["lib", "pending", "a"]))
      metadataIndex := Table.put ∅ ("alice", "id1") ⟨0, "2024-01-02T03:04:05Z", shaA, "", ""⟩
      blockedRules := [⟨1, .filename, "ad.jpg", true⟩] }

theorem schedules_differ :
    (DeclaredBatch sizedBatch stagedInPending ∧ ¬ SchedulesAgree sampleEnv ⟨none⟩ sizedBatch
      stagedInPending (sampleWorld [(["staging", "x"], [])] Registry.empty)) ∧
    (DeclaredBatch sizedBatch stagedInQuarantine ∧ ¬ SchedulesAgree sampleEnv ⟨none⟩ sizedBatch
      stagedInQuarantine (sampleWorld [(["staging", "x"], [97])] Registry.empty)) ∧
    (DeclaredBatch sizedBatch stalePhotos ∧ ¬ SchedulesAgree sampleEnv ⟨none⟩ sizedBatch
      stalePhotos staleWorld) := by
  refine ⟨⟨⟨rfl, by decide, by decide, by decide⟩, not_schedulesAgree ?_⟩,
    ⟨⟨rfl, by decide, by decide, by decide⟩, not_schedulesAgree ?_⟩,
    ⟨⟨rfl, by decide, by decide, by decide⟩, not_schedulesAgree ?_⟩⟩
  · decide +kernel
  · decide +kernel
  · decide +kernel

end Nightfall
