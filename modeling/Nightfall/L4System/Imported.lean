import Nightfall.L3Flows.HashImport
import Nightfall.L3Flows.IngestSpecs
import Nightfall.L4System.Steps

/-!
# Imported hashes and later batches

`run_hash_import` writes `external_hash_cache`; the ingest decision reads
`metadata_index`, the block rules and `files`. So an imported hash is no reason
to discard a staged file: what keeps it out is a row of `files`.

* `imported_rows`: an import stores every hash of its plans and changes no
  other table.
* `Op.Ingests`: a step that gives a staged file with the hash `h` to pending.
* `imported_not_ingested`: no batch of a run does, as long as every lookup of
  the hash finds a row of `files`.
* `imported_ingested`: a run in which one does not.
-/
namespace Nightfall
open Nightfall.Core Storage Prog HashImport

/-! ## What an import leaves behind -/

theorem hasHashImport_append {rows rows' : List ExternalHashRow} {h : String}
    (hr : Registry.hasHashImport rows h = true) :
    Registry.hasHashImport (rows ++ rows') h = true := by
  simp only [Registry.hasHashImport, List.any_append, Bool.or_eq_true] at hr ⊢
  exact .inl hr

theorem hasHashImport_insert (now : String) (rows : List ExternalHashRow) (h : String) :
    Registry.hasHashImport (Registry.insertHashImport now rows h) h = true := by
  unfold Registry.insertHashImport
  split
  · assumption
  · simp [Registry.hasHashImport, Registry.hashImportRow]

theorem hasHashImport_keep {now h h' : String} {rows : List ExternalHashRow}
    (hr : Registry.hasHashImport rows h = true) :
    Registry.hasHashImport (Registry.insertHashImport now rows h') h = true := by
  unfold Registry.insertHashImport
  split
  · exact hr
  · exact hasHashImport_append hr

theorem hasHashImport_foldl {now h : String} : ∀ (hashes : List String)
    {rows : List ExternalHashRow}, h ∈ hashes ∨ Registry.hasHashImport rows h = true →
      Registry.hasHashImport (hashes.foldl (Registry.insertHashImport now) rows) h = true
  | [], _, hr => by simpa using hr
  | h' :: hashes, rows, hr => by
    refine hasHashImport_foldl hashes ?_
    rcases hr with hmem | hrow
    · rcases List.mem_cons.mp hmem with rfl | hmem
      · exact .inr (hasHashImport_insert now rows h)
      · exact .inl hmem
    · exact .inr (hasHashImport_keep hrow)

/-- Nothing of the registry but the imported hashes differs, and no file. -/
structure OnlyImports (w w' : World) : Prop where
  fs : w'.fs = w.fs
  reg : { w'.reg with externalHashCache := w.reg.externalHashCache } = w.reg

theorem mem_slices {size : Nat} (hsize : 0 < size) {h : String} : ∀ {fuel : Nat}
    {hashes : List String}, hashes.length ≤ fuel → h ∈ hashes →
      ∃ chunk ∈ slices size fuel hashes, h ∈ chunk
  | 0, hashes, hlen, hmem => by
    have hpos := List.length_pos_of_mem hmem
    omega
  | fuel + 1, [], _, hmem => by cases hmem
  | fuel + 1, x :: xs, hlen, hmem => by
    rw [slices]
    rw [← List.take_append_drop size (x :: xs)] at hmem
    rcases List.mem_append.mp hmem with htake | hdrop
    · exact ⟨_, List.mem_cons_self, htake⟩
    · have hshort : ((x :: xs).drop size).length ≤ fuel := by
        simp only [List.length_drop, List.length_cons] at hlen ⊢
        omega
      obtain ⟨chunk, hc, hh⟩ := mem_slices hsize hshort hdrop
      exact ⟨chunk, List.mem_cons_of_mem _ hc, hh⟩
    · simp

theorem importChunks_spec (env : Env) : ∀ (chunks : List (List String)) (index : Nat) (w : World),
    OnlyImports w (importChunks env index chunks w).2 ∧
      ∀ h, Registry.hasHashImport w.reg.externalHashCache h = true ∨ (∃ c ∈ chunks, h ∈ c) →
        Registry.hasHashImport (importChunks env index chunks w).2.reg.externalHashCache h = true
  | [], _, w => ⟨⟨rfl, rfl⟩, by simp [importChunks]⟩
  | chunk :: chunks, index, w => by
    obtain ⟨honly, hall⟩ := importChunks_spec env chunks (index + 1)
      { w with
        reg := (w.reg.bulkInsertHashImport chunk (env.clock w.ticks).iso).1
        ticks := w.ticks + 1 }
    refine ⟨⟨honly.fs, ?_⟩, fun h hh => hall h ?_⟩
    · have hreg := congrArg (fun r : Registry =>
        { r with externalHashCache := w.reg.externalHashCache }) honly.reg
      exact hreg
    · rcases hh with hold | ⟨c, hc, hmem⟩
      · exact .inl (hasHashImport_foldl _ (.inr hold))
      · rcases List.mem_cons.mp hc with rfl | hc
        · exact .inl (hasHashImport_foldl _ (.inl hmem))
        · exact .inr ⟨c, hc, hmem⟩

/-- An import that ends stores every hash of its plans and touches nothing else. -/
theorem imported_rows {env : Env} {t : HashTools} {root : Path} {chunkSize : Int} {w w' : World}
    {summary : HashImportSummary} (h : runHashImport env t root chunkSize w = (.ok summary, w')) :
    OnlyImports w w' ∧ ∀ plans, collectHashImportPlans env t w.fs root = .ok plans →
      ∀ plan ∈ plans, ∀ hash ∈ plan.sha256Values,
        Registry.hasHashImport w'.reg.externalHashCache hash = true := by
  unfold runHashImport at h
  cases hplans : collectHashImportPlans env t w.fs root with
  | error e => simp [hplans] at h
  | ok plans =>
    simp only [hplans, executeHashImportChunks] at h
    by_cases hsize : chunkSize ≤ 0
    · simp [hsize] at h
    · simp only [if_neg hsize, Prod.mk.injEq] at h
      obtain ⟨-, rfl⟩ := h
      obtain ⟨honly, hall⟩ := importChunks_spec env
        (slices chunkSize.toNat (plans.flatMap (·.sha256Values)).length
          (plans.flatMap (·.sha256Values))) 1 w
      refine ⟨honly, fun plans' hp plan hplan hash hhash => hall hash (.inr ?_)⟩
      obtain rfl := Except.ok.inj hp
      refine mem_slices (by omega) (le_refl _) ?_
      exact List.mem_flatMap.mpr ⟨plan, hplan, hhash⟩

/-! ## Steps that ingest a hash -/

/-- The step moves or copies one of the staged files, whose bytes hash to `h`,
below the pending root, or writes the pending row of `h`. -/
def Op.Ingests (env : Env) (h : String) (bp : BatchParams) (cs : List StagedCandidate)
    (w : World) : Op → Prop
  | .replace src dst => (∃ c ∈ cs, c.stagingPath = src) ∧ bp.pendingRoot <+: dst ∧
      (w.fs.get src).map env.sha256 = some h
  | .copy2 src dst => (∃ c ∈ cs, c.stagingPath = src) ∧ bp.pendingRoot <+: dst ∧
      (w.fs.get src).map env.sha256 = some h
  | .tx (.finalizeUnknownIngest sha _ _ _ _ _ _ _ _) => sha = h
  | _ => False

/-- The step looks `h` up. -/
def Op.isGetFile (h : String) : Op → Bool
  | .getFile sha => sha == h
  | _ => false

/-- The step renames `src` to `dst`. -/
def Op.moves (src dst : Path) : Op → Bool
  | .replace s d => s == src && d == dst
  | _ => false

/-- A step of a batch that looks `h` up finds its row. -/
def Op.FindsRow (h : String) (w : World) (o : Op) : Prop :=
  o = .getFile h → (w.reg.files.get h).isSome

/-- The step can ingest nothing, whatever the state. -/
def Op.Harmless : Op → Prop
  | .replace _ _ => False
  | .copy2 _ _ => False
  | .tx (.finalizeUnknownIngest _ _ _ _ _ _ _ _ _) => False
  | _ => True

/-- Files and `files` rows that a harmless stretch without `unlink` keeps. -/
theorem Op.Quiet.harmless {o : Op} (h : o.Quiet) : o.Harmless := by
  cases o with
  | replace src dst => simp [Op.Quiet, Op.writesFs] at h
  | copy2 src dst => simp [Op.Quiet, Op.writesFs] at h
  | tx t => simp [Op.Quiet, Op.isTx] at h
  | _ => trivial

section Walk
variable {env : Env} {h : String} {bp : BatchParams} {cs : List StagedCandidate} {w : World}
  {α β : Type}

/-- Every step of the flow that meets the condition ingests nothing. -/
abbrev Spares (env : Env) (h : String) (bp : BatchParams) (cs : List StagedCandidate) (p : Flow α)
    (w : World) (Q : Except Err α → World → Prop) : Prop :=
  p.Given (handle env) (fun o w => Op.FindsRow h w o) (fun o w _ => ¬ o.Ingests env h bp cs w) w Q

theorem Op.Harmless.spares {o : Op} (ho : o.Harmless) : ¬ o.Ingests env h bp cs w := by
  cases o with
  | replace src dst => cases ho
  | copy2 src dst => cases ho
  | tx t => cases t <;> first | exact not_false | cases ho
  | _ => exact not_false

theorem spares_harmless {p : Flow α} (hp : p.Calls Op.Harmless) :
    Spares env h bp cs p w fun _ _ => True :=
  given_of_along (hp.along_inv (I := fun _ => True) (fun _ _ ho _ => ⟨ho.spares, trivial⟩) trivial)

theorem spares_quiet {p : Flow α} {Q : Except Err α → World → Prop} (hp : p.Calls Op.Quiet)
    (hQ : ∀ r w', Still w w' → Q r w') : Spares env h bp cs p w Q :=
  given_of_along (hp.along (R := Still) Still.refl (fun _ _ _ => Still.trans)
    (fun _ _ ho => ⟨ho.harmless.spares, still_handle ho⟩) hQ)

theorem spares_bind_quiet {p : Flow α} {f : α → Flow β} (hp : p.Calls Op.Quiet)
    (hf : ∀ a w', Still w w' → Spares env h bp cs (f a) w' fun _ _ => True) :
    Spares env h bp cs (p >>= f) w fun _ _ => True := by
  refine given_bind.mpr (spares_quiet hp ?_)
  rintro (e | a) w' hw
  · trivial
  · exact hf a w' hw

theorem spares_bind {p : Flow α} {f : α → Flow β}
    (hp : Spares env h bp cs p w fun _ _ => True)
    (hf : ∀ a w', Spares env h bp cs (f a) w' fun _ _ => True) :
    Spares env h bp cs (p >>= f) w fun _ _ => True := by
  refine given_bind.mpr (given_mono ?_ hp)
  rintro (e | a) w' -
  · trivial
  · exact hf a w'

/-- No file at `p` hashes to `h`. -/
def Differs (env : Env) (h : String) (p : Path) (w : World) : Prop :=
  (w.fs.get p).map env.sha256 ≠ some h

theorem spares_replaceFile {src dst : Path}
    (hne : Differs env h src w ∨ ¬ bp.pendingRoot <+: dst) :
    Spares env h bp cs (replaceFile src dst) w fun _ _ => True := by
  refine fun _ => ⟨fun hi => ?_, spares_harmless ?_⟩
  · rcases hne with hne | hne
    · exact hne hi.2.2
    · exact hne hi.2.1
  · generalize (handle env (.replace src dst) w).1 = ok
    cases ok <;> constructor

/-! ## One candidate -/

section Candidate
variable {eng : Engine} {policy : ZeroBytePolicy} {c : StagedCandidate}

theorem spares_commitCopy {source destination : Path} (hne : Differs env h source w) :
    Spares env h bp cs (commitCopy source destination) w fun _ _ => True := by
  unfold commitCopy
  by_cases hself : source = destination.addExt ".tmp"
  · simp only [copy2, if_pos hself]
    exact spares_harmless .err
  simp only [copy2, if_neg hself]
  -- the copy beside the destination holds the same bytes as the source
  refine given_bind.mpr fun _ => ⟨fun hi => hne hi.2.2, ?_⟩
  cases hb : w.fs.get source with
  | none =>
    simp only [handle, copyFile, hb, Option.map_none]
    trivial
  | some b =>
    have hcopy : handle env (.copy2 source (destination.addExt ".tmp")) w =
        (true, { w with fs := w.fs.put (destination.addExt ".tmp") b }) := by
      simp [handle, copyFile, hb]
    rw [hcopy]
    refine spares_bind_quiet (calls_statSize ⟨rfl, rfl⟩) fun n w₁ h₁ => ?_
    refine spares_bind_quiet (calls_statSize ⟨rfl, rfl⟩) fun m w₂ h₂ => ?_
    split
    · exact spares_harmless (Calls.bind (calls_unlink trivial) fun _ => .err)
    · refine spares_bind_quiet (calls_sha256File ⟨rfl, rfl⟩) fun x w₃ h₃ => ?_
      refine spares_bind_quiet (calls_sha256File ⟨rfl, rfl⟩) fun y w₄ h₄ => ?_
      split
      · exact spares_harmless (Calls.bind (calls_unlink trivial) fun _ => .err)
      · have hsame : Differs env h (destination.addExt ".tmp") w₄ := by
          unfold Differs at hne ⊢
          rw [h₄.fs, h₃.fs, h₂.fs, h₁.fs, Table.get_put_self]
          rwa [hb] at hne
        exact spares_bind (spares_replaceFile (.inl hsame)) fun _ _ =>
          spares_harmless (Calls.bind (calls_unlink trivial) fun _ => .ret)

theorem spares_commit {source destination : Path} {same : Bool} {root : Option Path}
    (hne : Differs env h source w) :
    Spares env h bp cs (commitStagingToAccepted source destination same root) w
      fun _ _ => True := by
  unfold commitStagingToAccepted
  refine spares_bind_quiet (calls_pathExists ⟨rfl, rfl⟩) fun found w₁ h₁ => ?_
  cases found with
  | false => exact spares_harmless .err
  | true =>
    refine spares_bind_quiet calls_ensureWithin fun _ w₂ h₂ => ?_
    have hne₂ : Differs env h source w₂ := by
      unfold Differs
      rw [h₂.fs, h₁.fs]
      exact hne
    cases same with
    | true =>
      exact spares_bind (spares_replaceFile (.inl hne₂)) fun _ _ =>
        spares_harmless (Calls.bind (calls_statSize trivial) fun _ => .ret)
    | false => exact spares_commitCopy hne₂

/-- A file whose hash is not `h`. -/
theorem spares_ingestUnknown {opId sha : String} (hsha : sha ≠ h)
    (hne : Differs env h c.stagingPath w) :
    Spares env h bp cs (ingestUnknown env eng (bp.ingest policy) c opId sha) w
      fun _ _ => True := by
  unfold ingestUnknown
  refine spares_bind_quiet (calls_renderRelativePath ⟨rfl, rfl⟩) fun rel w₁ h₁ => ?_
  refine spares_bind_quiet (calls_choose fun _ => ⟨rfl, rfl⟩) fun dest w₂ h₂ => ?_
  have hne₂ : Differs env h c.stagingPath w₂ := by
    unfold Differs
    rw [h₂.fs, h₁.fs]
    exact hne
  refine spares_bind (spares_commit hne₂) fun _ w₃ => ?_
  refine spares_bind_quiet (calls_journalAppend fun _ _ => ⟨rfl, rfl⟩) fun _ w₄ _ => ?_
  refine spares_bind_quiet (calls_statSize ⟨rfl, rfl⟩) fun size w₅ _ => ?_
  refine given_bind.mpr fun _ => ⟨hsha, ?_⟩
  generalize (handle env (.tx (.finalizeUnknownIngest sha _ _ _ _ _ _ _ _)) w₅).1 = r
  cases r with
  | error e => trivial
  | ok u => exact spares_harmless (Calls.bind (calls_journalAppend fun _ _ => trivial) fun _ => .ret)

theorem harmless_rejectBlocked {opId sha : String} {n : Nat} {rule : RuleType × String} :
    (rejectBlocked eng c opId n sha rule).Calls Op.Harmless := by
  unfold rejectBlocked
  refine Calls.bind (calls_unlink trivial) fun _ => Calls.bind (calls_transact trivial) fun _ => ?_
  refine Calls.bind (calls_transact trivial) fun _ => Calls.bind (calls_transact trivial) fun _ => ?_
  exact Calls.bind (calls_transact trivial) fun _ =>
    Calls.bind (calls_journalAppend fun _ _ => trivial) fun _ => .ret

theorem harmless_discardKnown {opId sha : String} {record : FileRecord} :
    (discardKnown eng c opId sha record).Calls Op.Harmless := by
  unfold discardKnown
  refine Calls.bind (calls_statSize trivial) fun _ => Calls.bind (calls_unlink trivial) fun _ => ?_
  exact Calls.bind (calls_transact trivial) fun _ =>
    Calls.bind (calls_journalAppend fun _ _ => trivial) fun _ => .ret

/-- From the hash on: a lookup that finds no row is not one of `h`. -/
theorem spares_decideByHash {opId : String} {n : Nat} :
    Spares env h bp cs (decideByHash env eng (bp.ingest policy) c opId n) w fun _ _ => True := by
  unfold decideByHash
  refine given_bind.mpr fun _ => ⟨not_false, ?_⟩
  cases hb : w.fs.get c.stagingPath with
  | none =>
    simp only [handle, hb, Option.map_none]
    trivial
  | some b =>
    have hhash : handle env (.sha256File c.stagingPath) w = (some (env.sha256 b), w) := by
      simp [handle, hb]
    rw [hhash]
    refine spares_bind_quiet (calls_journalAppend fun _ _ => ⟨rfl, rfl⟩) fun _ w₁ h₁ => ?_
    have hrules : (matchBlockRule env c.originalFilename).Calls Op.Quiet :=
      .op ⟨rfl, rfl⟩ fun _ => .ret
    refine spares_bind_quiet hrules fun rule w₂ h₂ => ?_
    cases rule with
    | some rule => exact spares_harmless harmless_rejectBlocked
    | none =>
      refine given_bind.mpr fun hfinds => ⟨not_false, ?_⟩
      have hget : handle env (.getFile (env.sha256 b)) w₂ =
          (w₂.reg.files.get (env.sha256 b), w₂) := rfl
      rw [hget]
      cases hrow : w₂.reg.files.get (env.sha256 b) with
      | some record => exact spares_harmless harmless_discardKnown
      | none =>
        have hsha : env.sha256 b ≠ h := by
          rintro rfl
          have hsome := hfinds rfl
          rw [hrow] at hsome
          cases hsome
        refine spares_ingestUnknown hsha ?_
        unfold Differs
        rw [h₂.fs, h₁.fs, hb]
        simpa using hsha

theorem spares_decideStaged {opId : String} {n : Nat} :
    Spares env h bp cs (decideStaged env eng (bp.ingest policy) c opId n) w fun _ _ => True := by
  unfold decideStaged
  have hpre : (prefilterStatus c).Calls Op.Quiet := .op ⟨rfl, rfl⟩ fun _ => .ret
  refine spares_bind_quiet hpre fun hit w₁ _ => ?_
  rcases hit with _ | ⟨st, sha⟩
  · exact spares_decideByHash
  · exact spares_harmless (Calls.bind (calls_unlink trivial) fun _ =>
      Calls.bind (calls_transact trivial) fun _ => .ret)

/-- What fails a size check does not land below the pending root. -/
theorem spares_quarantine (hq : ∀ d, bp.quarantineDir = some d → Unnested d bp.pendingRoot)
    {path : Path} {category : String} :
    Spares env h bp cs (handleQuarantineOrDelete path bp.quarantineDir category) w
      fun _ _ => True := by
  unfold handleQuarantineOrDelete
  cases hd : bp.quarantineDir with
  | none => exact spares_harmless (calls_unlink trivial)
  | some d =>
    have hout : ∀ target, d <+: target → ¬ bp.pendingRoot <+: target :=
      fun target ht => (hq d hd).disjoint ht
    refine spares_bind_quiet (calls_pathExists ⟨rfl, rfl⟩) fun found w₁ _ => ?_
    cases found with
    | false => exact spares_replaceFile (.inr (hout _ (List.prefix_append _ _)))
    | true =>
      refine spares_bind_quiet (calls_utcNow ⟨rfl, rfl⟩) fun now w₂ _ => ?_
      refine spares_replaceFile (.inr (hout _ ?_))
      exact (beside_withName _ _).within (by simp)

theorem spares_processOne (hq : ∀ d, bp.quarantineDir = some d → Unnested d bp.pendingRoot) :
    Spares env h bp cs (processOne env eng (bp.ingest policy) c) w fun _ _ => True := by
  unfold processOne
  have huuid : uuid4.Calls Op.Quiet := .op ⟨rfl, rfl⟩ fun _ => .ret
  refine spares_bind_quiet huuid fun uuid w₁ _ => ?_
  refine spares_bind_quiet (calls_journalAppend fun _ _ => ⟨rfl, rfl⟩) fun _ w₂ _ => ?_
  refine spares_bind_quiet (calls_pathExists ⟨rfl, rfl⟩) fun staged w₃ _ => ?_
  cases staged with
  | false =>
    exact spares_harmless (Calls.bind (calls_journalAppend fun _ _ => trivial) fun _ => .ret)
  | true =>
    refine spares_bind_quiet (calls_statSize ⟨rfl, rfl⟩) fun size w₄ _ => ?_
    split
    · refine spares_bind_quiet (calls_journalAppend fun _ _ => ⟨rfl, rfl⟩) fun _ w₅ _ => ?_
      exact spares_bind (spares_quarantine hq) fun _ _ => spares_harmless .ret
    · split
      · exact spares_harmless (Calls.bind (calls_unlink trivial) fun _ => .ret)
      · split
        · exact spares_bind (spares_quarantine hq) fun _ _ => spares_harmless .ret
        · exact spares_decideStaged

end Candidate

/-! ## One batch -/

section Batch
variable {eng : Engine}

theorem spares_processAll {policy : ZeroBytePolicy}
    (hq : ∀ d, bp.quarantineDir = some d → Unnested d bp.pendingRoot) :
    ∀ (todo : List (Nat × StagedCandidate)) (w : World),
      Spares env h bp cs (processAll env eng (bp.ingest policy) todo) w fun _ _ => True
  | [], _ => trivial
  | (_, c) :: todo, w => by
    unfold processAll
    refine spares_bind (spares_processOne hq) fun out w₁ => ?_
    exact spares_bind (spares_processAll hq todo w₁) fun outs w₂ => trivial

theorem spares_processBatch (hq : ∀ d, bp.quarantineDir = some d → Unnested d bp.pendingRoot) :
    Spares env h bp cs (processBatch env eng bp cs) w fun _ _ => True := by
  unfold processBatch
  refine spares_bind_quiet calls_validateBatchContract fun _ w₁ _ => ?_
  split
  · exact spares_harmless .err
  · next policy _ =>
    split_ifs
    · exact spares_harmless .err
    · exact spares_harmless .err
    · unfold runBatch
      have huuid : uuid4.Calls Op.Quiet := .op ⟨rfl, rfl⟩ fun _ => .ret
      refine spares_bind_quiet huuid fun batchRunId w₂ _ => ?_
      refine spares_bind_quiet (calls_enforceHeuristics _) fun _ w₃ _ => ?_
      refine spares_bind (spares_processAll hq _ w₃) fun outs w₄ => ?_
      exact spares_harmless ((calls_recordOutcomes trivial (fun _ _ _ _ _ => trivial)
        (fun _ _ _ _ _ _ _ _ => trivial) _ _ _ _).bind fun _ => .ret)

end Batch
end Walk

/-! ## Runs -/

/-- `P` holds of every step of every batch of the run. -/
def EveryBatchStep (env : Env) (cfg : CoreConfig) (as : List Action) (w : World)
    (P : BatchParams → List StagedCandidate → Event Ops World → Prop) : Prop :=
  ∀ before eng bp cs rest, as = before ++ .command (.processBatch eng bp cs) :: rest →
    ∀ e ∈ Action.events env cfg (after env cfg before w) (.command (.processBatch eng bp cs)),
      P bp cs e

/-- After an import stored `h`, no batch of any later run gives a staged file
with that hash to pending, as long as the batches' lookups of `h` find a row of
`files` and what fails a size check is not put below the pending root. -/
theorem imported_not_ingested (env : Env) (cfg : CoreConfig) (t : HashTools) (root : Path)
    (chunkSize : Int) (w w₁ : World) (summary : HashImportSummary)
    (plans : List HashImportDirectoryPlan) (plan : HashImportDirectoryPlan) (h : String)
    (himport : runHashImport env t root chunkSize w = (.ok summary, w₁))
    (hplans : collectHashImportPlans env t w.fs root = .ok plans) (hplan : plan ∈ plans)
    (hh : h ∈ plan.sha256Values) (as : List Action)
    (hfinds : EveryBatchStep env cfg as w₁ fun _ _ e => Op.FindsRow h e.pre e.op)
    (hq : ∀ eng bp cs, .command (.processBatch eng bp cs) ∈ as →
      ∀ d, bp.quarantineDir = some d → Unnested d bp.pendingRoot) :
    Registry.hasHashImport w₁.reg.externalHashCache h = true ∧
      EveryBatchStep env cfg as w₁ fun bp cs e => ¬ e.op.Ingests env h bp cs e.pre := by
  refine ⟨(imported_rows himport).2 plans hplans plan hplan h hh, ?_⟩
  intro before eng bp cs rest has
  have hqs := hq eng bp cs (by simp [has])
  have hflow : Spares env h bp cs ((Command.processBatch eng bp cs).flow env cfg)
      (after env cfg before w₁) fun _ _ => True :=
    spares_bind (spares_processBatch hqs) fun _ _ => trivial
  exact (given_trace hflow fun e he => hfinds before eng bp cs rest has e he).1

/-! A library of one photo, which is then uploaded once more. -/

def sampleTools : HashTools where
  sha1 _ := "86f7e437faa5a7fce15d1ddcb9eaeaea377667b8"
  decode _ := none
  directoryHash _ := .ok "adc83b19e793491b1c6ea0fd8b46cd9f32e592fc"
  statRaises p := 255 < p.name.length
  dirExists _ := true

/-- The same photo in the library and in staging. -/
def libraryWorld : World :=
  sampleWorld [(["library", "IMG.JPG"], [97]), (["staging", "x"], [97])] Registry.empty

def libraryPlan : HashImportDirectoryPlan := ⟨["library"], .recompute, [shaA], false⟩

/-- The machine after the import. -/
def importedWorld : World := (runHashImport sampleEnv sampleTools ["library"] 500 libraryWorld).2

def uploadBatch : Action :=
  .command (.processBatch ⟨none⟩ sampleBatch [sampleCandidate "id1" ["staging", "x"]])

/-- A run of one action has one batch, that action. -/
theorem everyBatchStep_single {env : Env} {cfg : CoreConfig} {eng : Engine} {bp : BatchParams}
    {cs : List StagedCandidate} {w : World}
    {P : BatchParams → List StagedCandidate → Event Ops World → Prop} :
    EveryBatchStep env cfg [.command (.processBatch eng bp cs)] w P ↔
      ∀ e ∈ Action.events env cfg w (.command (.processBatch eng bp cs)), P bp cs e := by
  constructor
  · intro hp
    exact hp [] eng bp cs [] rfl
  · intro hp before eng' bp' cs' rest heq
    have hnil : before = [] := by
      cases before with
      | nil => rfl
      | cons a before => simp at heq
    subst hnil
    simp only [List.nil_append, List.cons.injEq, Action.command.injEq,
      Command.processBatch.injEq] at heq
    obtain ⟨⟨rfl, rfl, rfl⟩, -⟩ := heq
    exact hp

/-- A library of one photo, the same photo among the accepted files, and in staging. -/
def filedWorld : World :=
  sampleWorld
    [(["library", "IMG.JPG"], [97]), (["lib", "accepted", "IMG.JPG"], [97]), (["staging", "x"], [97])]
    { Registry.empty with
      files := Table.put ∅ shaA (sampleRow .accepted (some ["lib", "accepted", "IMG.JPG"])) }

/-- A photo imported, and accepted before, is uploaded again: the batch looks its hash
up and finds the row. -/
theorem imported_not_ingested_sample :
    (∃ e ∈ Action.events sampleEnv sampleConfig
      (runHashImport sampleEnv sampleTools ["library"] 500 filedWorld).2 uploadBatch,
      e.op.isGetFile shaA = true) ∧
    Registry.hasHashImport (runHashImport sampleEnv sampleTools ["library"] 500
        filedWorld).2.reg.externalHashCache shaA = true ∧
      EveryBatchStep sampleEnv sampleConfig [uploadBatch]
        (runHashImport sampleEnv sampleTools ["library"] 500 filedWorld).2
        fun bp cs e => ¬ e.op.Ingests sampleEnv shaA bp cs e.pre := by
  refine ⟨by decide +kernel, imported_not_ingested sampleEnv sampleConfig sampleTools ["library"] 500
    filedWorld _ ⟨1, 1, 0, 0, 1, 0, [⟨1, 1, 0⟩]⟩ [libraryPlan] libraryPlan shaA ?_
    (by decide +kernel) (by simp) (by simp [libraryPlan]) [uploadBatch] ?_ ?_⟩
  · exact Prod.ext (by decide +kernel) rfl
  · refine everyBatchStep_single.mpr fun e he hop => ?_
    have hfound : ∀ e ∈ Action.events sampleEnv sampleConfig
        (runHashImport sampleEnv sampleTools ["library"] 500 filedWorld).2 uploadBatch,
        e.op.isGetFile shaA = true → (e.pre.reg.files.get shaA).isSome = true := by decide +kernel
    exact hfound e he (by simp [hop, Op.isGetFile])
  · intro eng bp cs hmem d hd
    simp only [uploadBatch, List.mem_singleton, Action.command.injEq,
      Command.processBatch.injEq] at hmem
    obtain ⟨-, rfl, -⟩ := hmem
    cases hd

/-- The library's photo is uploaded again: its hash was imported, and the batch
moves the staged file to pending. -/
theorem imported_ingested : ¬ ∀ (env : Env) (cfg : CoreConfig) (t : HashTools) (root : Path)
    (chunkSize : Int) (w w₁ : World) (summary : HashImportSummary)
    (plans : List HashImportDirectoryPlan) (plan : HashImportDirectoryPlan) (h : String),
    runHashImport env t root chunkSize w = (.ok summary, w₁) →
    collectHashImportPlans env t w.fs root = .ok plans → plan ∈ plans →
    h ∈ plan.sha256Values → ∀ as : List Action,
    EveryBatchStep env cfg as w₁ fun bp cs e => ¬ e.op.Ingests env h bp cs e.pre := by
  intro hall
  have hrun := hall sampleEnv sampleConfig sampleTools ["library"] 500 libraryWorld
    importedWorld ⟨1, 1, 0, 0, 1, 0, [⟨1, 1, 0⟩]⟩ [libraryPlan] libraryPlan shaA
    (Prod.ext (by decide +kernel) rfl) (by decide +kernel) (by simp) (by simp [libraryPlan])
    [uploadBatch]
  have hmoved : ∃ e ∈ Action.events sampleEnv sampleConfig importedWorld uploadBatch,
      e.op.moves ["staging", "x"] ["lib", "pending", "2024", "01", "IMG.JPG"] = true ∧
        (e.pre.fs.get ["staging", "x"]).map sampleEnv.sha256 = some shaA := by decide +kernel
  obtain ⟨e, he, hmove, hhash⟩ := hmoved
  refine everyBatchStep_single.mp hrun e he ?_
  cases hop : e.op with
  | replace src dst =>
    simp only [hop, Op.moves, Bool.and_eq_true, beq_iff_eq] at hmove
    obtain ⟨rfl, rfl⟩ := hmove
    exact ⟨⟨sampleCandidate "id1" ["staging", "x"], by simp, rfl⟩, by decide, hhash⟩
  | _ => simp [hop, Op.moves] at hmove

end Nightfall
