import Nightfall.L3Flows.OperatorSpecs
import Nightfall.L4System.System

/-!
# Where the file of a row is

Every row with a path points at a file with the row's content, below the root
of the row's status. A file and its row change in separate steps, so this holds
between commands, also between commands that raised.

* `Located.update`, `Located.frame`: the two ways a command changes the rows.
* `wp_*_located`: each command keeps `Located`.
* `located_after`: every sequential run keeps it.
-/
namespace Nightfall
open Nightfall.Core Storage Prog

/-- The root a row with a path of this status has to be below. -/
def rootOf (cfg : CoreConfig) : Status → Option Path
  | .pending => some cfg.pendingPath
  | .accepted => some cfg.acceptedPath
  | .rejected => some cfg.rejectedPath
  | .purged => none

/-- The row's path, if it has one, holds the row's content below its root. -/
def RowPlaced (env : Env) (cfg : CoreConfig) (fs : Table Path Bytes) (sha : String)
    (row : FileRecord) : Prop :=
  ∀ p, row.currentPath = some p → ∃ b root, fs.get p = some b ∧ env.sha256 b = sha ∧
    rootOf cfg row.status = some root ∧ Under root p

def Located (env : Env) (cfg : CoreConfig) (w : World) : Prop :=
  ∀ sha row, w.reg.files.get sha = some row → RowPlaced env cfg w.fs sha row

/-- A directory apart from the queue roots. -/
structure Apart (cfg : CoreConfig) (root : Path) : Prop where
  pending : Unnested cfg.pendingPath root
  accepted : Unnested cfg.acceptedPath root
  rejected : Unnested cfg.rejectedPath root

/-- The pending and the accepted root are on one filesystem. -/
def SamePool (env : Env) (cfg : CoreConfig) : Prop :=
  ∀ p q, Under cfg.pendingPath p → Under cfg.acceptedPath q →
    env.device p.dropLast = env.device q.dropLast

variable {env : Env} {cfg : CoreConfig} {w w' : World}

theorem rowPlaced_null {fs : Table Path Bytes} {sha : String} {row : FileRecord}
    (h : row.currentPath = none) : RowPlaced env cfg fs sha row := by
  intro p hp
  rw [h] at hp
  cases hp

/-! ## The file of a row stays -/

section Paths
variable {k : String} {row : FileRecord} {p : Path}

/-- Two rows never share a path: the file hashes to one of them only. -/
theorem Located.ne_of_row (h : Located env cfg w) {sha : String} {own : FileRecord} {q : Path}
    (hk : k ≠ sha) (hrow : w.reg.files.get k = some row) (hp : row.currentPath = some p)
    (hown : w.reg.files.get sha = some own) (hq : own.currentPath = some q) : p ≠ q := by
  rintro rfl
  obtain ⟨b, -, hb, hsha, -⟩ := h k row hrow p hp
  obtain ⟨b', -, hb', hsha', -⟩ := h sha own hown p hq
  rw [hb] at hb'
  cases hb'
  exact hk (hsha.symm.trans hsha')

theorem Located.ne_of_free (h : Located env cfg w) {d : Path} (hfree : w.fs.get d = none)
    (hrow : w.reg.files.get k = some row) (hp : row.currentPath = some p) : p ≠ d := by
  rintro rfl
  obtain ⟨b, -, hb, -⟩ := h k row hrow p hp
  rw [hfree] at hb
  cases hb

theorem Located.ne_of_apart (h : Located env cfg w) {root q : Path} (hroot : Apart cfg root)
    (hq : root <+: q) (hrow : w.reg.files.get k = some row) (hp : row.currentPath = some p) :
    p ≠ q := by
  rintro rfl
  obtain ⟨b, r, -, -, hr, hu⟩ := h k row hrow p hp
  have hun : Unnested r root := by
    cases hst : row.status <;> rw [hst] at hr <;> cases hr
    · exact hroot.pending
    · exact hroot.accepted
    · exact hroot.rejected
  exact hun.disjoint hu.within hq

end Paths

/-- The rows stay, and so do their files. -/
theorem Located.frame (h : Located env cfg w) (hfiles : w'.reg.files = w.reg.files)
    (hkeep : ∀ k row p, w.reg.files.get k = some row → row.currentPath = some p →
      w'.fs.get p = w.fs.get p) : Located env cfg w' := by
  intro k row hrow p hp
  rw [hfiles] at hrow
  obtain ⟨b, root, hb, hrest⟩ := h k row hrow p hp
  exact ⟨b, root, by rw [hkeep k row p hrow hp, hb], hrest⟩

theorem Located.still (h : Located env cfg w) (hw : Still w w') : Located env cfg w' :=
  h.frame (by rw [hw.reg]) fun _ _ _ _ _ => by rw [hw.fs]

/-- One row is written and placed, the other rows and their files stay. -/
theorem Located.update (h : Located env cfg w) {sha : String} {row : FileRecord}
    (hget : w'.reg.files.get sha = some row)
    (hothers : ∀ k, k ≠ sha → w'.reg.files.get k = w.reg.files.get k)
    (hrow : RowPlaced env cfg w'.fs sha row)
    (hkeep : ∀ k row p, k ≠ sha → w.reg.files.get k = some row → row.currentPath = some p →
      w'.fs.get p = w.fs.get p) : Located env cfg w' := by
  intro k row' hk'
  by_cases hk : k = sha
  · subst hk
    rw [hget] at hk'
    cases hk'
    exact hrow
  · rw [hothers k hk] at hk'
    intro p hp
    obtain ⟨b, root, hb, hrest⟩ := h k row' hk' p hp
    exact ⟨b, root, by rw [hkeep k row' p hk hk' hp, hb], hrest⟩

theorem Located.put (h : Located env cfg w) {sha : String} {row : FileRecord}
    (hfiles : w'.reg.files = w.reg.files.put sha row) (hrow : RowPlaced env cfg w'.fs sha row)
    (hkeep : ∀ k row p, k ≠ sha → w.reg.files.get k = some row → row.currentPath = some p →
      w'.fs.get p = w.fs.get p) : Located env cfg w' :=
  h.update (by rw [hfiles]; exact Table.get_put_self _ _ _)
    (fun k hk => by rw [hfiles, Table.get_put, if_neg hk]) hrow hkeep

/-- A file that lies apart from the queue roots is dropped. -/
theorem Located.drop_apart (h : Located env cfg w) {root q : Path} (hroot : Apart cfg root)
    (hq : root <+: q) (hfs : w'.fs = w.fs.drop q) (k : String) (row : FileRecord) (p : Path)
    (hrow : w.reg.files.get k = some row) (hp : row.currentPath = some p) :
    w'.fs.get p = w.fs.get p := by
  rw [hfs, Table.get_drop, if_neg (h.ne_of_apart hroot hq hrow hp)]

/-- A file moves to a free path; the rows whose file is another one keep it. -/
theorem Located.moved (h : Located env cfg w) {src d : Path} {b : Bytes}
    (hm : Moved src d b w w') (hfree : w.fs.get d = none) {k : String} {row : FileRecord} {p : Path}
    (hrow : w.reg.files.get k = some row) (hp : row.currentPath = some p) (hne : p ≠ src) :
    w'.fs.get p = w.fs.get p :=
  hm.get_of_ne (h.ne_of_free hfree hrow hp) hne

/-! ## Ingest -/

/-- The parameters of a batch over the layout: rename mode, the configured
pending root, a staging root and a quarantine apart from the queue roots. -/
structure Placed (cfg : CoreConfig) (staging : Path) (ps : IngestParams) : Prop where
  mode : ps.stagingOnSamePool = true
  root : ps.pendingRoot = cfg.pendingPath
  template : namesFile ps.storageTemplate = true
  staging : Apart cfg staging
  quarantine : ∀ q, ps.quarantineDir = some q → Apart cfg q

section Ingest
variable {eng : Engine} {ps : IngestParams} {c : StagedCandidate} {staging : Path}

theorem wp_decideByHash_located {opId : String} {b : Bytes} (hsha : ∀ b, IsSha (env.sha256 b))
    (hps : Placed cfg staging ps) (hc : staging <+: c.stagingPath) (h : Located env cfg w)
    (hb : w.fs.get c.stagingPath = some b) :
    (decideByHash env eng ps c opId b.length).Wp (handle env) w fun _ w' => Located env cfg w' := by
  refine wp_decideByHash hb ?_ ?_ ?_
  · -- a block rule: the row loses its path, so nothing is left to place
    intro w₁ rule h₁ _
    refine wp_rejectBlocked fun w₂ row hfs _ hpath hf => ?_
    refine (h.still h₁).put hf (rowPlaced_null hpath) fun k row' p _ => ?_
    exact (h.still h₁).drop_apart hps.staging hc hfs k row' p
  · intro w₁ h₁ _ _
    have hl := h.still h₁
    refine wp_ingestUnknown hps.mode hps.template (hsha b) ?_ fun e w₂ h₂ => hl.still h₂
    intro d b' row w₂ hfree hd hm hst hpath hf
    have hbb : b' = b := by
      have := hm.1
      rw [h₁.fs, hb] at this
      exact (Option.some.inj this).symm
    refine hl.put hf ?_ fun k row' p _ hrow' hp =>
      hl.moved hm hfree hrow' hp (hl.ne_of_apart hps.staging hc hrow' hp)
    intro p hp
    rw [hpath] at hp
    cases hp
    refine ⟨b', cfg.pendingPath, hm.get_dst, by rw [hbb], by rw [hst]; rfl, ?_⟩
    rw [← hps.root]
    exact hd
  · intro w₁ record h₁ _ hrec
    refine wp_discardKnown (b := b) (by rw [h₁.fs, hb]) (by rw [h₁.reg, hrec]) fun w₂ hfs hf => ?_
    exact (h.still h₁).frame hf ((h.still h₁).drop_apart hps.staging hc hfs)

theorem wp_processOne_located (hsha : ∀ b, IsSha (env.sha256 b)) (hps : Placed cfg staging ps)
    (hc : staging <+: c.stagingPath) (h : Located env cfg w) :
    (processOne env eng ps c).Wp (handle env) w fun _ w' => Located env cfg w' := by
  refine wp_processOne (fun w' _ hw => h.still hw) ?_ ?_
  · intro b a w' hb _ _ hreg hfs
    refine h.frame (by rw [hreg]) fun k row p hrow hp => ?_
    rcases hfs with hfs | ⟨q, target, hq, ht, -, hfs⟩
    · exact h.drop_apart hps.staging hc hfs k row p hrow hp
    · have hm : Moved c.stagingPath target b w w' := ⟨hb, hfs⟩
      exact hm.get_of_ne (h.ne_of_apart (hps.quarantine q hq) ht hrow hp)
        (h.ne_of_apart hps.staging hc hrow hp)
  · intro b opId w₁ hb _ h₁
    have hl := h.still h₁
    have hb₁ : w₁.fs.get c.stagingPath = some b := by rw [h₁.fs, hb]
    refine wp_decideStaged (fun st sha _ => ?_) fun _ =>
      wp_decideByHash_located hsha hps hc hl hb₁
    exact wp_discardPrefiltered fun w₂ hfs hf => hl.frame hf (hl.drop_apart hps.staging hc hfs)

theorem wp_processAll_located (hsha : ∀ b, IsSha (env.sha256 b)) (hps : Placed cfg staging ps) :
    ∀ (cs : List (Nat × StagedCandidate)) (w : World), (∀ c ∈ cs, staging <+: c.2.stagingPath) →
      Located env cfg w →
      (processAll env eng ps cs).Wp (handle env) w fun _ w' => Located env cfg w'
  | [], _, _, h => wp_ret.mpr h
  | (index, c) :: cs, w, hcs, h => by
    unfold processAll
    have hc := hcs (index, c) List.mem_cons_self
    refine wp_bind.mpr (wp_mono ?_ (wp_processOne_located hsha hps hc h))
    rintro (e | out) w₁ h₁
    · exact h₁
    · refine wp_bind.mpr (wp_mono ?_ (wp_processAll_located hsha hps cs w₁
        (fun c' hc' => hcs c' (List.mem_cons_of_mem _ hc')) h₁))
      rintro (e | outs) w₂ h₂
      · exact h₂
      · exact wp_ret.mpr h₂

/-- The loop over the outcomes writes no row of `files`. -/
theorem keepsRows_recordOutcomes {hs : Option LivePhotoHeuristics} {batchRunId : String}
    (outs : List (Nat × StagedCandidate × IngestOutcome)) (done : Nat) (queued : List Queued)
    (shas : Table String String) :
    (recordOutcomes env hs batchRunId done queued shas outs).Calls Op.KeepsRows := by
  refine calls_recordOutcomes (P := Op.KeepsRows) rfl (fun _ _ _ _ _ r r' now h => ?_)
    (fun _ _ _ _ _ _ _ _ r r' now h => ?_) outs done queued shas
  · exact Registry.files_upsertLivePhotoPair h
  · cases h
    rfl

/-- The parameters of a whole batch over the layout. -/
structure BatchPlaced (cfg : CoreConfig) (staging : Path) (bp : BatchParams)
    (cs : List StagedCandidate) : Prop where
  mode : bp.stagingOnSamePool = true
  root : bp.pendingRoot = cfg.pendingPath
  quarantine : ∀ q, bp.quarantineDir = some q → Apart cfg q
  candidates : ∀ c ∈ cs, staging <+: c.stagingPath

theorem namesFile_of_lint {template : String} (h : lintStorageTemplate template = []) :
    namesFile template = true := by
  by_contra hno
  simp [lintStorageTemplate, hno] at h

theorem wp_runBatch_located {bp : BatchParams} {policy : ZeroBytePolicy}
    {cs : List StagedCandidate} (hsha : ∀ b, IsSha (env.sha256 b)) (hstaging : Apart cfg staging)
    (hbp : BatchPlaced cfg staging bp cs) (ht : namesFile bp.storageTemplate = true)
    (h : Located env cfg w) :
    (runBatch env eng bp policy cs).Wp (handle env) w fun _ w' => Located env cfg w' := by
  unfold runBatch
  refine wp_bind.mpr (wp_op.mpr (wp_ret.mpr ?_))
  simp only [thenWp_ok]
  refine wp_bind.mpr (wp_quiet (calls_enforceHeuristics _) fun r w₁ h₁ => ?_)
  have hl : Located env cfg w₁ := h.still ⟨h₁.fs, h₁.reg⟩
  cases r with
  | error e => exact hl
  | ok u =>
    have hps : Placed cfg staging (bp.ingest policy) :=
      ⟨hbp.mode, hbp.root, ht, hstaging, hbp.quarantine⟩
    refine wp_bind.mpr (wp_mono ?_ (wp_processAll_located hsha hps _ w₁
      (fun c hc => hbp.candidates c.2 (mem_scheduled hc)) hl))
    rintro (e | outs) w₂ h₂
    · exact h₂
    · refine wp_bind.mpr ((keepsRows_recordOutcomes _ _ _ _).wp (R := SameRows)
        (fun _ => ⟨rfl, rfl⟩) (fun _ _ _ => SameRows.trans) (fun _ _ => sameRows_handle) ?_)
      rintro (e | u) w₃ h₃
      · exact h₂.frame h₃.files fun _ _ _ _ _ => by rw [h₃.fs]
      · exact wp_ret.mpr (h₂.frame h₃.files fun _ _ _ _ _ => by rw [h₃.fs])

theorem wp_processBatch_located {bp : BatchParams} {cs : List StagedCandidate}
    (hsha : ∀ b, IsSha (env.sha256 b)) (hstaging : Apart cfg staging)
    (hbp : BatchPlaced cfg staging bp cs) (h : Located env cfg w) :
    (processBatch env eng bp cs).Wp (handle env) w fun _ w' => Located env cfg w' := by
  unfold processBatch
  refine wp_bind.mpr (wp_quiet calls_validateBatchContract fun r w₁ h₁ => ?_)
  have hl := h.still h₁
  cases r with
  | error e => exact hl
  | ok u =>
    simp only [thenWp_ok]
    split
    · exact wp_err.mpr hl
    · split
      · exact wp_err.mpr hl
      · split
        · exact wp_err.mpr hl
        · next hlint =>
          exact wp_runBatch_located hsha hstaging hbp (namesFile_of_lint (not_not.mp hlint)) hl

end Ingest

/-! ## Operator commands -/

section Operator
variable {sha : String}

/-- What the trash loop carries along. -/
def LocatedNoPairs (env : Env) (cfg : CoreConfig) (w : World) : Prop :=
  Located env cfg w ∧ w.reg.livePhotoPairs = []

/-- Reject, with a file of that content to keep for an unknown hash; the file
lies apart from the queue roots. -/
theorem wp_applyReject_located {reason actor : String} {name : Option String} {size : Nat}
    {incoming : Option Path} (hs : IsSha sha)
    (hin : ∀ s, incoming = some s → (∃ root, Apart cfg root ∧ root <+: s) ∧
      ∀ b, w.fs.get s = some b → env.sha256 b = sha)
    (h : LocatedNoPairs env cfg w) :
    (applyReject env cfg sha reason actor name size incoming).Wp (handle env) w
      fun _ w' => LocatedNoPairs env cfg w' := by
  obtain ⟨hl, hpairs⟩ := h
  have hstill : ∀ w', Still w w' → LocatedNoPairs env cfg w' := fun w' hw =>
    ⟨hl.still hw, by rw [hw.reg]; exact hpairs⟩
  refine wp_applyReject hs hpairs ?_ ?_ ?_ ?_ fun _ w' hw => hstill w' hw
  · intro _
    refine wp_rejectUnknown hs ?_ ?_ fun _ w' hw => hstill w' hw
    · intro row w' _ _ hnull hfs hf hp
      exact ⟨hl.put hf (rowPlaced_null hnull) fun _ _ _ _ _ _ => by rw [hfs], hp.trans hpairs⟩
    · intro s d b row w' hsrc hfree hd hm hst hpath hf hp
      obtain ⟨⟨root, hroot, hpre⟩, hcontent⟩ := hin s hsrc
      refine ⟨hl.put hf ?_ fun k row' p _ hrow' hp' =>
        hl.moved hm hfree hrow' hp' (hl.ne_of_apart hroot hpre hrow' hp'), hp.trans hpairs⟩
      intro p hp'
      rw [hpath] at hp'
      cases hp'
      exact ⟨b, cfg.rejectedPath, hm.get_dst, hcontent b hm.1, by rw [hst]; rfl, hd⟩
  · intro row w' _ _ hfs hf hp
    exact ⟨hl.frame hf fun _ _ _ _ _ => by rw [hfs], hp.trans hpairs⟩
  · intro row row' w' _ _ _ _ hnull hfs hget hothers hp
    exact ⟨hl.update hget hothers (rowPlaced_null hnull) fun _ _ _ _ _ _ => by rw [hfs],
      hp.trans hpairs⟩
  · intro row row' p d b w' hrow _ hpath _ hfree hd hm hst' hpath' hget hothers hp
    refine ⟨hl.update hget hothers ?_ fun k row'' q hk hrow'' hq =>
      hl.moved hm hfree hrow'' hq (hl.ne_of_row hk hrow'' hq hrow hpath), hp.trans hpairs⟩
    intro q hq
    rw [hpath'] at hq
    cases hq
    obtain ⟨b', -, hb', hsha', -⟩ := hl sha row hrow p hpath
    rw [hm.1] at hb'
    cases hb'
    exact ⟨b, cfg.rejectedPath, hm.get_dst, hsha', by rw [hst']; rfl, hd⟩

theorem wp_rejectSha256_located {reason : Option String} {actor : String}
    (h : LocatedNoPairs env cfg w) :
    (rejectSha256 env cfg sha reason actor).Wp (handle env) w fun _ w' => Located env cfg w' := by
  unfold rejectSha256
  refine wp_withNormalizedSha (fun _ => h.1) fun n hn => ?_
  refine wp_mono (fun _ _ h' => h'.1) (wp_applyReject_located (normalizeSha_isSha hn) ?_ h)
  intro s hs
  cases hs

theorem wp_acceptSha256_located {reason : Option String} {actor : String}
    (hdev : SamePool env cfg) (h : Located env cfg w) :
    (acceptSha256 env cfg sha reason actor).Wp (handle env) w fun _ w' => Located env cfg w' := by
  have hpool : ∀ n row p q, w.reg.files.get n = some row → row.status = .pending →
      row.currentPath = some p → Under cfg.acceptedPath q →
      env.device p.dropLast = env.device q.dropLast := by
    intro n row p q hrow hst hp hq
    obtain ⟨_, root, -, -, hroot, hu⟩ := h n row hrow p hp
    rw [hst] at hroot
    cases hroot
    exact hdev p q hu hq
  refine wp_acceptSha256 hpool ?_ fun _ w' hw => h.still hw
  intro n row row' p d b w' _ hrow _ hpath _ hfree hd hm hst' hpath' hf
  refine h.put hf ?_ fun k row'' q hk hrow'' hq =>
    h.moved hm hfree hrow'' hq (h.ne_of_row hk hrow'' hq hrow hpath)
  intro q hq
  rw [hpath'] at hq
  cases hq
  obtain ⟨b', -, hb', hsha', -⟩ := h n row hrow p hpath
  rw [hm.1] at hb'
  cases hb'
  exact ⟨b, cfg.acceptedPath, hm.get_dst, hsha', by rw [hst']; rfl, hd⟩

theorem wp_purgeSha256_located {reason : Option String} {actor : String}
    (h : Located env cfg w) :
    (purgeSha256 cfg sha reason actor).Wp (handle env) w fun _ w' => Located env cfg w' := by
  refine wp_purgeSha256 ?_ fun _ w' hw => h.still hw
  intro n row row' _ w' _ hrow _ hfs _ hnull hf
  refine h.put hf (rowPlaced_null hnull) fun k row'' q hk hrow'' hq => ?_
  rcases hfs with hfs | ⟨p, hp, -, hfs⟩
  · rw [hfs]
  · rw [hfs, Table.get_drop, if_neg (h.ne_of_row hk hrow'' hq hrow hp)]

theorem mem_filesBelow {fs : Table Path Bytes} {root p : Path} :
    p ∈ filesBelow fs root ↔ (∃ b, fs.get p = some b) ∧ root <+: p ∧ root.length < p.length := by
  simp only [filesBelow, List.mem_insertionSort, List.mem_filter, Table.mem_keys_iff,
    Bool.and_eq_true, List.isPrefixOf_iff_prefix, decide_eq_true_eq]

theorem wp_trashOne_located {file : Path} (hsha : ∀ b, IsSha (env.sha256 b))
    (htrash : Apart cfg cfg.trashPath) (hfile : cfg.trashPath <+: file)
    (h : LocatedNoPairs env cfg w) :
    (trashOne env cfg file).Wp (handle env) w fun _ w' => LocatedNoPairs env cfg w' := by
  unfold trashOne
  cases hb : w.fs.get file with
  | none => exact wp_bind.mpr ((wp_sha256File_none hb).mpr h)
  | some b =>
    refine wp_bind.mpr ((wp_sha256File hb).mpr (wp_bind.mpr ((wp_statSize hb).mpr ?_)))
    refine wp_bind.mpr (wp_mono ?_ (wp_applyReject_located (hsha b) ?_ h))
    · rintro (e | r) w₁ h₁
      · exact h₁
      · refine wp_bind.mpr (wp_unlink fun w₂ hfs hreg => wp_ret.mpr ⟨?_, by rw [hreg, h₁.2]⟩)
        exact h₁.1.frame (by rw [hreg]) (h₁.1.drop_apart htrash hfile hfs)
    · intro s hs
      cases hs
      refine ⟨⟨cfg.trashPath, htrash, hfile⟩, fun b' hb' => ?_⟩
      rw [hb] at hb'
      cases hb'
      rfl

theorem wp_trashLoop_located (hsha : ∀ b, IsSha (env.sha256 b))
    (htrash : Apart cfg cfg.trashPath) :
    ∀ (files : List Path) (acc : TrashProcessResult) (w : World),
      (∀ f ∈ files, cfg.trashPath <+: f) → LocatedNoPairs env cfg w →
      (trashLoop env cfg files acc).Wp (handle env) w fun _ w' => LocatedNoPairs env cfg w'
  | [], _, _, _, h => wp_ret.mpr h
  | file :: files, acc, w, hfiles, h => by
    unfold trashLoop
    refine wp_bind.mpr (wp_mono ?_
      (wp_trashOne_located hsha htrash (hfiles file List.mem_cons_self) h))
    rintro (e | r) w₁ h₁
    · exact h₁
    · exact wp_trashLoop_located hsha htrash files _ w₁
        (fun f hf => hfiles f (List.mem_cons_of_mem _ hf)) h₁

theorem wp_processTrash_located (hsha : ∀ b, IsSha (env.sha256 b))
    (htrash : Apart cfg cfg.trashPath) (h : LocatedNoPairs env cfg w) :
    (processTrash env cfg).Wp (handle env) w fun _ w' => Located env cfg w' := by
  unfold processTrash
  refine wp_bind.mpr (wp_op.mpr (wp_ret.mpr ?_))
  refine wp_bind.mpr (wp_mono ?_ (wp_trashLoop_located hsha htrash (filesBelow w.fs cfg.trashPath)
    ⟨0, 0, 0, 0, []⟩ w (fun f hf => (mem_filesBelow.mp hf).2.1) h))
  rintro (e | r) w₁ h₁
  · exact h₁.1
  · exact wp_ret.mpr h₁.1

end Operator

/-! ## Every run -/

/-- What may come next in a run without pairs: any command, a batch over the
layout, or outside new files in staging and trash (and any block rules). -/
def Permitted (cfg : CoreConfig) (staging : Path) (w : World) : Action → Prop
  | .command (.processBatch _ bp cs) =>
    w.reg.livePhotoPairs = [] ∧ BatchPlaced cfg staging bp cs
  | .command _ => w.reg.livePhotoPairs = []
  | .outside fs _ => ∀ p, fs.get p ≠ w.fs.get p →
    w.fs.get p = none ∧ (staging <+: p ∨ cfg.trashPath <+: p)

def PermittedRun (env : Env) (cfg : CoreConfig) (staging : Path) : List Action → World → Prop
  | [], _ => True
  | a :: as, w => Permitted cfg staging w a ∧ PermittedRun env cfg staging as (a.after env cfg w)

/-- A flow that ends in `Located` still does with its result dropped. -/
theorem located_of_flow {α : Type} {p : Flow α}
    (h : p.Wp (handle env) w fun _ w' => Located env cfg w') :
    (do let _ ← p : Flow Unit).Wp (handle env) w fun _ w' => Located env cfg w' := by
  refine wp_bind.mpr (wp_mono ?_ h)
  rintro (e | r) w' h'
  · exact h'
  · exact wp_ret.mpr h'

theorem located_command {c : Command} {staging : Path} (hsha : ∀ b, IsSha (env.sha256 b))
    (hdev : SamePool env cfg) (hstaging : Apart cfg staging)
    (htrash : Apart cfg cfg.trashPath) (hc : Permitted cfg staging w (.command c))
    (h : Located env cfg w) :
    (c.flow env cfg).Wp (handle env) w fun _ w' => Located env cfg w' := by
  cases c <;> simp only [Command.flow]
  case processBatch eng bp cs =>
    exact located_of_flow (wp_processBatch_located hsha hstaging hc.2 h)
  case acceptSha256 sha reason actor => exact located_of_flow (wp_acceptSha256_located hdev h)
  case rejectSha256 sha reason actor => exact located_of_flow (wp_rejectSha256_located ⟨h, hc⟩)
  case processTrash => exact located_of_flow (wp_processTrash_located hsha htrash ⟨h, hc⟩)
  case purgeSha256 sha reason actor => exact located_of_flow (wp_purgeSha256_located h)

theorem located_action {a : Action} {staging : Path} (hsha : ∀ b, IsSha (env.sha256 b))
    (hdev : SamePool env cfg) (hstaging : Apart cfg staging)
    (htrash : Apart cfg cfg.trashPath) (ha : Permitted cfg staging w a) (h : Located env cfg w) :
    Located env cfg (a.after env cfg w) := by
  cases a with
  | command c => exact wp_iff.mp (located_command hsha hdev hstaging htrash ha h)
  | outside fs rules =>
    refine h.frame rfl fun k row p hrow hp => ?_
    by_contra hne
    obtain ⟨b, -, hb, -⟩ := h k row hrow p hp
    rw [(ha p hne).1] at hb
    cases hb

/-- By induction on the run: each action keeps `Located`. -/
theorem located_run {staging : Path} (hsha : ∀ b, IsSha (env.sha256 b))
    (hdev : SamePool env cfg) (hstaging : Apart cfg staging)
    (htrash : Apart cfg cfg.trashPath) : ∀ (as : List Action) (w : World),
      PermittedRun env cfg staging as w → Located env cfg w → Located env cfg (after env cfg as w)
  | [], _, _, h => h
  | _ :: as, _, hrun, h => located_run hsha hdev hstaging htrash as _ hrun.2
      (located_action hsha hdev hstaging htrash hrun.1 h)

theorem sample_apart : Apart sampleConfig ["staging"] ∧
    Apart sampleConfig sampleConfig.trashPath := by
  constructor <;> constructor <;> constructor <;> decide +kernel

theorem sampleActions_permitted :
    PermittedRun sampleEnv sampleConfig ["staging"] sampleActions
      (sampleWorld [] Registry.empty) := by
  refine ⟨?_, ⟨by decide +kernel, rfl, rfl, nofun, ?_⟩, ?_, ?_, trivial⟩
  rotate_left 2
  · change _ = ([] : List LivePhotoPairRecord); decide +kernel
  · change _ = ([] : List LivePhotoPairRecord); decide +kernel
  · intro p hp
    rw [Table.get_put] at hp
    split at hp
    · next h => subst h; exact ⟨rfl, .inl (by decide +kernel)⟩
    · exact absurd rfl hp
  · intro c hc
    rw [List.mem_singleton] at hc
    subst hc
    exact ⟨["x"], rfl⟩

end Nightfall
