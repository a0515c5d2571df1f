import Nightfall.Core.Pool
import Nightfall.L3Flows.IngestSpecs
import Nightfall.L4System.System

/-!
# Workers that ingest different files at once

`worker_count > 1` and accounts polled in parallel run several `_process_one`
calls at once. A call checks that its destination is free and renames onto it
later; the rename overwrites whatever is there by then.

* `keeping`: the contract of one call. It changes only files that hold its own
  bytes and the row of their hash, provided every file it writes is new.
* `Kept`: how a call may end.
* `ingest_keeps_contents`: in every interleaving in which every write finds its
  target free, no content is lost and every pending row names its bytes.
* `worker_overwrites`: two files of one name, renamed one after the other.
-/
namespace Nightfall
open Nightfall.Core Storage Prog

/-! ## The contract of one call -/

/-- The files that hold `b` and the row of its hash stay. -/
structure KeepsOf (env : Env) (b : Bytes) (s t : World) : Prop where
  files : ∀ p, s.fs.get p = some b → t.fs.get p = some b
  row : t.reg.files.get (env.sha256 b) = s.reg.files.get (env.sha256 b)

/-- Only files that hold `b` and the row of its hash may change. -/
structure TouchesOnly (env : Env) (b : Bytes) (s t : World) : Prop where
  files : ∀ p b', s.fs.get p = some b' → b' ≠ b → t.fs.get p = some b'
  rows : ∀ sha, sha ≠ env.sha256 b → t.reg.files.get sha = s.reg.files.get sha

/-- A file is written only where none is. -/
def Op.writesFree (s : World) : Op → Bool
  | .replace _ dst => (s.fs.get dst).isNone
  | .copy2 _ dst => (s.fs.get dst).isNone
  | _ => true

/-- One call, whose staged file holds `b`. -/
def keeping (env : Env) (b : Bytes) : Contract Ops World where
  rely _ s t := KeepsOf env b s t
  cond _ o s := o.writesFree s = true
  guar _ s t := TouchesOnly env b s t
  rely_refl _ _ := ⟨fun _ h => h, rfl⟩
  rely_trans _ _ _ _ h h' := ⟨fun p hp => h'.files p (h.files p hp), h'.row.trans h.row⟩

section Contract
variable {env : Env} {b b' : Bytes} {s t : World}

theorem TouchesOnly.keeps (h : TouchesOnly env b s t) (hne : env.sha256 b' ≠ env.sha256 b) :
    KeepsOf env b' s t where
  files p hp := h.files p b' hp fun hb => hne (by rw [hb])
  row := h.rows _ hne

theorem TouchesOnly.still (h : Still s t) : TouchesOnly env b s t :=
  ⟨fun p b' hp _ => by rw [h.fs, hp], fun sha _ => by rw [h.reg]⟩

theorem KeepsOf.still (h : Still s t) : KeepsOf env b s t :=
  ⟨fun p hp => by rw [h.fs, hp], by rw [h.reg]⟩

/-- The row of the hash of `b`. -/
def RowIs (env : Env) (b : Bytes) (row : Option FileRecord) (s : World) : Prop :=
  s.reg.files.get (env.sha256 b) = row

/-- The files at `ps` hold `b`, and its hash has the row `row`. -/
structure Holding (env : Env) (b : Bytes) (ps : List Path) (row : Option FileRecord) (s : World) :
    Prop where
  file : ∀ p ∈ ps, s.fs.get p = some b
  row : RowIs env b row s

variable {ps : List Path} {row : Option FileRecord}

theorem KeepsOf.rowIs (hk : KeepsOf env b s t) (h : RowIs env b row s) : RowIs env b row t :=
  Eq.trans hk.row h

theorem KeepsOf.holding (hk : KeepsOf env b s t) (h : Holding env b ps row s) :
    Holding env b ps row t := ⟨fun p hp => hk.files p (h.file p hp), hk.rowIs h.row⟩

end Contract

/-! ## Steps -/

section Steps
variable {env : Env} {b : Bytes} {row : Option FileRecord} {ps qs : List Path} {p src dst : Path}
  {α : Type} {h : List (Event Ops World)} {s : World}

/-- A stretch of steps that write nothing. -/
theorem safe_holding {pr : Flow α} {Q : Except Err α → List (Event Ops World) → World → Prop}
    (hp : pr.Calls Op.Quiet) (hs : Holding env b ps row s)
    (hQ : ∀ r h' t, Holding env b ps row t → Q r (h ++ h') t) :
    Safe (handle env) (keeping env b) Q pr h s := by
  refine safe_calls (A := Op.Quiet) (R := KeepsOf env b) ?_ (fun _ _ _ hr => hr) ?_ hp ?_
  · exact fun _ _ _ h h' => (keeping env b).rely_trans [] _ _ _ h h'
  · exact fun o s ho => ⟨.still (still_handle ho), .still (still_handle ho)⟩
  · exact fun r h' t hk _ => hQ r h' t (hk.holding hs)

theorem safe_sha256File {Q : Except Err String → List (Event Ops World) → World → Prop}
    (hs : Holding env b ps row s) (hp : p ∈ ps)
    (hQ : ∀ h' t, Holding env b ps row t → Q (.ok (env.sha256 b)) (h ++ h') t) :
    Safe (handle env) (keeping env b) Q (sha256File p) h s := by
  intro s₁ hr _
  have hs₁ := KeepsOf.holding hr hs
  refine ⟨.still (.refl s₁), ?_⟩
  simp only [handle, hs₁.file p hp, Option.map_some]
  exact fun s₂ hr₂ => hQ _ s₂ (KeepsOf.holding hr₂ hs₁)

theorem safe_pathExists {Q : Except Err Bool → List (Event Ops World) → World → Prop}
    (hs : Holding env b ps row s) (hp : p ∈ ps)
    (hQ : ∀ h' t, Holding env b ps row t → Q (.ok true) (h ++ h') t) :
    Safe (handle env) (keeping env b) Q (pathExists p) h s := by
  intro s₁ hr _
  have hs₁ := KeepsOf.holding hr hs
  refine ⟨.still (.refl s₁), ?_⟩
  simp only [handle, hs₁.file p hp, Option.isSome_some]
  exact fun s₂ hr₂ => hQ _ s₂ (KeepsOf.holding hr₂ hs₁)

theorem safe_statSize {Q : Except Err Nat → List (Event Ops World) → World → Prop}
    (hs : Holding env b ps row s) (hp : p ∈ ps)
    (hQ : ∀ h' t, Holding env b ps row t → Q (.ok b.length) (h ++ h') t) :
    Safe (handle env) (keeping env b) Q (statSize p) h s := by
  intro s₁ hr _
  have hs₁ := KeepsOf.holding hr hs
  refine ⟨.still (.refl s₁), ?_⟩
  simp only [handle, hs₁.file p hp, Option.map_some]
  exact fun s₂ hr₂ => hQ _ s₂ (KeepsOf.holding hr₂ hs₁)

/-- A move onto a free path; the other own files stay. -/
theorem safe_replaceFile {Q : Except Err Unit → List (Event Ops World) → World → Prop}
    (hs : Holding env b (src :: qs) row s) (hq : src ∉ qs)
    (hQ : ∀ h' t, dst ∉ qs → Holding env b (dst :: qs) row t → Q (.ok ()) (h ++ h') t) :
    Safe (handle env) (keeping env b) Q (replaceFile src dst) h s := by
  intro s₁ hr hfree
  have hfree : s₁.fs.get dst = none := Option.isNone_iff_eq_none.mp hfree
  have hs₁ := KeepsOf.holding hr hs
  have hsrc := hs₁.file src List.mem_cons_self
  have hdst : dst ∉ qs := fun hd => by
    rw [hs₁.file dst (List.mem_cons_of_mem _ hd)] at hfree; cases hfree
  simp only [handle, moveFile, hsrc, Option.map_some]
  refine ⟨⟨fun p b' hp hne => ?_, fun _ _ => rfl⟩, fun s₂ hr₂ => ?_⟩
  · have hpd : p ≠ dst := by rintro rfl; rw [hfree] at hp; cases hp
    have hps : p ≠ src := by rintro rfl; rw [hsrc] at hp; exact hne (Option.some.inj hp).symm
    rw [Table.get_put, if_neg hpd, Table.get_drop, if_neg hps, hp]
  · refine hQ _ s₂ hdst (KeepsOf.holding hr₂ ⟨fun p hp => ?_, hs₁.row⟩)
    rcases List.mem_cons.mp hp with rfl | hp'
    · simp
    · have hpd : p ≠ dst := by rintro rfl; exact hdst hp'
      have hps : p ≠ src := by rintro rfl; exact hq hp'
      simp only
      rw [Table.get_put, if_neg hpd, Table.get_drop, if_neg hps,
        hs₁.file p (List.mem_cons_of_mem _ hp')]

/-- A copy onto a free path. -/
theorem safe_copy2 {Q : Except Err Unit → List (Event Ops World) → World → Prop}
    (hs : Holding env b ps row s) (hp : src ∈ ps)
    (herr : ∀ e t, Holding env b ps row t → Q (.error e) h t)
    (hQ : ∀ h' t, dst ∉ ps → Holding env b (dst :: ps) row t → Q (.ok ()) (h ++ h') t) :
    Safe (handle env) (keeping env b) Q (copy2 src dst) h s := by
  rw [copy2]
  split
  · exact fun s₁ hr => herr _ s₁ (KeepsOf.holding hr hs)
  intro s₁ hr hfree
  have hfree : s₁.fs.get dst = none := Option.isNone_iff_eq_none.mp hfree
  have hs₁ := KeepsOf.holding hr hs
  have hdst : dst ∉ ps := fun hd => by rw [hs₁.file dst hd] at hfree; cases hfree
  simp only [handle, copyFile, hs₁.file src hp, Option.map_some]
  refine ⟨⟨fun p b' hp _ => ?_, fun _ _ => rfl⟩, fun s₂ hr₂ => ?_⟩
  · have hpd : p ≠ dst := by rintro rfl; rw [hfree] at hp; cases hp
    rw [Table.get_put, if_neg hpd, hp]
  · refine hQ _ s₂ hdst (KeepsOf.holding hr₂ ⟨fun p hp => ?_, hs₁.row⟩)
    rcases List.mem_cons.mp hp with rfl | hp'
    · simp
    · have hpd : p ≠ dst := by rintro rfl; exact hdst hp'
      simp only
      rw [Table.get_put, if_neg hpd, hs₁.file p hp']

/-- Removing an own file; the others stay. -/
theorem safe_unlink {Q : Except Err Unit → List (Event Ops World) → World → Prop}
    (hs : Holding env b (p :: qs) row s) (hq : p ∉ qs)
    (hQ : ∀ h' t, Holding env b qs row t → Q (.ok ()) (h ++ h') t) :
    Safe (handle env) (keeping env b) Q (unlink p) h s := by
  intro s₁ hr _
  have hs₁ := KeepsOf.holding hr hs
  refine ⟨⟨fun p' b' hp hne => ?_, fun _ _ => rfl⟩, fun s₂ hr₂ => ?_⟩
  · have hpp : p' ≠ p := by
      rintro rfl
      rw [hs₁.file p' List.mem_cons_self] at hp
      exact hne (Option.some.inj hp).symm
    simp only [handle]
    rw [Table.get_drop, if_neg hpp, hp]
  · refine hQ _ s₂ (KeepsOf.holding hr₂ ⟨fun p' hp => ?_, hs₁.row⟩)
    have hpp : p' ≠ p := by rintro rfl; exact hq hp
    simp only [handle]
    rw [Table.get_drop, if_neg hpp, hs₁.file p' (List.mem_cons_of_mem _ hp)]

/-- A transaction that writes no row but that of the hash, and commits. -/
theorem safe_transact {tx : Tx} {A : Option FileRecord → Prop}
    {Q : Except Err Unit → List (Event Ops World) → World → Prop} (hs : Holding env b ps row s)
    (hok : ∀ (r : Registry) now, r.files.get (env.sha256 b) = row → ∃ r', tx.apply r now = .ok r' ∧
      (∀ sha, sha ≠ env.sha256 b → r'.files.get sha = r.files.get sha) ∧
      A (r'.files.get (env.sha256 b)))
    (hQ : ∀ h' t row', A row' → Holding env b ps row' t → Q (.ok ()) (h ++ h') t) :
    Safe (handle env) (keeping env b) Q (transact tx) h s := by
  intro s₁ hr _
  have hs₁ := KeepsOf.holding hr hs
  obtain ⟨r', hr', hrows, hafter⟩ := hok s₁.reg (env.clock s₁.ticks).iso hs₁.row
  simp only [handle, hr']
  exact ⟨⟨fun p b' hp _ => hp, hrows⟩, fun s₂ hr₂ =>
    hQ _ s₂ _ hafter (KeepsOf.holding hr₂ ⟨hs₁.file, rfl⟩)⟩

/-- A transaction that writes no row. -/
theorem safe_transact_keeps {tx : Tx} {Q : Except Err Unit → List (Event Ops World) → World → Prop}
    (hkeep : tx.keepsFiles = true) (hs : Holding env b ps row s)
    (hok : ∀ (r : Registry) now, r.files.get (env.sha256 b) = row → ∃ r', tx.apply r now = .ok r')
    (hQ : ∀ h' t, Holding env b ps row t → Q (.ok ()) (h ++ h') t) :
    Safe (handle env) (keeping env b) Q (transact tx) h s := by
  refine safe_transact (A := (· = row)) hs (fun r now hrow => ?_) ?_
  · obtain ⟨r', hr'⟩ := hok r now hrow
    have hfiles := files_of_keepsFiles hkeep hr'
    exact ⟨r', hr', fun sha _ => by rw [hfiles], by rw [hfiles, hrow]⟩
  · rintro h' t _ rfl ht
    exact hQ h' t ht

end Steps

/-! ## The commit -/

section Commit
variable {env : Env} {b : Bytes} {row : Option FileRecord} {source destination : Path}
  {h : List (Event Ops World)} {s : World}
  {Q : Except Err CommitResult → List (Event Ops World) → World → Prop}

theorem safe_commitRename_holding (hs : Holding env b [source] row s)
    (hok : ∀ r h' t, Holding env b [destination] row t → Q (.ok r) h' t) :
    Safe (handle env) (keeping env b) Q (commitRename source destination) h s := by
  unfold commitRename
  refine safe_bind (safe_replaceFile hs (by simp) fun h₁ s₁ _ hs₁ => ?_)
  refine safe_bind (safe_statSize hs₁ (by simp) fun h₂ s₂ hs₂ => ?_)
  exact fun s₃ hr => hok _ _ s₃ (KeepsOf.holding hr hs₂)

/-- Both copies hold the same bytes until the end, so the checks pass. -/
theorem safe_commitCopy_holding (hs : Holding env b [source] row s)
    (hok : ∀ r h' t, Holding env b [destination] row t → Q (.ok r) h' t)
    (herr : ∀ e h' t, Holding env b [source] row t → Q (.error e) h' t) :
    Safe (handle env) (keeping env b) Q (commitCopy source destination) h s := by
  unfold commitCopy
  refine safe_bind (safe_copy2 hs (by simp) (fun e _ ht s₂ hr =>
    herr e _ s₂ (KeepsOf.holding hr ht)) fun h₁ s₁ hne hs₁ => ?_)
  refine safe_bind (safe_statSize hs₁ (by simp) fun h₂ s₂ hs₂ => ?_)
  refine safe_bind (safe_statSize hs₂ (by simp) fun h₃ s₃ hs₃ => ?_)
  simp only [thenSafe_ok, ne_eq, not_true_eq_false, if_false]
  refine safe_bind (safe_sha256File hs₃ (by simp) fun h₄ s₄ hs₄ => ?_)
  refine safe_bind (safe_sha256File hs₄ (by simp) fun h₅ s₅ hs₅ => ?_)
  simp only [thenSafe_ok, not_true_eq_false, if_false]
  refine safe_bind (safe_replaceFile hs₅ hne fun h₆ s₆ hne₆ hs₆ => ?_)
  have hs₆' : Holding env b [source, destination] row s₆ :=
    ⟨fun p hp => hs₆.file p (by simpa [or_comm] using hp), hs₆.row⟩
  refine safe_bind (safe_unlink hs₆' (by simpa [eq_comm] using hne₆) fun h₇ s₇ hs₇ => ?_)
  exact fun s₈ hr => hok _ _ s₈ (KeepsOf.holding hr hs₇)

theorem safe_commit_holding {same : Bool} {root : Option Path} (hs : Holding env b [source] row s)
    (hok : ∀ r h' t, Holding env b [destination] row t → Q (.ok r) h' t)
    (herr : ∀ e h' t, Holding env b [source] row t → Q (.error e) h' t) :
    Safe (handle env) (keeping env b) Q
      (commitStagingToAccepted source destination same root) h s := by
  unfold commitStagingToAccepted
  refine safe_bind (safe_holding (calls_pathExists ⟨rfl, rfl⟩) hs ?_)
  rintro (e | found) h₁ s₁ hs₁
  · exact fun s₂ hr => herr e _ s₂ (KeepsOf.holding hr hs₁)
  cases found with
  | false => exact fun s₂ hr => herr _ _ s₂ (KeepsOf.holding hr hs₁)
  | true =>
    refine safe_bind (safe_holding calls_ensureWithin hs₁ ?_)
    rintro (e | u) h₂ s₂ hs₂
    · exact fun s₃ hr => herr e _ s₃ (KeepsOf.holding hr hs₂)
    cases same with
    | false => exact safe_commitCopy_holding hs₂ hok herr
    | true => exact safe_commitRename_holding hs₂ hok

end Commit

/-! ## How a call ends -/

/-- The step found a reason to discard the candidate: a metadata match, a block
rule or a row of the hash. -/
def Discarding (env : Env) (c : StagedCandidate) (e : Event Ops World) : Prop :=
  match e.op with
  | .prefilterStatus _ _ _ _ => prefiltered c e.pre ≠ none
  | .enabledBlockRules => blockedBy env c e.pre ≠ none
  | .getFile sha => e.pre.reg.files.get sha ≠ none
  | _ => False

/-- The engine has a reason to drop the staged bytes. -/
def Dropped (env : Env) (ps : IngestParams) (c : StagedCandidate) (b : Bytes)
    (h : List (Event Ops World)) : Prop :=
  ¬ Admitted ps c b.length ∨ ∃ e ∈ h, Discarding env c e

/-- The hash of `b` has a pending row, and the file it names holds `b`. -/
def Stored (env : Env) (b : Bytes) (s : World) : Prop :=
  ∃ row p, s.reg.files.get (env.sha256 b) = some row ∧ row.status = .pending ∧
    row.currentPath = some p ∧ s.fs.get p = some b

/-- A call that returns has stored its bytes, unless it had a reason to drop
them; a call that raises leaves them on disk. -/
def Kept (env : Env) (ps : IngestParams) (c : StagedCandidate) (b : Bytes) :
    Except Err IngestOutcome → List (Event Ops World) → World → Prop
  | .ok out, h, s => Dropped env ps c b h ∨ (out.action = .pending ∧ Stored env b s)
  | .error _, _, s => ∃ p, s.fs.get p = some b

theorem Dropped.append {env : Env} {ps : IngestParams} {c : StagedCandidate} {b : Bytes}
    {h : List (Event Ops World)} (hd : Dropped env ps c b h) (h' : List (Event Ops World)) :
    Dropped env ps c b (h ++ h') :=
  hd.imp id fun ⟨e, he, hdis⟩ => ⟨e, List.mem_append_left _ he, hdis⟩

section Branches
variable {env : Env} {eng : Engine} {ps : IngestParams} {c : StagedCandidate} {b : Bytes}
  {row : Option FileRecord} {qs : List Path} {opId : String} {h : List (Event Ops World)}
  {s : World} {α : Type}

/-- A step that raises while an own file stands. -/
theorem kept_error {f : α → Flow IngestOutcome} {p : Path} {e : Err}
    (hs : Holding env b (p :: qs) row s) :
    thenSafe (handle env) (keeping env b) f (Kept env ps c b) (.error e) h s :=
  fun _ hr => ⟨p, (KeepsOf.holding hr hs).file p List.mem_cons_self⟩

theorem safe_journalAppend {phase : JournalPhase} {d : Option Path} {x : Option String}
    {Q : Except Err Unit → List (Event Ops World) → World → Prop} (hs : Holding env b qs row s)
    (hQ : ∀ h' t, Holding env b qs row t → Q (.ok ()) (h ++ h') t) :
    Safe (handle env) (keeping env b) Q (journalAppend eng opId phase c d x) h s := by
  unfold journalAppend
  cases eng.journalMaxBytes with
  | none =>
    intro s₁ hr
    simpa using hQ [] s₁ (KeepsOf.holding hr hs)
  | some m =>
    intro s₁ hr _
    have hs₁ := KeepsOf.holding hr hs
    exact ⟨.still ⟨rfl, rfl⟩, fun s₂ hr₂ => hQ _ s₂
      (KeepsOf.holding hr₂ ⟨hs₁.file, hs₁.row⟩)⟩

/-- The last record of a call that drops its bytes. -/
theorem safe_dropped_end {phase : JournalPhase} {d : Option Path} {x : Option String}
    {out : IngestOutcome} (hd : Dropped env ps c b h) (hs : Holding env b qs row s) :
    Safe (handle env) (keeping env b) (Kept env ps c b)
      (journalAppend eng opId phase c d x >>= fun _ => (pure out : Flow IngestOutcome)) h s :=
  safe_bind (safe_journalAppend hs fun h₁ _ _ _ _ => .inl (hd.append h₁))

theorem safe_discardPrefiltered {st : Status} {sha : String} (hd : Dropped env ps c b h)
    (hs : Holding env b [c.stagingPath] row s) :
    Safe (handle env) (keeping env b) (Kept env ps c b) (discardPrefiltered c st sha) h s := by
  unfold discardPrefiltered
  refine safe_bind (safe_unlink hs (by simp) fun h₁ s₁ hs₁ => ?_)
  refine safe_bind (safe_transact_keeps rfl hs₁ (fun r now _ => ⟨_, rfl⟩) fun h₂ s₂ _ => ?_)
  exact fun _ _ => .inl ((hd.append h₁).append h₂)

/-- The forced row is there when its origin refers to it. -/
theorem safe_rejectBlocked {n : Nat} {rule : RuleType × String} (hd : Dropped env ps c b h)
    (hs : Holding env b [c.stagingPath] row s) :
    Safe (handle env) (keeping env b) (Kept env ps c b)
      (rejectBlocked eng c opId n (env.sha256 b) rule) h s := by
  unfold rejectBlocked
  refine safe_bind (safe_unlink hs (by simp) fun h₁ s₁ hs₁ => ?_)
  refine safe_bind (safe_transact (A := fun row => row.isSome = true) hs₁ (fun r now _ => ?_)
    fun h₂ s₂ row₂ hrow₂ hs₂ => ?_)
  · obtain ⟨row', -, -, hf⟩ := Registry.files_upsertFile r (env.sha256 b) n .rejected
      (some c.originalFilename) none now
    refine ⟨_, rfl, fun sha hne => ?_, ?_⟩
    · change (r.upsertFile (env.sha256 b) n .rejected (some c.originalFilename) none
        now).files.get sha = r.files.get sha
      rw [hf, Table.get_put, if_neg hne]
    · change ((r.upsertFile (env.sha256 b) n .rejected (some c.originalFilename) none
        now).files.get (env.sha256 b)).isSome = true
      rw [hf, Table.get_put_self]
      rfl
  refine safe_bind (safe_transact_keeps rfl hs₂ (fun r now _ => ⟨_, rfl⟩) fun h₃ s₃ hs₃ => ?_)
  refine safe_bind (safe_transact_keeps rfl hs₃ (fun r now hrow => ?_) fun h₄ s₄ hs₄ => ?_)
  · simp only [Tx.apply, Registry.upsertFileOrigin, hrow, hrow₂, if_true]
    exact ⟨_, rfl⟩
  refine safe_bind (safe_transact_keeps rfl hs₄ (fun r now _ => ⟨_, rfl⟩) fun h₅ s₅ hs₅ => ?_)
  exact safe_dropped_end (((((hd.append h₁).append h₂).append h₃).append h₄).append h₅) hs₅

theorem safe_discardKnown {record : FileRecord} (hd : Dropped env ps c b h)
    (hs : Holding env b [c.stagingPath] (some record) s) :
    Safe (handle env) (keeping env b) (Kept env ps c b)
      (discardKnown eng c opId (env.sha256 b) record) h s := by
  unfold discardKnown
  refine safe_bind (safe_statSize hs (by simp) fun h₁ s₁ hs₁ => ?_)
  refine safe_bind (safe_unlink hs₁ (by simp) fun h₂ s₂ hs₂ => ?_)
  refine safe_bind (safe_transact_keeps rfl hs₂ (fun r now hrow => ?_) fun h₃ s₃ hs₃ => ?_)
  · exact Registry.finalizeKnownIngest_ok record.status c.accountName c.onedriveId
      c.relativePath c.modifiedTime b.length pipelineActor now hrow
  exact safe_dropped_end (((hd.append h₁).append h₂).append h₃) hs₃

/-- The branch of a new hash: the commit, then the row that names its file. -/
theorem safe_ingestUnknown (hs : Holding env b [c.stagingPath] row s) :
    Safe (handle env) (keeping env b) (Kept env ps c b)
      (ingestUnknown env eng ps c opId (env.sha256 b)) h s := by
  unfold ingestUnknown
  refine safe_bind (safe_holding (calls_renderRelativePath ⟨rfl, rfl⟩) hs ?_)
  rintro (e | rel) h₁ s₁ hs₁
  · exact kept_error hs₁
  refine safe_bind (safe_holding (calls_choose fun _ => ⟨rfl, rfl⟩) hs₁ ?_)
  rintro (e | d) h₂ s₂ hs₂
  · exact kept_error hs₂
  refine safe_bind (safe_commit_holding hs₂ ?_ fun e h' t ht => kept_error ht)
  intro r h₃ s₃ hs₃
  refine safe_bind (safe_journalAppend hs₃ fun h₄ s₄ hs₄ => ?_)
  refine safe_bind (safe_statSize hs₄ (by simp) fun h₅ s₅ hs₅ => ?_)
  refine safe_bind (safe_transact (A := fun row' => ∃ r, row' = some r ∧ r.status = .pending ∧
    r.currentPath = some d) hs₅ (fun r now _ => ?_) fun h₆ s₆ row₆ hrow₆ hs₆ => ?_)
  · obtain ⟨r', hr'⟩ := Registry.finalizeUnknownIngest_ok r (env.sha256 b) b.length
      c.originalFilename d c.accountName c.onedriveId c.relativePath c.modifiedTime pipelineActor now
    obtain ⟨row', hst, hpath, hf⟩ := Registry.files_finalizeUnknownIngest hr'
    refine ⟨r', hr', fun sha hne => ?_, row', ?_, hst, hpath⟩
    · rw [hf, Table.get_put, if_neg hne]
    · rw [hf, Table.get_put_self]
  obtain ⟨row', rfl, hst, hpath⟩ := hrow₆
  refine safe_bind (safe_journalAppend hs₆ fun h₇ s₇ hs₇ => ?_)
  intro s₈ hr
  have hs₈ := KeepsOf.holding hr hs₇
  exact .inr ⟨rfl, row', d, hs₈.row, hst, hpath, hs₈.file d (by simp)⟩

/-! ## The decision -/

theorem safe_prefilterStatus {Q : Except Err (Option (Status × String)) →
      List (Event Ops World) → World → Prop} (hs : Holding env b qs row s)
    (hQ : ∀ hit h' t, Holding env b qs row t →
      (hit ≠ none → ∃ e ∈ h ++ h', Discarding env c e) → Q (.ok hit) (h ++ h') t) :
    Safe (handle env) (keeping env b) Q (prefilterStatus c) h s := by
  intro s₁ hr _
  have hs₁ := KeepsOf.holding hr hs
  refine ⟨.still (.refl s₁), fun s₂ hr₂ => hQ _ _ s₂ (KeepsOf.holding hr₂ hs₁) fun hne => ?_⟩
  exact ⟨_, List.mem_append_right _ List.mem_cons_self, hne⟩

theorem safe_matchBlockRule {Q : Except Err (Option (RuleType × String)) →
      List (Event Ops World) → World → Prop} (hs : Holding env b qs row s)
    (hQ : ∀ rule h' t, Holding env b qs row t →
      (rule ≠ none → ∃ e ∈ h ++ h', Discarding env c e) → Q (.ok rule) (h ++ h') t) :
    Safe (handle env) (keeping env b) Q (matchBlockRule env c.originalFilename) h s := by
  intro s₁ hr _
  have hs₁ := KeepsOf.holding hr hs
  refine ⟨.still (.refl s₁), fun s₂ hr₂ => hQ _ _ s₂ (KeepsOf.holding hr₂ hs₁) fun hne => ?_⟩
  exact ⟨_, List.mem_append_right _ List.mem_cons_self, hne⟩

theorem safe_getFile {Q : Except Err (Option FileRecord) → List (Event Ops World) → World → Prop}
    (hs : Holding env b qs row s)
    (hQ : ∀ h' t, Holding env b qs row t →
      (row ≠ none → ∃ e ∈ h ++ h', Discarding env c e) → Q (.ok row) (h ++ h') t) :
    Safe (handle env) (keeping env b) Q (getFile (env.sha256 b)) h s := by
  intro s₁ hr _
  have hs₁ := KeepsOf.holding hr hs
  have hrow : s₁.reg.files.get (env.sha256 b) = row := hs₁.row
  refine ⟨.still (.refl s₁), ?_⟩
  simp only [handle, Registry.getFile, hrow]
  refine fun s₂ hr₂ => hQ _ s₂ (KeepsOf.holding hr₂ hs₁) fun hne => ?_
  exact ⟨_, List.mem_append_right _ List.mem_cons_self, by simpa [Discarding, hrow] using hne⟩

theorem safe_decideStaged {n : Nat} (hs : Holding env b [c.stagingPath] row s) :
    Safe (handle env) (keeping env b) (Kept env ps c b) (decideStaged env eng ps c opId n) h s := by
  unfold decideStaged
  refine safe_bind (safe_prefilterStatus (c := c) hs fun hit h₁ s₁ hs₁ hhit => ?_)
  rcases hit with _ | ⟨st, sha⟩
  · simp only [thenSafe_ok, decideByHash]
    refine safe_bind (safe_sha256File hs₁ (by simp) fun h₂ s₂ hs₂ => ?_)
    refine safe_bind (safe_journalAppend hs₂ fun h₃ s₃ hs₃ => ?_)
    refine safe_bind (safe_matchBlockRule hs₃ fun rule h₄ s₄ hs₄ hrule => ?_)
    cases rule with
    | some rule => exact safe_rejectBlocked (.inr (hrule (by simp))) hs₄
    | none =>
      refine safe_bind (safe_getFile (c := c) hs₄ fun h₅ s₅ hs₅ hknown => ?_)
      cases row with
      | none => exact safe_ingestUnknown hs₅
      | some record => exact safe_discardKnown (.inr (hknown (by simp))) hs₅
  · exact safe_discardPrefiltered (.inr (hhit (by simp))) hs₁

/-- A quarantine moves the staged file, whose bytes stay readable until then. -/
theorem safe_handleQuarantineOrDelete {category : String} {out : IngestOutcome}
    (hd : Dropped env ps c b h) (hs : Holding env b [c.stagingPath] row s) :
    Safe (handle env) (keeping env b) (Kept env ps c b)
      (handleQuarantineOrDelete c.stagingPath ps.quarantineDir category >>= fun _ =>
        (pure out : Flow IngestOutcome)) h s := by
  refine safe_bind ?_
  unfold handleQuarantineOrDelete
  cases ps.quarantineDir with
  | none => exact safe_unlink hs (by simp) fun h₁ s₁ _ _ _ => .inl (hd.append h₁)
  | some dir =>
    refine safe_bind (safe_holding (calls_pathExists ⟨rfl, rfl⟩) hs ?_)
    rintro (e | found) h₁ s₁ hs₁
    · exact fun s₂ hr => kept_error (KeepsOf.holding hr hs₁)
    cases found with
    | false =>
      exact safe_replaceFile hs₁ (by simp) fun h₂ s₂ _ _ _ _ => .inl ((hd.append h₁).append h₂)
    | true =>
      refine safe_bind (safe_holding (calls_utcNow ⟨rfl, rfl⟩) hs₁ ?_)
      rintro (e | now) h₂ s₂ hs₂
      · exact fun s₃ hr => kept_error (KeepsOf.holding hr hs₂)
      exact safe_replaceFile hs₂ (by simp) fun h₃ s₃ _ _ _ _ =>
        .inl (((hd.append h₁).append h₂).append h₃)

theorem safe_processOne (hs : Holding env b [c.stagingPath] row s) :
    Safe (handle env) (keeping env b) (Kept env ps c b) (processOne env eng ps c) h s := by
  unfold processOne
  refine safe_bind (safe_holding (.op ⟨rfl, rfl⟩ fun _ => .ret) hs ?_)
  rintro (e | uuid) h₁ s₁ hs₁
  · exact kept_error hs₁
  refine safe_bind (safe_journalAppend hs₁ fun h₂ s₂ hs₂ => ?_)
  refine safe_bind (safe_pathExists hs₂ (by simp) fun h₃ s₃ hs₃ => ?_)
  simp only [thenSafe_ok, if_true]
  refine safe_bind (safe_statSize hs₃ (by simp) fun h₄ s₄ hs₄ => ?_)
  simp only [thenSafe_ok]
  split
  · next hmis =>
    have hdrop : ¬ Admitted ps c b.length := fun hadm => by rw [hadm.1] at hmis; cases hmis
    refine safe_bind (safe_journalAppend hs₄ fun h₅ s₅ hs₅ => ?_)
    exact safe_handleQuarantineOrDelete (.inl hdrop) hs₅
  split
  · next hzero =>
    have hdrop : ¬ Admitted ps c b.length :=
      fun hadm => by rw [hadm.2 hzero.1] at hzero; cases hzero.2
    exact safe_bind (safe_unlink hs₄ (by simp) fun h₅ s₅ _ _ _ => .inl (.inl hdrop))
  split
  · next hzero =>
    have hdrop : ¬ Admitted ps c b.length :=
      fun hadm => by rw [hadm.2 hzero.1] at hzero; cases hzero.2
    exact safe_handleQuarantineOrDelete (.inl hdrop) hs₄
  · exact safe_decideStaged hs₄

end Branches

/-- In every interleaving of calls over staged files with pairwise different
hashes in which every write finds its target free: a call that returns has
stored its bytes, unless it had a reason to drop them, and the bytes of a call
that raises are still on disk. -/
theorem ingest_keeps_contents {ι : Type} [DecidableEq ι] (env : Env) (eng : ι → Engine)
    (ps : ι → IngestParams) (c : ι → StagedCandidate) (b : ι → Bytes)
    (P' : Pool ι Ops Err fun _ => IngestOutcome) (s s' : World) (t : List (ι × Event Ops World))
    (hsha : Function.Injective fun i => env.sha256 (b i))
    (hstaged : ∀ i, s.fs.get (c i).stagingPath = some (b i))
    (hrun : Run (handle env) (fun i => processOne env (eng i) (ps i) (c i)) s t P' s')
    (hfree : ∀ e ∈ t, e.2.op.writesFree e.2.pre = true) (i : ι) (r : Except Err IngestOutcome)
    (hr : (P' i).result = some r) : Kept env (ps i) (c i) (b i) r (own i t) s' := by
  have hpar : ∀ i j, i ≠ j → ∀ (h : List (Event Ops World)) (o : Op) (s t : World),
      (keeping env (b j)).guar o s t → (keeping env (b i)).rely h s t :=
    fun i j hij h o s t hg => hg.keeps fun he => hij (hsha he)
  have hstart : ∀ i, Holding env (b i) [(c i).stagingPath] (s.reg.files.get (env.sha256 (b i))) s :=
    fun i => ⟨by simpa using hstaged i, rfl⟩
  have hsafe := (parallel (C := fun i => keeping env (b i))
    (Q := fun i => Kept env (ps i) (c i) (b i)) hpar hrun (h := fun _ => [])
    (fun i => safe_processOne (hstart i)) (conds_of_forall fun e he _ => hfree e he)).2 i
  simpa using hsafe.result hr

/-! ## Two photos of one name -/

def twoPhotos (i : Bool) : Bytes := if i then [98] else [97]

def twoCandidates (i : Bool) : StagedCandidate :=
  if i then sampleCandidate "id2" ["staging", "y"] else sampleCandidate "id1" ["staging", "x"]

def twoStaged : World :=
  sampleWorld [(["staging", "x"], [97]), (["staging", "y"], [98])] Registry.empty

def twoWorkers : Pool Bool Ops Err fun _ => IngestOutcome := fun i =>
  processOne sampleEnv ⟨none⟩ sampleParams (twoCandidates i)

/-- One after the other: the second call finds the name taken and picks
another. -/
def inTurn : List (Bool × Event Ops World) × Pool Bool Ops Err (fun _ => IngestOutcome) × World :=
  exec (handle sampleEnv) (List.replicate 13 false ++ List.replicate 14 true) twoWorkers twoStaged

theorem in_turn_keeps_contents :
    Kept sampleEnv sampleParams (twoCandidates true) [98] (.ok (outcome (twoCandidates true) .pending
      (some shaB) (some ["lib", "pending", "2024", "01", "IMG-1.JPG"]) false)) (own true inTurn.1)
      inTurn.2.2 := by
  obtain ⟨hfree, hresult⟩ : (∀ e ∈ inTurn.1, e.2.op.writesFree e.2.pre = true) ∧
      (inTurn.2.1 true).result = some (.ok (outcome (twoCandidates true) .pending
        (some shaB) (some ["lib", "pending", "2024", "01", "IMG-1.JPG"]) false)) := by
    decide +kernel
  refine ingest_keeps_contents sampleEnv (fun _ => ⟨none⟩) (fun _ => sampleParams) twoCandidates
    twoPhotos inTurn.2.1 twoStaged inTurn.2.2 inTurn.1 ?_ ?_ (exec_run _ _ _ _) hfree true _
    hresult
  · rintro (_ | _) (_ | _) h
    · rfl
    · exact absurd h (by decide +kernel)
    · exact absurd h (by decide +kernel)
    · rfl
  · rintro (_ | _) <;> rfl

/-- Both choose their name before either renames. -/
def atOnce : List (Bool × Event Ops World) × Pool Bool Ops Err (fun _ => IngestOutcome) × World :=
  exec (handle sampleEnv) (List.replicate 8 false ++ List.replicate 13 true ++
    List.replicate 5 false) twoWorkers twoStaged

/-- The second rename overwrites the first: both calls return `pending`, the
bytes `b` are gone, and their row names the file that holds `a`. -/
theorem worker_overwrites :
    Run (handle sampleEnv) twoWorkers twoStaged atOnce.1 atOnce.2.1 atOnce.2.2 ∧
    (∀ i, ((atOnce.2.1 i).result.map fun r => r.toOption.map (·.action)) = some (some .pending)) ∧
    (∀ p, atOnce.2.2.fs.get p ≠ some [98]) ∧
    (atOnce.2.2.reg.files.get shaB).map (fun row => (row.status, row.currentPath)) =
      some (.pending, some ["lib", "pending", "2024", "01", "IMG.JPG"]) ∧
    atOnce.2.2.fs.get ["lib", "pending", "2024", "01", "IMG.JPG"] = some [97] := by
  obtain ⟨hresults, hkeys, hrow, hfile⟩ :
      (∀ i, ((atOnce.2.1 i).result.map fun r => r.toOption.map (·.action)) =
        some (some .pending)) ∧
      (∀ q ∈ atOnce.2.2.fs.keys, atOnce.2.2.fs.get q ≠ some [98]) ∧
      (atOnce.2.2.reg.files.get shaB).map (fun row => (row.status, row.currentPath)) =
        some (.pending, some ["lib", "pending", "2024", "01", "IMG.JPG"]) ∧
      atOnce.2.2.fs.get ["lib", "pending", "2024", "01", "IMG.JPG"] = some [97] := by
    decide +kernel
  refine ⟨exec_run _ _ _ _, hresults, fun p hp => ?_, hrow, hfile⟩
  exact hkeys p ((Table.mem_keys_iff _ p).mpr ⟨_, hp⟩) hp

end Nightfall
