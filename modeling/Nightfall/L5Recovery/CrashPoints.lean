import Nightfall.Core.Crash
import Nightfall.L5Recovery.Replay

/-!
# Where a crash can leave `_process_one`

`_process_one` places a file below the pending root, journals that it did,
commits the row and journals that too. The state between two steps is one of
five kinds.

* `Marks`: the durable changes behind a crash point.
* `IngestPoint`: the states a crash can leave, by their marks.
* `track_processOne`: every state between two steps is an `IngestPoint`.
-/
namespace Nightfall
open Nightfall.Core Storage Prog

/-! ## What lies behind a crash point -/

/-- The durable changes so far: the last file put below the pending root, the
files moved away from there, whether a destination is journaled, whether the row
is committed, and the rows a block rule has forced. -/
structure Marks where
  put : Option Path
  left : List Path
  recorded : Bool
  finalized : Bool
  forced : List String
  deriving DecidableEq, Repr

def Marks.none : Marks := ⟨.none, [], false, false, []⟩

def Marks.putAt (root : Path) (m : Marks) (q : Path) : Marks :=
  if root.isPrefixOf q then { m with put := some q } else m

def Marks.takeFrom (root : Path) (m : Marks) (p : Path) : Marks :=
  if root.isPrefixOf p then { m with left := m.left ++ [p] } else m

def Marks.step (root : Path) (m : Marks) : Op → Marks
  | .replace src dst => (m.takeFrom root src).putAt root dst
  | .copy2 _ dst => m.putAt root dst
  | .journalAppend _ rec => if rec.phase = .storageCommitted then { m with recorded := true } else m
  | .tx (.finalizeUnknownIngest _ _ _ _ _ _ _ _ _) => { m with finalized := true }
  | .tx (.createOrUpdateFile sha _ _ _ _) => { m with forced := m.forced ++ [sha] }
  | _ => m

def marks (root : Path) (h : List (Event Ops World)) : Marks :=
  h.foldl (fun m e => m.step root e.op) .none

theorem marks_snoc (root : Path) (h : List (Event Ops World)) (e : Event Ops World) :
    marks root (h ++ [e]) = (marks root h).step root e.op := by
  simp [marks]

/-! ## The call, step by step -/

/-- The step changes nothing below the pending root and no row; its journal
record belongs to `own` and names no destination. -/
def Op.Calm (root : Path) (own : String) : Op → Prop
  | .replace src dst => ¬ root <+: src ∧ ¬ root <+: dst
  | .copy2 _ dst => ¬ root <+: dst
  | .unlink p => ¬ root <+: p
  | .journalAppend _ rec => pyStrip rec.opId = own ∧ rec.destinationPath = none ∧
      ¬ root <+: rec.stagingPath ∧ rec.phase ≠ .registryPersisted ∧ rec.phase ≠ .storageCommitted
  | .journalClear => False
  | .tx t => t.keepsFiles = true
  | _ => True

/-- Nothing of the call shows yet. -/
structure Ingesting (root : Path) (own : String) (w t : World) : Prop where
  same : SamePending root w t
  quiet : HarmlessBut none root t.journal.readAll
  unfinished : ∀ r ∈ t.journal.readAll, r.opId = own → r.phase ≠ .registryPersisted

section Steps
variable {env : Env} {root : Path} {own : String} {w t : World}

theorem filter_snoc (recs : List JournalRecord) (rec : JournalRecord) (id : String) :
    (recs ++ [rec]).filter (·.opId == id) =
      recs.filter (·.opId == id) ++ if rec.opId == id then [rec] else [] := by
  rw [List.filter_append, List.filter_singleton]
  cases rec.opId == id <;> rfl

/-- A record of `own` leaves the other operations as they were. -/
theorem HarmlessBut.snoc {recs : List JournalRecord} {rec : JournalRecord}
    (h : HarmlessBut none root recs) (hid : rec.opId = own) :
    HarmlessBut (some own) root (recs ++ [rec]) := by
  intro id hne
  have hno : (rec.opId == id) = false := by
    rw [hid]
    simpa using fun h => hne (congrArg some h)
  rw [filter_snoc, hno]
  simpa using h id (by simp)

theorem HarmlessBut.snoc_calm {recs : List JournalRecord} {rec : JournalRecord}
    (h : HarmlessBut none root recs) (hid : rec.opId = own) (hd : rec.destinationPath = none)
    (hst : ¬ root <+: rec.stagingPath) : HarmlessBut none root (recs ++ [rec]) := by
  intro id _
  by_cases hne : own = id
  · subst hne
    refine .inr fun latest hl => ?_
    rw [filter_snoc, hid] at hl
    simp only [beq_self_eq_true, if_true, List.getLast?_append, List.getLast?_singleton,
      Option.some_or, Option.some.injEq] at hl
    subst hl
    exact ⟨hd, hst⟩
  · exact h.snoc hid id (by simpa using hne)

theorem harmless_nil : HarmlessBut none root [] := fun _ _ => .inr nofun

/-- What an append of a record of `own` leaves: the record behind the old ones
or alone. -/
theorem readAll_journalAppend (env : Env) (t : World) (maxBytes : Nat) {rec : JournalRecord}
    (hown : own ≠ "")
    (hid : pyStrip rec.opId = own) :
    ∃ old rec', (handle env (.journalAppend maxBytes rec) t).2.journal.readAll = old ++ [rec'] ∧
      (old = t.journal.readAll ∨ old = []) ∧ rec'.opId = own ∧ rec'.phase = rec.phase ∧
      rec'.destinationPath = rec.destinationPath ∧ rec'.stagingPath = rec.stagingPath := by
  have hstrip : pyStrip ({ rec with ts := (env.clock t.ticks).iso } : JournalRecord).opId ≠ "" := by
    rw [hid]; exact hown
  rcases Journal.readAll_append t.journal env.lineBytes maxBytes
    { rec with ts := (env.clock t.ticks).iso } hstrip with h | h
  · exact ⟨_, _, h, .inl rfl, hid, rfl, rfl, rfl⟩
  · exact ⟨[], _, h, .inr rfl, hid, rfl, rfl, rfl⟩

theorem ingesting_calm {o : Op} (hown : own ≠ "") (ho : o.Calm root own)
    (h : Ingesting root own w t) : Ingesting root own w (handle env o t).2 := by
  -- all but the journal step keep the journal
  have hkeep : o.writesJournal = false → SamePending root t (handle env o t).2 →
      Ingesting root own w (handle env o t).2 := fun hj hs => by
    refine ⟨h.same.trans hs, ?_, ?_⟩ <;> rw [handle_journal hj]
    · exact h.quiet
    · exact h.unfinished
  cases o with
  | replace src dst =>
    refine hkeep rfl ⟨congrArg Registry.files (handle_reg rfl), fun p hp => ?_⟩
    simp only [handle, moveFile]
    cases hb : t.fs.get src with
    | none => rfl
    | some b =>
      have hd : p ≠ dst := by rintro rfl; exact ho.2 hp
      have hs : p ≠ src := by rintro rfl; exact ho.1 hp
      simp [Table.get_put, Table.get_drop, hd, hs]
  | copy2 src dst =>
    refine hkeep rfl ⟨congrArg Registry.files (handle_reg rfl), fun p hp => ?_⟩
    simp only [handle, copyFile]
    cases hb : t.fs.get src with
    | none => rfl
    | some b =>
      have hd : p ≠ dst := by rintro rfl; exact ho hp
      simp [Table.get_put, hd]
  | unlink q =>
    refine hkeep rfl ⟨rfl, fun p hp => ?_⟩
    have hq : p ≠ q := by rintro rfl; exact ho hp
    simp [handle, Table.get_drop, hq]
  | tx tx =>
    refine hkeep rfl ⟨?_, fun p _ => by rw [handle_fs rfl]⟩
    simp only [handle]
    split
    · next r hr => exact files_of_keepsFiles ho hr
    · rfl
  | journalAppend m rec =>
    obtain ⟨hid, hd, hst, hpers, -⟩ := ho
    obtain ⟨old, rec', hread, hold, hid', hph, hd', hst'⟩ :=
      readAll_journalAppend env t m hown hid
    refine ⟨h.same.trans ⟨rfl, fun _ _ => rfl⟩, ?_, ?_⟩ <;> rw [hread]
    · have hq : HarmlessBut none root old := by
        rcases hold with rfl | rfl
        · exact h.quiet
        · exact harmless_nil
      exact hq.snoc_calm hid' (by rw [hd', hd]) (by rw [hst']; exact hst)
    · refine List.forall_mem_append.mpr ⟨fun r hr => ?_, by simpa [hph] using fun _ => hpers⟩
      rcases hold with rfl | rfl
      · exact h.unfinished r hr
      · cases hr
  | journalClear => exact ho.elim
  | _ => exact hkeep rfl ⟨congrArg Registry.files (handle_reg rfl), fun p _ => by
      rw [handle_fs rfl]⟩

theorem marks_calm {o : Op} {m : Marks} (ho : o.Calm root own) : m.step root o = m := by
  have hno : ∀ {p : Path}, ¬ root <+: p → root.isPrefixOf p = false := fun h =>
    Bool.eq_false_iff.mpr (mt List.isPrefixOf_iff_prefix.mp h)
  cases o with
  | replace src dst => simp [Marks.step, Marks.putAt, Marks.takeFrom, hno ho.1, hno ho.2]
  | copy2 src dst => simp [Marks.step, Marks.putAt, hno ho]
  | journalAppend n rec => simp [Marks.step, ho.2.2.2.2]
  | tx t => cases t <;> first | rfl | cases ho
  | _ => rfl

theorem marks_append_calm {h h' : List (Event Ops World)} (hh : ∀ e ∈ h', e.op.Calm root own) :
    marks root (h ++ h') = marks root h := by
  induction h' using List.reverseRecOn with
  | nil => simp
  | append_singleton h' e ih =>
    rw [← List.append_assoc, marks_snoc, marks_calm (hh e (by simp)),
      ih fun e' he' => hh e' (by simp [he'])]

/-- A file stands at `q`, the one at `v` is gone, and everything else below the
pending root is as in `w`. -/
structure PutAt (root : Path) (w t : World) (q : Path) (v : Option Path) : Prop where
  below : root <+: q
  here : t.fs.get q ≠ none
  vacated : ∀ p, v = some p → p ≠ q ∧ t.fs.get p = none
  rest : ∀ p, root <+: p → p ≠ q → v ≠ some p → t.fs.get p = w.fs.get p

/-- `own` has journaled its destination `d` and is not finished. -/
structure Journaled (root : Path) (own : String) (d : Path) (t : World) : Prop where
  others : HarmlessBut (some own) root t.journal.readAll
  recorded : RecordedOp root d (t.journal.readAll.filter (·.opId == own))
  some : t.journal.readAll.filter (·.opId == own) ≠ []

/-- The states a crash can leave. -/
inductive IngestPoint (root : Path) (eng : Engine) (own : String) (w : World)
    (h : List (Event Ops World)) (t : World) : Prop
  | idle (hm : marks root h = .none) (hi : Ingesting root own w t)
  | placed {q : Path} {v : Option Path} (hm : marks root h = ⟨some q, v.toList, false, false, []⟩)
      (hp : PutAt root w t q v) (hf : t.reg.files = w.reg.files)
      (hj : HarmlessBut none root t.journal.readAll)
  | recorded {d : Path} {v : Option Path} (hm : marks root h = ⟨some d, v.toList, true, false, []⟩)
      (hp : PutAt root w t d v) (hfree : w.fs.get d = none)
      (hv : v ≠ some (d.addExt ".orphaned")) (horph : root <+: d.addExt ".orphaned")
      (hf : t.reg.files = w.reg.files) (hj : Journaled root own d t)
      (heng : eng.journalMaxBytes.isSome = true)
  | finalized {d : Path} {sha : String} {row : FileRecord} (hm : (marks root h).finalized = true)
      (hd : root <+: d) (horph : root <+: d.addExt ".orphaned") (here : t.fs.get d ≠ none)
      (hf : t.reg.files = w.reg.files.put sha row) (hst : row.status = .pending)
      (hpath : row.currentPath = some d) (hj : Journaled root own d t)
      (heng : eng.journalMaxBytes.isSome = true)
  | forced {sha : String} {row : FileRecord}
      (hm : marks root h = ⟨none, [], false, false, [sha]⟩)
      (hs : ∀ p, root <+: p → t.fs.get p = w.fs.get p)
      (hf : t.reg.files = w.reg.files.put sha row) (hst : row.status = .rejected)
      (hpath : row.currentPath = none) (hj : HarmlessBut none root t.journal.readAll)

/-- A stretch of calm steps before anything shows. -/
theorem track_calm {α : Type} {pr : Flow α} {eng : Engine} {h : List (Event Ops World)}
    {s : World} {W : Except Err α → World → Prop}
    {Q : Except Err α → List (Event Ops World) → World → Prop} (hown : own ≠ "")
    (hp : pr.Calls (Op.Calm root own)) (hw : pr.Wp (handle env) s W)
    (hi : Ingesting root own w s) (hm : marks root h = .none)
    (hQ : ∀ r h' t, W r t → Ingesting root own w t → marks root h' = .none → Q r h' t) :
    pr.Track (handle env) (IngestPoint root eng own w) h s Q := by
  refine track_stretch (R := fun s t => Ingesting root own w s → Ingesting root own w t)
    (fun _ h => h) (fun _ _ _ h h' hs => h' (h hs)) (fun o s ho => ingesting_calm hown ho) hp hw
    (fun h' t hR hh => ?_) fun r h' t hW hR hh => ?_
  · exact .idle (by rw [marks_append_calm hh, hm]) (hR hi)
  · exact hQ r _ t hW (hR hi) (by rw [marks_append_calm hh, hm])

/-- The placed file, with its row and its place still to be recorded. -/
structure Placing (root : Path) (own : String) (w : World) (h : List (Event Ops World)) (t : World)
    (q : Path) (v : Option Path) : Prop where
  marks : marks root h = ⟨some q, v.toList, false, false, []⟩
  put : PutAt root w t q v
  files : t.reg.files = w.reg.files
  quiet : HarmlessBut none root t.journal.readAll
  unfinished : ∀ r ∈ t.journal.readAll, r.opId = own → r.phase ≠ .registryPersisted

theorem Placing.point {eng : Engine} {h : List (Event Ops World)} {q : Path} {v : Option Path}
    (hp : Placing root own w h t q v) : IngestPoint root eng own w h t :=
  .placed hp.marks hp.put hp.files hp.quiet

theorem readsOnly_marks {o : Op} {m : Marks} (ho : o.readsOnly = true) : m.step root o = m := by
  cases o with
  | uuid4 | replace | copy2 | unlink | journalAppend | journalClear | tx => cases ho
  | _ => rfl

/-- Reading keeps the placed file as it is. -/
theorem track_placing {α : Type} {pr : Flow α} {eng : Engine} {h : List (Event Ops World)}
    {s : World} {q : Path} {v : Option Path}
    {Q : Except Err α → List (Event Ops World) → World → Prop}
    (hp : pr.Calls fun o : Op => o.readsOnly = true) (hs : Placing root own w h s q v)
    (hQ : ∀ r h' t, Placing root own w h' t q v → Q r h' t) :
    pr.Track (handle env) (IngestPoint root eng own w) h s Q := by
  have hkeep : ∀ h' t, Later s t → (∀ e ∈ h', e.op.readsOnly = true) →
      Placing root own w (h ++ h') t q v := by
    rintro h' _ ⟨m, rfl⟩ hh
    refine ⟨?_, ⟨hs.put.below, hs.put.here, hs.put.vacated, hs.put.rest⟩, hs.files, hs.quiet,
      hs.unfinished⟩
    rw [← hs.marks]
    induction h' using List.reverseRecOn with
    | nil => simp
    | append_singleton h' e ih =>
      rw [← List.append_assoc, marks_snoc, readsOnly_marks (hh e (by simp)),
        ih fun e' he' => hh e' (by simp [he'])]
  exact track_stretch (W := fun _ _ => True) Later.refl (fun _ _ _ => Later.trans)
    (fun o s ho => later_handle ho) hp (wp_iff.mpr trivial)
    (fun h' t hst hh => (hkeep h' t hst hh).point)
    fun r h' t _ hst hh => hQ r _ t (hkeep h' t hst hh)

theorem prefixOf {p : Path} (h : root <+: p) : root.isPrefixOf p = true :=
  List.isPrefixOf_iff_prefix.mpr h

theorem not_prefixOf {p : Path} (h : ¬ root <+: p) : root.isPrefixOf p = false :=
  Bool.eq_false_iff.mpr (mt List.isPrefixOf_iff_prefix.mp h)

/-- The commit of the staged file: it fails before anything shows, or the file
stands at the destination; a temporary copy may have stood beside it before. -/
theorem track_commitPlacing {eng : Engine} {h : List (Event Ops World)} {s : World}
    {staging d : Path} {same : Bool} {within : Option Path} {b : Bytes}
    {Q : Except Err CommitResult → List (Event Ops World) → World → Prop} (hown : own ≠ "")
    (hd : root <+: d) (htmp : root <+: d.addExt ".tmp") (hst : ¬ root <+: staging)
    (hb : s.fs.get staging = some b) (hi : Ingesting root own w s) (hm : marks root h = .none)
    (hok : ∀ r h' t v, Placing root own w h' t d v → v ≠ some (d.addExt ".orphaned") →
      Q (.ok r) h' t)
    (herr : ∀ e h' t, Q (.error e) h' t) :
    (commitStagingToAccepted staging d same within).Track (handle env)
      (IngestPoint root eng own w) h s Q := by
  have hsd : staging ≠ d := by rintro rfl; exact hst hd
  have hrename : ∀ h s, Ingesting root own w s → marks root h = .none →
      s.fs.get staging = some b →
      (commitRename staging d).Track (handle env) (IngestPoint root eng own w) h s Q := by
    intro h s hi hm hb
    refine track_bind.mpr ⟨.idle hm hi, ?_⟩
    simp only [handle, moveFile, hb, Option.map_some]
    refine track_bind.mpr (track_placing (q := d) (v := none) (calls_statSize rfl) ?_ ?_)
    · refine ⟨?_, ⟨hd, by simp, by simp, fun p hp hpd _ => ?_⟩, hi.same.files, hi.quiet,
        hi.unfinished⟩
      · rw [marks_snoc, hm]
        simp [Marks.step, Marks.takeFrom, Marks.putAt, prefixOf hd, not_prefixOf hst, Marks.none]
      · have hps : p ≠ staging := by rintro rfl; exact hst hp
        simp only [Table.get_put, if_neg hpd, Table.get_drop, if_neg hps]
        exact hi.same.disk p hp
    · rintro (e | n) h₂ t₂ hp₂
      · exact herr e h₂ t₂
      · exact hok _ h₂ t₂ none hp₂ (by simp)
  have hcopy : ∀ h s, Ingesting root own w s → marks root h = .none →
      s.fs.get staging = some b →
      (commitCopy staging d).Track (handle env) (IngestPoint root eng own w) h s Q := by
    intro h s hi hm hb
    rw [commitCopy]
    by_cases hself : staging = d.addExt ".tmp"
    · simp only [copy2, if_pos hself]
      exact herr _ _ _
    simp only [copy2, if_neg hself]
    refine track_bind.mpr ⟨.idle hm hi, ?_⟩
    simp only [handle, copyFile, hb, Option.map_some]
    have hcopied : Placing root own w
        (h ++ [⟨.copy2 staging (d.addExt ".tmp"), s, { s with fs := s.fs.put (d.addExt ".tmp") b }⟩])
        { s with fs := s.fs.put (d.addExt ".tmp") b } (d.addExt ".tmp") none := by
      refine ⟨?_, ⟨htmp, by simp, by simp, fun p hp hpd _ => ?_⟩, hi.same.files, hi.quiet,
        hi.unfinished⟩
      · rw [marks_snoc, hm]
        simp [Marks.step, Marks.putAt, prefixOf htmp, Marks.none]
      · simp only [Table.get_put, if_neg hpd]
        exact hi.same.disk p hp
    refine track_bind.mpr (track_placing (calls_statSize rfl) hcopied ?_)
    rintro (e | n₁) h₁ s₁ h₁p
    · exact herr e h₁ s₁
    refine track_bind.mpr (track_placing (calls_statSize rfl) h₁p ?_)
    rintro (e | n₂) h₂ s₂ h₂p
    · exact herr e h₂ s₂
    simp only [thenTrack]
    split
    · exact track_bind.mpr ⟨h₂p.point, herr _ _ _⟩
    refine track_bind.mpr (track_placing (calls_sha256File rfl) h₂p ?_)
    rintro (e | x₁) h₃ s₃ h₃p
    · exact herr e h₃ s₃
    refine track_bind.mpr (track_placing (calls_sha256File rfl) h₃p ?_)
    rintro (e | x₂) h₄ s₄ h₄p
    · exact herr e h₄ s₄
    simp only [thenTrack]
    split
    · exact track_bind.mpr ⟨h₄p.point, herr _ _ _⟩
    -- the copy takes the destination's name, then the staged file goes
    obtain ⟨b', hb'⟩ := Option.ne_none_iff_exists'.mp h₄p.put.here
    have hne : d.addExt ".tmp" ≠ d := addExt_ne (by decide)
    refine track_bind.mpr ⟨h₄p.point, ?_⟩
    simp only [handle, moveFile, hb', Option.map_some]
    have hmoved : Placing root own w (h₄ ++ [⟨.replace (d.addExt ".tmp") d, s₄,
        { s₄ with fs := (s₄.fs.drop (d.addExt ".tmp")).put d b' }⟩])
        { s₄ with fs := (s₄.fs.drop (d.addExt ".tmp")).put d b' } d (some (d.addExt ".tmp")) := by
      refine ⟨?_, ⟨hd, by simp, fun p hp => ?_, fun p hp hpd hpv => ?_⟩, h₄p.files, h₄p.quiet,
        h₄p.unfinished⟩
      · rw [marks_snoc, h₄p.marks]
        simp [Marks.step, Marks.takeFrom, Marks.putAt, prefixOf hd, prefixOf htmp]
      · cases hp
        exact ⟨hne, by simp [Table.get_put, Table.get_drop, hne]⟩
      · have hpt : p ≠ d.addExt ".tmp" := fun hc => hpv (by rw [hc])
        simp only [Table.get_put, if_neg hpd, Table.get_drop, if_neg hpt]
        exact h₄p.put.rest p hp hpt (by simp)
    refine track_bind.mpr ⟨hmoved.point, ?_⟩
    simp only [handle]
    refine hok _ _ _ (some (d.addExt ".tmp")) ?_ fun hc => ?_
    · refine ⟨?_, ⟨hd, ?_, fun p hp => ?_, fun p hp hpd hpv => ?_⟩, hmoved.files, hmoved.quiet,
        hmoved.unfinished⟩
      · rw [marks_snoc, hmoved.marks]
        simp [Marks.step]
      · rw [Table.get_drop, if_neg hsd.symm]
        exact hmoved.put.here
      · refine ⟨(hmoved.put.vacated p hp).1, ?_⟩
        rw [Table.get_drop]
        split
        · rfl
        · exact (hmoved.put.vacated p hp).2
      · have hps : p ≠ staging := by rintro rfl; exact hst hp
        rw [Table.get_drop, if_neg hps]
        exact hmoved.put.rest p hp hpd hpv
    · exact absurd (addExt_inj (Option.some.inj hc)) (by decide)
  unfold commitStagingToAccepted
  refine track_bind.mpr (track_calm (W := fun r t => r = .ok (s.fs.get staging).isSome ∧ t = s) hown
    (calls_pathExists trivial) (wp_pathExists.mpr ⟨rfl, rfl⟩) hi hm ?_)
  rintro _ h₁ s₁ ⟨rfl, rfl⟩ hi₁ hm₁
  simp only [thenTrack, hb, Option.isSome_some, if_true]
  have hpure : (ensureWithin d within).Wp (handle env) s₁ fun _ t => t = s₁ := by
    cases within with
    | none => exact wp_ret.mpr rfl
    | some r => simp only [ensureWithin, ensureWithinRoot]; split <;> simp
  refine track_bind.mpr (track_calm hown calls_ensureWithin hpure hi₁ hm₁ ?_)
  rintro (e | u) h₂ s₂ rfl hi₂ hm₂
  · exact herr e h₂ s₂
  simp only [thenTrack]
  cases same
  · exact hcopy h₂ s₂ hi₂ hm₂ hb
  · exact hrename h₂ s₂ hi₂ hm₂ hb

/-- The record of the destination, behind the old records or alone. -/
theorem journaled_append {maxBytes : Nat} {rec : JournalRecord} {d : Path} (hown : own ≠ "")
    (hid : pyStrip rec.opId = own) (hph : rec.phase ≠ .registryPersisted)
    (hdest : rec.destinationPath = some d) (hst : ¬ root <+: rec.stagingPath)
    (hq : HarmlessBut none root t.journal.readAll)
    (hu : ∀ r ∈ t.journal.readAll, r.opId = own → r.phase ≠ .registryPersisted) :
    Journaled root own d (handle env (.journalAppend maxBytes rec) t).2 := by
  obtain ⟨old, rec', hread, hold, hid', hph', hd', hst'⟩ :=
    readAll_journalAppend env t maxBytes hown hid
  have hfilter : (old ++ [rec']).filter (·.opId == own) = old.filter (·.opId == own) ++ [rec'] := by
    rw [filter_snoc, hid']
    simp
  have hold' : HarmlessBut none root old ∧ ∀ r ∈ old, r.opId = own →
      r.phase ≠ .registryPersisted := by
    rcases hold with rfl | rfl
    · exact ⟨hq, hu⟩
    · exact ⟨harmless_nil, by simp⟩
  constructor <;> rw [hread]
  · exact hold'.1.snoc hid'
  · rw [hfilter]
    refine ⟨List.forall_mem_append.mpr ⟨fun r hr => ?_, by simpa [hph'] using hph⟩,
      fun latest hl => ?_⟩
    · rw [List.mem_filter] at hr
      exact hold'.2 r hr.1 (by simpa using hr.2)
    · simp only [List.getLast?_append, List.getLast?_singleton, Option.some_or,
        Option.some.injEq] at hl
      subst hl
      exact ⟨by rw [hd', hdest], by rw [hst']; exact hst⟩
  · rw [hfilter]
    simp

/-- From the placed file to the end of the call. -/
theorem track_afterCommit {eng : Engine} {c : StagedCandidate} {opId sha : String} {d : Path}
    {v : Option Path} {h : List (Event Ops World)} (hown : own ≠ "")
    (hid : pyStrip opId = own) (hst : ¬ root <+: c.stagingPath) (hfree : w.fs.get d = none)
    (horph : root <+: d.addExt ".orphaned") (hv : v ≠ some (d.addExt ".orphaned"))
    (hp : Placing root own w h t d v) :
    (journalAppend eng opId .storageCommitted c (some d) (some sha) >>= fun _ =>
      statSize d >>= fun sizeBytes =>
      transact (.finalizeUnknownIngest sha sizeBytes c.originalFilename d c.accountName
        c.onedriveId c.relativePath c.modifiedTime pipelineActor) >>= fun _ =>
      journalAppend eng opId .registryPersisted c (some d) (some sha) >>= fun _ =>
      (pure (outcome c .pending (some sha) (some d) false) : Flow IngestOutcome)).Track (handle env)
        (IngestPoint root eng own w) h t fun _ _ _ => True := by
  cases hm : eng.journalMaxBytes with
  | none =>
    -- without a journal the transaction is the last step
    simp only [journalAppend, hm, pure_eq, ret_bind]
    refine track_bind.mpr (track_placing (calls_statSize rfl) hp ?_)
    rintro (e | n) h₁ t₁ hp₁
    · trivial
    refine track_bind.mpr ⟨hp₁.point, ?_⟩
    simp only [handle]
    split <;> trivial
  | some m =>
    simp only [journalAppend, hm]
    refine track_bind.mpr ⟨hp.point, ?_⟩
    simp only [track_ret, thenTrack]
    have hj : Journaled root own d (handle env (.journalAppend m ⟨opId, .storageCommitted, "",
        c.accountName, c.onedriveId, c.stagingPath, some d, some sha⟩) t).2 :=
      journaled_append hown hid (by simp) rfl hst hp.quiet hp.unfinished
    obtain ⟨b, hb⟩ := Option.ne_none_iff_exists'.mp hp.put.here
    have hput : PutAt root w (handle env (.journalAppend m ⟨opId, .storageCommitted, "",
        c.accountName, c.onedriveId, c.stagingPath, some d, some sha⟩) t).2 d v :=
      ⟨hp.put.below, hp.put.here, hp.put.vacated, hp.put.rest⟩
    have heng : eng.journalMaxBytes.isSome = true := by rw [hm]; rfl
    have hmarks : ∀ e : Event Ops World, e.op = .journalAppend m ⟨opId, .storageCommitted, "",
        c.accountName, c.onedriveId, c.stagingPath, some d, some sha⟩ →
        marks root (h ++ [e]) = ⟨some d, v.toList, true, false, []⟩ := by
      intro e he
      rw [marks_snoc, hp.marks, he]
      rfl
    refine track_bind.mpr ⟨.recorded (hmarks _ rfl) hput hfree hv horph hp.files hj heng, ?_⟩
    simp only [handle, hb, Option.map_some, track_ret, thenTrack]
    refine track_bind.mpr ⟨.recorded (by rw [marks_snoc, hmarks _ rfl]; rfl) hput hfree hv horph
      hp.files hj heng, ?_⟩
    simp only [handle]
    cases hr : Tx.apply t.reg (env.clock (t.ticks + 1)).iso (.finalizeUnknownIngest sha b.length
        c.originalFilename d c.accountName c.onedriveId c.relativePath c.modifiedTime
        pipelineActor) with
    | error e => trivial
    | ok r =>
      obtain ⟨row, hst', hpath, hf⟩ := Registry.files_finalizeUnknownIngest hr
      refine track_bind.mpr ⟨.finalized (by rw [marks_snoc]; rfl) hput.below horph
        hput.here (hf.trans (by rw [hp.files])) hst' hpath ⟨hj.others, hj.recorded, hj.some⟩ heng,
        trivial⟩

/-! ## The branches -/

variable {eng : Engine} {ps : IngestParams} {c : StagedCandidate} {opId sha : String}
  {h : List (Event Ops World)}

theorem track_ingestUnknown {b : Bytes} (hown : own ≠ "") (hid : pyStrip opId = own)
    (ht : namesFile ps.storageTemplate = true) (hs : IsSha sha)
    (hst : ¬ ps.pendingRoot <+: c.stagingPath) (hb : t.fs.get c.stagingPath = some b)
    (hi : Ingesting ps.pendingRoot own w t) (hm : marks ps.pendingRoot h = .none) :
    (ingestUnknown env eng ps c opId sha).Track (handle env)
      (IngestPoint ps.pendingRoot eng own w) h t fun _ _ _ => True := by
  unfold ingestUnknown
  refine track_bind.mpr (track_calm (W := fun r t' => Still t t' ∧ ∀ rel, r = .ok rel → rel ≠ [])
    hown (calls_renderRelativePath trivial) (wp_renderRelativePath ht hs ?_ ?_) hi hm ?_)
  · exact fun rel w' hw hrel => ⟨hw, fun _ h' => by cases h'; exact hrel⟩
  · exact fun e w' hw => ⟨hw, by simp⟩
  rintro (e | rel) h₁ t₁ ⟨hs₁, hrel⟩ hi₁ hm₁
  · trivial
  have hrel := hrel rel rfl
  refine track_bind.mpr (track_calm (W := fun r t' => t' = t₁ ∧ ∀ d, r = .ok d →
    t₁.fs.get d = none ∧ Beside (ps.pendingRoot ++ rel) d) hown (calls_choose fun _ => trivial)
    (wp_choose (by simp [hrel]) ?_ ?_) hi₁ hm₁ ?_)
  · exact fun d hfree hd => ⟨rfl, fun d' h' => by cases h'; exact ⟨hfree, hd⟩⟩
  · exact fun e => ⟨rfl, by simp⟩
  rintro (e | d) h₂ t₂ ⟨rfl, hd⟩ hi₂ hm₂
  · trivial
  obtain ⟨hfree, hd⟩ := hd d rfl
  have hbelow : ps.pendingRoot <+: d := hd.within hrel
  refine track_bind.mpr (track_commitPlacing hown hbelow ((hd.addExt _).within hrel) hst
    (by rw [hs₁.fs, hb]) hi₂ hm₂ ?_ fun _ _ _ => trivial)
  intro r h₃ t₃ v hp hv
  exact track_afterCommit hown hid hst (by rw [← hi₂.same.disk d hbelow]; exact hfree)
    ((hd.addExt _).within hrel) hv hp

/-- The last record of a call: nothing is left to interrupt behind it. -/
theorem track_lastRecord {phase : JournalPhase} {d : Option Path} {x : Option String}
    {out : IngestOutcome} {Φ : List (Event Ops World) → World → Prop} (hΦ : Φ h t) :
    (journalAppend eng opId phase c d x >>= fun _ => (pure out : Flow IngestOutcome)).Track
      (handle env) Φ h t fun _ _ _ => True := by
  unfold journalAppend
  cases eng.journalMaxBytes with
  | none => trivial
  | some m => exact ⟨hΦ, trivial⟩

theorem track_discardKnown {record : FileRecord} (hown : own ≠ "")
    (hst : ¬ root <+: c.stagingPath) (hi : Ingesting root own w t) (hm : marks root h = .none) :
    (discardKnown eng c opId sha record).Track (handle env) (IngestPoint root eng own w) h t
      fun _ _ _ => True := by
  unfold discardKnown
  refine track_bind.mpr (track_calm (W := fun _ _ => True) hown (calls_statSize trivial)
    (wp_iff.mpr trivial) hi hm ?_)
  rintro (e | n) h₁ t₁ - hi₁ hm₁
  · trivial
  refine track_bind.mpr (track_calm (W := fun _ _ => True) hown (calls_unlink hst)
    (wp_iff.mpr trivial) hi₁ hm₁ ?_)
  rintro (e | u) h₂ t₂ - hi₂ hm₂
  · trivial
  refine track_bind.mpr (track_calm (W := fun _ _ => True) hown (calls_transact rfl)
    (wp_iff.mpr trivial) hi₂ hm₂ ?_)
  rintro (e | u) h₃ t₃ - hi₃ hm₃
  · trivial
  exact track_lastRecord (.idle hm₃ hi₃)

theorem track_discardPrefiltered {st : Status} (hown : own ≠ "") (hst : ¬ root <+: c.stagingPath)
    (hi : Ingesting root own w t) (hm : marks root h = .none) :
    (discardPrefiltered c st sha).Track (handle env) (IngestPoint root eng own w) h t
      fun _ _ _ => True := by
  unfold discardPrefiltered
  refine track_calm (W := fun _ _ => True) hown ?_ (wp_iff.mpr trivial) hi hm fun _ _ _ _ _ _ =>
    trivial
  exact Calls.bind (calls_unlink hst) fun _ => Calls.bind (calls_transact rfl) fun _ => .ret

/-- A block rule has forced the row of `sha`. -/
structure Forcing (root : Path) (w : World) (sha : String) (row : FileRecord)
    (h : List (Event Ops World)) (t : World) : Prop where
  marks : marks root h = ⟨none, [], false, false, [sha]⟩
  disk : ∀ p, root <+: p → t.fs.get p = w.fs.get p
  files : t.reg.files = w.reg.files.put sha row
  quiet : HarmlessBut none root t.journal.readAll

/-- A transaction that keeps the rows keeps the point. -/
theorem track_forcing {tx : Tx} {row : FileRecord}
    {Q : Except Err Unit → List (Event Ops World) → World → Prop} (htx : tx.keepsFiles = true)
    (hst : row.status = .rejected) (hpath : row.currentPath = none)
    (hf : Forcing root w sha row h t)
    (hQ : ∀ r h' t', Forcing root w sha row h' t' → Q r h' t') :
    (transact tx).Track (handle env) (IngestPoint root eng own w) h t Q := by
  refine ⟨.forced hf.marks hf.disk hf.files hst hpath hf.quiet, ?_⟩
  have hcalm : Op.Calm root own (.tx tx) := htx
  have hmarks : ∀ e : Event Ops World, e.op = .tx tx →
      marks root (h ++ [e]) = ⟨none, [], false, false, [sha]⟩ := fun e he => by
    rw [marks_snoc, he, marks_calm hcalm, hf.marks]
  simp only [handle]
  cases hr : tx.apply t.reg (env.clock t.ticks).iso with
  | error e => exact hQ _ _ _ ⟨hmarks _ rfl, hf.disk, hf.files, hf.quiet⟩
  | ok r => exact hQ _ _ _ ⟨hmarks _ rfl, hf.disk, (files_of_keepsFiles htx hr).trans hf.files,
      hf.quiet⟩

/-- The forced row, and behind it three transactions that keep it. -/
theorem track_rejectBlocked {n : Nat} {rule : RuleType × String} (hown : own ≠ "")
    (hst : ¬ root <+: c.stagingPath) (hi : Ingesting root own w t) (hm : marks root h = .none) :
    (rejectBlocked eng c opId n sha rule).Track (handle env) (IngestPoint root eng own w) h t
      fun _ _ _ => True := by
  unfold rejectBlocked
  refine track_bind.mpr (track_calm (W := fun _ _ => True) hown (calls_unlink hst)
    (wp_iff.mpr trivial) hi hm ?_)
  rintro (e | u) h₁ t₁ - hi₁ hm₁
  · trivial
  refine track_bind.mpr ⟨.idle hm₁ hi₁, ?_⟩
  simp only [handle, Tx.apply, track_ret, thenTrack]
  obtain ⟨row, hrst, hrpath, hrf⟩ := Registry.files_upsertFile t₁.reg sha n .rejected
    (some c.originalFilename) none (env.clock t₁.ticks).iso
  have hforced : ∀ post, Forcing root w sha row (h₁ ++ [⟨.tx (.createOrUpdateFile sha n .rejected
      (some c.originalFilename) none), t₁, post⟩]) { t₁ with
        reg := t₁.reg.createOrUpdateFile sha n .rejected (some c.originalFilename) none
          (env.clock t₁.ticks).iso
        ticks := t₁.ticks + 1 } := by
    intro post
    refine ⟨?_, hi₁.same.disk, hrf.trans (by rw [hi₁.same.files]), hi₁.quiet⟩
    rw [marks_snoc, hm₁]
    rfl
  refine track_bind.mpr (track_forcing rfl hrst hrpath (hforced _) ?_)
  rintro (e | u) h₂ t₂ hf₂
  · trivial
  refine track_bind.mpr (track_forcing rfl hrst hrpath hf₂ ?_)
  rintro (e | u) h₃ t₃ hf₃
  · trivial
  refine track_bind.mpr (track_forcing rfl hrst hrpath hf₃ ?_)
  rintro (e | u) h₄ t₄ hf₄
  · trivial
  exact track_lastRecord (.forced hf₄.marks hf₄.disk hf₄.files hrst hrpath hf₄.quiet)

/-! ## The whole call -/

theorem calm_journalAppend {phase : JournalPhase} {x : Option String} (hid : pyStrip opId = own)
    (hst : ¬ root <+: c.stagingPath) (hp : phase ≠ .registryPersisted)
    (hs : phase ≠ .storageCommitted) :
    (journalAppend eng opId phase c none x).Calls (Op.Calm root own) := by
  unfold journalAppend
  cases eng.journalMaxBytes with
  | none => exact .ret
  | some m => exact .op ⟨hid, rfl, hst, hp, hs⟩ fun _ => .ret

theorem calm_handleQuarantineOrDelete {category : String} {dir : Option Path}
    (hst : ¬ root <+: c.stagingPath) (hq : ∀ q, dir = some q → Unnested root q) :
    (handleQuarantineOrDelete c.stagingPath dir category).Calls (Op.Calm root own) := by
  unfold handleQuarantineOrDelete
  cases dir with
  | none => exact calls_unlink hst
  | some q =>
    have hout : ∀ p, q <+: p → ¬ root <+: p := fun p hp hr => (hq q rfl).disjoint hr hp
    refine Calls.bind (calls_pathExists trivial) fun b => ?_
    cases b
    · exact calls_replaceFile ⟨hst, hout _ (List.prefix_append _ _)⟩
    · refine Calls.bind (calls_utcNow trivial) fun now => ?_
      exact calls_replaceFile ⟨hst, hout _ ((beside_withName _ _).within (by simp))⟩

theorem track_decideByHash {n : Nat} {b : Bytes} (hown : own ≠ "") (hid : pyStrip opId = own)
    (ht : namesFile ps.storageTemplate = true) (hsha : ∀ b, IsSha (env.sha256 b))
    (hst : ¬ ps.pendingRoot <+: c.stagingPath) (hb : t.fs.get c.stagingPath = some b)
    (hi : Ingesting ps.pendingRoot own w t) (hm : marks ps.pendingRoot h = .none) :
    (decideByHash env eng ps c opId n).Track (handle env) (IngestPoint ps.pendingRoot eng own w) h t
      fun _ _ _ => True := by
  unfold decideByHash
  refine track_bind.mpr (track_calm (W := fun r t' => r = .ok (env.sha256 b) ∧ t' = t) hown
    (calls_sha256File trivial) ((wp_sha256File hb).mpr ⟨rfl, rfl⟩) hi hm ?_)
  rintro _ h₁ t₁ ⟨rfl, rfl⟩ hi₁ hm₁
  refine track_bind.mpr (track_calm (W := fun _ t' => Still t₁ t') hown
    (calm_journalAppend hid hst (by decide) (by decide)) (wp_journalAppend fun _ hw => hw) hi₁ hm₁ ?_)
  rintro (e | u) h₂ t₂ hs₂ hi₂ hm₂
  · trivial
  have hb₂ : t₂.fs.get c.stagingPath = some b := by rw [hs₂.fs, hb]
  refine track_bind.mpr (track_calm (W := fun _ t' => t' = t₂) hown
    (.op trivial fun _ => .ret) (wp_matchBlockRule.mpr rfl) hi₂ hm₂ ?_)
  rintro (e | rule) h₃ t₃ rfl hi₃ hm₃
  · trivial
  cases rule with
  | some rule => exact track_rejectBlocked hown hst hi₃ hm₃
  | none =>
    refine track_bind.mpr (track_calm (W := fun _ t' => t' = t₃) hown (calls_getFile trivial)
      (wp_getFile.mpr rfl) hi₃ hm₃ ?_)
    rintro (e | record) h₄ t₄ rfl hi₄ hm₄
    · trivial
    cases record with
    | none => exact track_ingestUnknown hown hid ht (hsha b) hst hb₂ hi₄ hm₄
    | some record => exact track_discardKnown hown hst hi₄ hm₄

theorem track_processOne (eng : Engine) (hown : own ≠ "")
    (hid : pyStrip (opIdOf c (env.uuid w.draws)) = own)
    (ht : namesFile ps.storageTemplate = true) (hsha : ∀ b, IsSha (env.sha256 b))
    (hst : ¬ ps.pendingRoot <+: c.stagingPath)
    (hq : ∀ q, ps.quarantineDir = some q → Unnested ps.pendingRoot q)
    (hi : Ingesting ps.pendingRoot own w w) :
    (processOne env eng ps c).Track (handle env) (IngestPoint ps.pendingRoot eng own w) [] w
      fun _ _ _ => True := by
  unfold processOne
  refine track_bind.mpr (track_calm (W := fun r t' => r = .ok (env.uuid w.draws) ∧ Still w t') hown
    (.op trivial fun _ => .ret) (wp_op.mpr (wp_ret.mpr ⟨rfl, rfl, rfl⟩)) hi rfl ?_)
  rintro _ h₁ t₁ ⟨rfl, hs₁⟩ hi₁ hm₁
  refine track_bind.mpr (track_calm (W := fun _ t' => Still t₁ t') hown
    (calm_journalAppend hid hst (by decide) (by decide)) (wp_journalAppend fun _ hw => hw) hi₁ hm₁ ?_)
  rintro (e | u) h₂ t₂ hs₂ hi₂ hm₂
  · trivial
  refine track_bind.mpr (track_calm (W := fun r t' => r = .ok (t₂.fs.get c.stagingPath).isSome ∧
    t' = t₂) hown (calls_pathExists trivial) (wp_pathExists.mpr ⟨rfl, rfl⟩) hi₂ hm₂ ?_)
  rintro _ h₃ t₃ ⟨rfl, rfl⟩ hi₃ hm₃
  simp only [thenTrack]
  -- the branches that end here are calm throughout
  have hend : ∀ {pr : Flow IngestOutcome} {h' : List (Event Ops World)} {t' : World},
      pr.Calls (Op.Calm ps.pendingRoot own) → Ingesting ps.pendingRoot own w t' →
      marks ps.pendingRoot h' = .none → pr.Track (handle env)
        (IngestPoint ps.pendingRoot eng own w) h' t' fun _ _ _ => True := fun hp hi' hm' =>
    track_calm (W := fun _ _ => True) hown hp (wp_iff.mpr trivial) hi' hm' fun _ _ _ _ _ _ => trivial
  cases hb : t₃.fs.get c.stagingPath with
  | none =>
    exact hend (Calls.bind (calm_journalAppend hid hst (by decide) (by decide)) fun _ => .ret) hi₃ hm₃
  | some b =>
    simp only [Option.isSome_some, if_true]
    refine track_bind.mpr (track_calm (W := fun r t' => r = .ok b.length ∧ t' = t₃) hown
      (calls_statSize trivial) ((wp_statSize hb).mpr ⟨rfl, rfl⟩) hi₃ hm₃ ?_)
    rintro _ h₄ t₄ ⟨rfl, rfl⟩ hi₄ hm₄
    simp only [thenTrack]
    split
    · exact hend (Calls.bind (calm_journalAppend hid hst (by decide) (by decide)) fun _ =>
        Calls.bind (calm_handleQuarantineOrDelete hst hq) fun _ => .ret) hi₄ hm₄
    split
    · exact hend (Calls.bind (calls_unlink hst) fun _ => .ret) hi₄ hm₄
    split
    · exact hend (Calls.bind (calm_handleQuarantineOrDelete hst hq) fun _ => .ret) hi₄ hm₄
    · unfold decideStaged
      refine track_bind.mpr (track_calm (W := fun _ t' => t' = t₄) hown
        (.op trivial fun _ => .ret) (wp_prefilterStatus.mpr rfl) hi₄ hm₄ ?_)
      rintro (e | hit) h₅ t₅ rfl hi₅ hm₅
      · trivial
      rcases hit with _ | ⟨st, x⟩
      · exact track_decideByHash hown hid ht hsha hst hb hi₅ hm₅
      · exact track_discardPrefiltered hown hst hi₅ hm₅

end Steps

end Nightfall
