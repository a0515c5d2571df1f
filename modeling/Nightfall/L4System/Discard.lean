import Nightfall.L3Flows.IngestSpecs
import Nightfall.L4System.System

/-!
# What a discard leaves of a known row

`_process_one` discards a staged file in three branches: a metadata prefilter
hit, a block rule, a known hash. Only the last one leaves the row of the
content's hash alone by itself. The block rule writes `rejected` and a null
path over whatever the row held; a prefilter hit reports the status of the row
the metadata names, which need not be the row of the content.

* `discard_keeps_iff`: exactly when a discard keeps the row and reports its
  status.
* `discard_orphans_accepted`: a block rule turns an accepted file into one that
  no row references.
-/
namespace Nightfall
open Nightfall.Core Storage Prog

variable {env : Env} {eng : Engine} {ps : IngestParams} {c : StagedCandidate} {w : World}

/-- If the call discards with status `s` and the content's hash had a row, the
row keeps its status and its path and `s` is its status. -/
def DiscardKeeps (env : Env) (eng : Engine) (ps : IngestParams) (c : StagedCandidate) (w : World) :
    Prop :=
  ∀ b row out w' s, w.fs.get c.stagingPath = some b →
    w.reg.files.get (env.sha256 b) = some row →
    (processOne env eng ps c).run (handle env) w = (.ok out, w') → out.action = .discard s →
    s = row.status ∧ ∃ row', w'.reg.files.get (env.sha256 b) = some row' ∧
      row'.status = row.status ∧ row'.currentPath = row.currentPath

/-- The prefilter, if it hits, names the content's own status; and a block rule,
if one matches behind a prefilter miss, finds the row rejected without a path. -/
def KeepsWhen (env : Env) (ps : IngestParams) (c : StagedCandidate) (w : World) : Prop :=
  ∀ b row, w.fs.get c.stagingPath = some b → w.reg.files.get (env.sha256 b) = some row →
    Admitted ps c b.length →
    (∀ st sha, prefiltered c w = some (st, sha) → st = row.status) ∧
    (prefiltered c w = none → (blockedBy env c w).isSome = true →
      row.status = .rejected ∧ row.currentPath = none)

/-- What the call does to a known content, branch by branch. -/
inductive KnownOutcome (env : Env) (ps : IngestParams) (c : StagedCandidate) (w : World)
    (sha : String) (row : FileRecord) (n : Nat) : IngestAction → World → Prop
  | early {a : IngestAction} {w' : World} (hadm : ¬ Admitted ps c n) (ha : ∀ s, a ≠ .discard s) :
      KnownOutcome env ps c w sha row n a w'
  | prefilter {st : Status} {sha' : String} {w' : World} (hadm : Admitted ps c n)
      (hit : prefiltered c w = some (st, sha')) (hf : w'.reg.files = w.reg.files) :
      KnownOutcome env ps c w sha row n (.discard st) w'
  | blocked {row' : FileRecord} {w' : World} (hadm : Admitted ps c n)
      (miss : prefiltered c w = none) (hrule : (blockedBy env c w).isSome = true)
      (hst : row'.status = .rejected) (hpath : row'.currentPath = none)
      (hf : w'.reg.files = w.reg.files.put sha row') :
      KnownOutcome env ps c w sha row n (.discard .rejected) w'
  | known {w' : World} (hadm : Admitted ps c n) (miss : prefiltered c w = none)
      (hrule : blockedBy env c w = none) (hf : w'.reg.files = w.reg.files) :
      KnownOutcome env ps c w sha row n (.discard row.status) w'

theorem prefiltered_still {w' : World} (h : Still w w') : prefiltered c w' = prefiltered c w := by
  rw [prefiltered, h.reg, prefiltered]

theorem blockedBy_still {w' : World} (h : Still w w') : blockedBy env c w' = blockedBy env c w := by
  rw [blockedBy, h.reg, blockedBy]

/-- A staged file with a known hash never raises, and ends in one of the branches. -/
theorem wp_processOne_known (eng : Engine) (ps : IngestParams) {b : Bytes} {row : FileRecord}
    (hb : w.fs.get c.stagingPath = some b) (hrow : w.reg.files.get (env.sha256 b) = some row) :
    (processOne env eng ps c).Wp (handle env) w fun r w' =>
      ∃ out, r = .ok out ∧ KnownOutcome env ps c w (env.sha256 b) row b.length out.action w' := by
  refine wp_processOne ?_ ?_ ?_
  · intro w' hnone _
    rw [hb] at hnone
    cases hnone
  · intro b' a w' hb' hadm ha _ _
    obtain rfl : b = b' := Option.some.inj (hb.symm.trans hb')
    exact ⟨_, rfl, .early hadm fun s => ha ▸ refusal_ne_discard _ s⟩
  · intro b' opId w₁ hb' hadm h₁
    obtain rfl : b = b' := Option.some.inj (hb.symm.trans hb')
    refine wp_decideStaged ?_ ?_
    · intro st sha hit
      rw [prefiltered_still h₁] at hit
      refine wp_discardPrefiltered fun w₂ _ hf => ⟨_, rfl, .prefilter hadm hit ?_⟩
      rw [hf, h₁.reg]
    · intro miss
      rw [prefiltered_still h₁] at miss
      have hb₁ : w₁.fs.get c.stagingPath = some b := by rw [h₁.fs, hb]
      refine wp_decideByHash hb₁ ?_ ?_ ?_
      · intro w₂ rule h₂ hrule
        rw [blockedBy_still h₁] at hrule
        refine wp_rejectBlocked fun w₃ row' _ hst hpath hf => ?_
        refine ⟨_, rfl, .blocked hadm miss (by simp [hrule]) hst hpath ?_⟩
        rw [hf, h₂.reg, h₁.reg]
      · intro w₂ h₂ _ hnone
        rw [h₁.reg, hrow] at hnone
        cases hnone
      · intro w₂ record h₂ hrule hrec
        rw [h₁.reg, hrow] at hrec
        cases hrec
        rw [blockedBy_still h₁] at hrule
        refine wp_discardKnown (b := b) (by rw [h₂.fs, hb₁]) (by rw [h₂.reg, h₁.reg, hrow])
          fun w₃ _ hf => ?_
        refine ⟨_, rfl, .known hadm miss hrule ?_⟩
        rw [hf, h₂.reg, h₁.reg]

/-- A discard keeps what is known exactly when the prefilter agrees with the
content's row and no block rule meets a row it would change. -/
theorem discard_keeps_iff (env : Env) (eng : Engine) (ps : IngestParams) (c : StagedCandidate)
    (w : World) : DiscardKeeps env eng ps c w ↔ KeepsWhen env ps c w := by
  constructor
  · intro h b row hb hrow hadm
    obtain ⟨out, hr, hout⟩ := wp_iff.mp (wp_processOne_known eng ps hb hrow)
    have hkeep := fun s hs => h b row out _ s hb hrow (run_of_result hr) hs
    generalize ha : out.action = a at hout
    cases hout with
    | early hna _ => exact absurd hadm hna
    | @prefilter st sha' _ _ hit hf =>
      refine ⟨fun st' sha'' hit' => ?_, fun miss => by simp [hit] at miss⟩
      rw [hit] at hit'
      cases hit'
      exact (hkeep st ha).1
    | @blocked row' _ _ miss hrule hst hpath hf =>
      refine ⟨fun st sha hit => by simp [miss] at hit, fun _ _ => ?_⟩
      obtain ⟨hs, row'', hrow'', hst', hpath'⟩ := hkeep .rejected ha
      rw [hf, Table.get_put_self] at hrow''
      cases hrow''
      exact ⟨hs.symm, hpath'.symm.trans hpath⟩
    | known _ miss hrule _ =>
      exact ⟨fun st sha hit => by simp [miss] at hit, fun _ hsome => by simp [hrule] at hsome⟩
  · intro h b row out w' s hb hrow hrun hs
    have hwp := wp_iff.mp (wp_processOne_known eng ps hb hrow)
    rw [hrun] at hwp
    obtain ⟨out', hr, hout⟩ := hwp
    cases hr
    rw [hs] at hout
    cases hout with
    | early _ ha => exact absurd rfl (ha s)
    | prefilter hadm hit hf =>
      exact ⟨(h b row hb hrow hadm).1 _ _ hit, row, by rw [hf]; exact hrow, rfl, rfl⟩
    | @blocked row' _ hadm miss hrule hst hpath hf =>
      obtain ⟨hrej, hnull⟩ := (h b row hb hrow hadm).2 miss hrule
      refine ⟨hrej.symm, row', ?_, by rw [hst, hrej], by rw [hpath, hnull]⟩
      rw [hf]
      exact Table.get_put_self _ _ _
    | known hadm miss hrule hf => exact ⟨rfl, row, by rw [hf]; exact hrow, rfl, rfl⟩

/-! ## A block rule on an accepted file -/

/-- The accepted path of the sample photo. -/
def acceptedPhoto : Path := ["lib", "accepted", "2024", "01", "IMG.JPG"]

/-- Content `a` is accepted and on disk, the same content is staged again, and
a rule blocking its name has been enabled since. -/
def blockedWorld : World :=
  sampleWorld [(acceptedPhoto, [97]), (["staging", "x"], [97])]
    { Registry.empty with
      files := Table.put ∅ shaA (sampleRow .accepted (some acceptedPhoto))
      blockedRules := [⟨1, .filename, "IMG.JPG", true⟩] }

/-- The accepted row becomes rejected without a path, the accepted file stays. -/
theorem discard_orphans_accepted :
    ¬ DiscardKeeps sampleEnv ⟨none⟩ sampleParams (sampleCandidate "id2" ["staging", "x"])
      blockedWorld := by
  intro h
  have hrun : ((processOne sampleEnv ⟨none⟩ sampleParams
      (sampleCandidate "id2" ["staging", "x"])).run (handle sampleEnv) blockedWorld).1 =
      .ok (outcome (sampleCandidate "id2" ["staging", "x"]) (.discard .rejected) (some shaA) none
        false) := by decide +kernel
  have hkeep := h [97] (sampleRow .accepted (some acceptedPhoto)) _ _ .rejected (by decide +kernel)
    (by decide +kernel) (run_of_result hrun) rfl
  exact absurd hkeep.1 (by decide)

end Nightfall
