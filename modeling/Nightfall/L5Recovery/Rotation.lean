import Nightfall.Core.Crash
import Nightfall.L4System.System
import Nightfall.L5Recovery.Replay

/-!
# Rotation of the journal (`domain/journal.py`)

All workers of a batch append to one journal, and a replay reads only its active
file. An append that finds the file full renames it first, whatever operations
have records in it.

* `crashed`: the machine after the first `n` appends of an interleaving.
* `Unfinished`: an operation that placed its file and has no row on record.
* `rotation_hides_iff`: every unfinished operation is recovered after every
  append, exactly when no append rotates one of another operation away.
-/
namespace Nightfall
open Nightfall.Core Storage Prog

/-! ## Interleaved appends -/

/-- One call of `_journal_append`: the operation it is part of and what it notes. -/
structure JournalCall where
  candidate : StagedCandidate
  uuid : String
  phase : JournalPhase
  destination : Option Path
  sha256 : Option String

/-- The operation id as the replay reads it. -/
def JournalCall.opId (a : JournalCall) : String := pyStrip (opIdOf a.candidate a.uuid)

def JournalCall.flow (maxBytes : Nat) (a : JournalCall) : Flow Unit :=
  journalAppend ⟨some maxBytes⟩ (opIdOf a.candidate a.uuid) a.phase a.candidate a.destination
    a.sha256

/-- The calls of all workers, in the order they reach the file. -/
def appendAll (maxBytes : Nat) : List JournalCall → Flow Unit
  | [] => pure ()
  | a :: as => do
    a.flow maxBytes
    appendAll maxBytes as

/-- From a journal the last replay has cleared, the process dies after the first
`n` appends. -/
def crashed (env : Env) (maxBytes : Nat) (w : World) (calls : List JournalCall) (n : Nat) : World :=
  (appendAll maxBytes calls).crash (handle env) n { w with journal := w.journal.clear }

/-- The operation has moved its file, and its row is not on record. -/
def Unfinished (done : List JournalCall) (id : String) : Prop :=
  (∃ a ∈ done, a.opId = id ∧ a.phase = .storageCommitted) ∧
    ∀ a ∈ done, a.opId = id → a.phase ≠ .registryPersisted

/-- The replay started here returns, and lists the operation. -/
def Recovers (env : Env) (maxBytes : Nat) (w : World) (id : String) : Prop :=
  ∃ res, ((replayInterruptedOperations ⟨some maxBytes⟩).run (handle env) w).1 = .ok res ∧
    id ∈ res.unresolvedOpIds

/-- The next append starts a new file. -/
def RotatesNext (env : Env) (maxBytes : Nat) (w : World) : Prop :=
  w.journal.rotates env.lineBytes maxBytes = true

section Rotation
variable {env : Env} {maxBytes : Nat} {w : World} {calls : List JournalCall}

/-! ## One append -/

/-- The record a call leaves. -/
def JournalCall.record (a : JournalCall) (ts : String) : JournalRecord :=
  ⟨a.opId, a.phase, ts, a.candidate.accountName, a.candidate.onedriveId, a.candidate.stagingPath,
    a.destination, a.sha256⟩

/-- The operation behind a call. -/
def JournalCall.op (maxBytes : Nat) (a : JournalCall) : Op :=
  .journalAppend maxBytes ⟨opIdOf a.candidate a.uuid, a.phase, "", a.candidate.accountName,
    a.candidate.onedriveId, a.candidate.stagingPath, a.destination, a.sha256⟩

theorem readAll_op_rotated {t : World} (a : JournalCall) (h : RotatesNext env maxBytes t) :
    (handle env (a.op maxBytes) t).2.journal.readAll = [a.record (env.clock t.ticks).iso] :=
  Journal.readAll_append_rotated (opId_ne_empty a.candidate a.uuid) h

theorem readAll_op_kept {t : World} (a : JournalCall) (h : ¬ RotatesNext env maxBytes t) :
    (handle env (a.op maxBytes) t).2.journal.readAll =
      t.journal.readAll ++ [a.record (env.clock t.ticks).iso] :=
  Journal.readAll_append_kept (opId_ne_empty a.candidate a.uuid) (Bool.not_eq_true _ ▸ h)

/-! ## A whole interleaving -/

theorem crash_appendAll_succ {a : JournalCall} : ∀ (n : Nat) (calls : List JournalCall) (t : World),
    calls[n]? = some a → (appendAll maxBytes calls).crash (handle env) (n + 1) t =
      (handle env (a.op maxBytes) ((appendAll maxBytes calls).crash (handle env) n t)).2
  | n, [], _, h => by simp at h
  | 0, b :: bs, t, h => by
    have hb : b = a := by simpa using h
    subst hb
    show (appendAll maxBytes bs).crash (handle env) 0 _ = _
    simp only [crash_zero]
    rfl
  | n + 1, b :: bs, t, h => crash_appendAll_succ n bs _ (by simpa using h)

/-- The state before any append, and one append more. -/
theorem readAll_crashed_zero : (crashed env maxBytes w calls 0).journal.readAll = [] := by
  rw [crashed, crash_zero]; rfl

theorem crashed_succ {n : Nat} {a : JournalCall} (h : calls[n]? = some a) :
    crashed env maxBytes w calls (n + 1) =
      (handle env (a.op maxBytes) (crashed env maxBytes w calls n)).2 :=
  crash_appendAll_succ n calls _ h

theorem take_succ_of_getElem? {n : Nat} {a : JournalCall} (h : calls[n]? = some a) :
    calls.take (n + 1) = calls.take n ++ [a] := by
  rw [List.take_add_one, h]; rfl

/-- Whatever is read was appended. -/
theorem read_of_appended : ∀ (n : Nat), n ≤ calls.length →
    ∀ r ∈ (crashed env maxBytes w calls n).journal.readAll,
      ∃ a ∈ calls.take n, r.opId = a.opId ∧ r.phase = a.phase
  | 0, _, r, hr => by
    rw [readAll_crashed_zero] at hr
    cases hr
  | n + 1, hn, r, hr => by
    obtain ⟨a, ha⟩ : ∃ a, calls[n]? = some a := ⟨_, List.getElem?_eq_getElem hn⟩
    rw [take_succ_of_getElem? ha]
    rw [crashed_succ ha] at hr
    have hlast : r = a.record (env.clock (crashed env maxBytes w calls n).ticks).iso →
        ∃ b ∈ calls.take n ++ [a], r.opId = b.opId ∧ r.phase = b.phase := by
      intro hrec
      exact ⟨a, by simp, by rw [hrec]; exact ⟨rfl, rfl⟩⟩
    by_cases hrot : RotatesNext env maxBytes (crashed env maxBytes w calls n)
    · rw [readAll_op_rotated a hrot] at hr
      exact hlast (List.mem_singleton.mp hr)
    · rw [readAll_op_kept a hrot] at hr
      rcases List.mem_append.mp hr with hr | hr
      · obtain ⟨b, hb, hrec⟩ := read_of_appended n (by omega) r hr
        exact ⟨b, List.mem_append_left _ hb, hrec⟩
      · exact hlast (List.mem_singleton.mp hr)

theorem recovers_iff_interrupted {t : World} {id : String} :
    Recovers env maxBytes t id ↔ Interrupted t.journal.readAll id := by
  have hreplay : (replayInterruptedOperations ⟨some maxBytes⟩).Wp (handle env) t _ :=
    wp_replay_ids maxBytes
  obtain ⟨res, hres, hids⟩ := wp_iff.mp hreplay
  constructor
  · rintro ⟨res', hres', hid⟩
    rw [hres] at hres'
    cases hres'
    exact (hids id).mp hid
  · exact fun h => ⟨res, hres, (hids id).mpr h⟩

/-- An unfinished operation is recovered if anything of it can be read. -/
theorem recovers_iff_read {n : Nat} {id : String} (hn : n ≤ calls.length)
    (h : Unfinished (calls.take n) id) :
    Recovers env maxBytes (crashed env maxBytes w calls n) id ↔
      ∃ r ∈ (crashed env maxBytes w calls n).journal.readAll, r.opId = id := by
  rw [recovers_iff_interrupted]
  refine and_iff_left fun r hr hid => ?_
  obtain ⟨a, ha, hopId, hphase⟩ := read_of_appended n hn r hr
  rw [hphase]
  exact h.2 a ha (hopId.symm.trans hid)

/-- An operation unfinished after an append was so before, or the append was its own. -/
theorem Unfinished.before {done : List JournalCall} {a : JournalCall} {id : String}
    (h : Unfinished (done ++ [a]) id) : Unfinished done id ∨ id = a.opId := by
  obtain ⟨⟨b, hb, hid, hphase⟩, hno⟩ := h
  rcases List.mem_append.mp hb with hb | hb
  · exact .inl ⟨⟨b, hb, hid, hphase⟩, fun c hc => hno c (List.mem_append_left _ hc)⟩
  · rw [List.mem_singleton.mp hb] at hid
    exact .inr hid.symm

/-- Another operation's append leaves it unfinished. -/
theorem Unfinished.after {done : List JournalCall} {a : JournalCall} {id : String}
    (h : Unfinished done id) (hne : id ≠ a.opId) : Unfinished (done ++ [a]) id := by
  obtain ⟨⟨b, hb, hid, hphase⟩, hno⟩ := h
  refine ⟨⟨b, List.mem_append_left _ hb, hid, hphase⟩, fun c hc hid' => ?_⟩
  rcases List.mem_append.mp hc with hc | hc
  · exact hno c hc hid'
  · rw [List.mem_singleton.mp hc] at hid'
    exact absurd hid'.symm hne

/-- No append rotates while another operation is unfinished. -/
def RotatesClear (env : Env) (maxBytes : Nat) (w : World) (calls : List JournalCall) : Prop :=
  ∀ n a, calls[n]? = some a → RotatesNext env maxBytes (crashed env maxBytes w calls n) →
    ∀ id, Unfinished (calls.take n) id → id = a.opId

/-- Then a record of each unfinished operation stays in the active file. -/
theorem read_of_rotatesClear (hclear : RotatesClear env maxBytes w calls) : ∀ (n : Nat),
    n ≤ calls.length → ∀ id, Unfinished (calls.take n) id →
      ∃ r ∈ (crashed env maxBytes w calls n).journal.readAll, r.opId = id
  | 0, _, id, h => by
    obtain ⟨⟨a, ha, -⟩, -⟩ := h
    simp at ha
  | n + 1, hn, id, h => by
    obtain ⟨a, ha⟩ : ∃ a, calls[n]? = some a := ⟨_, List.getElem?_eq_getElem hn⟩
    rw [take_succ_of_getElem? ha] at h
    rw [crashed_succ ha]
    by_cases hrot : RotatesNext env maxBytes (crashed env maxBytes w calls n)
    · -- the new file holds the appended record alone
      rw [readAll_op_rotated a hrot]
      have hid : id = a.opId := h.before.elim (hclear n a ha hrot id) fun hid => hid
      exact ⟨_, List.mem_singleton_self _, hid.symm⟩
    · rw [readAll_op_kept a hrot]
      rcases h.before with h | hid
      · obtain ⟨r, hr, hrid⟩ := read_of_rotatesClear hclear n (by omega) id h
        exact ⟨r, List.mem_append_left _ hr, hrid⟩
      · exact ⟨_, List.mem_append_right _ (List.mem_singleton_self _), hid.symm⟩

end Rotation

/-- For every interleaving of appends and every bound: a crash after any append
leaves every unfinished operation to the replay, exactly when each append that
rotates finds no unfinished operation but its own. -/
theorem rotation_hides_iff (env : Env) (maxBytes : Nat) (w : World) (calls : List JournalCall) :
    (∀ n ≤ calls.length, ∀ id, Unfinished (calls.take n) id →
        Recovers env maxBytes (crashed env maxBytes w calls n) id) ↔
      RotatesClear env maxBytes w calls := by
  constructor
  · intro hall n a ha hrot id h
    by_contra hne
    have hn : n < calls.length := (List.getElem?_eq_some_iff.mp ha).1
    have hafter : Unfinished (calls.take (n + 1)) id := by
      rw [take_succ_of_getElem? ha]
      exact h.after hne
    -- the append has just dropped every record but its own
    obtain ⟨r, hr, hrid⟩ := (recovers_iff_read hn hafter).mp (hall (n + 1) hn id hafter)
    rw [crashed_succ ha, readAll_op_rotated a hrot, List.mem_singleton] at hr
    rw [hr] at hrid
    exact hne hrid.symm
  · intro hclear n hn id h
    exact (recovers_iff_read hn h).mpr (read_of_rotatesClear hclear n hn id h)

/-! ## An operation that is lost -/

/-- Another candidate starts when the first has placed its file. -/
def lostCalls : List JournalCall :=
  let a := sampleCandidate "ID-1" ["staging", "x"]
  let b := sampleCandidate "ID-2" ["staging", "y"]
  let placed : Path := ["lib", "pending", "2024", "01", "IMG.JPG"]
  [⟨a, "1a", .ingestStarted, none, none⟩, ⟨a, "1a", .hashCompleted, none, some shaA⟩,
    ⟨a, "1a", .storageCommitted, some placed, some shaA⟩, ⟨b, "2b", .ingestStarted, none, none⟩]

theorem rotation_loses : ¬ ∀ n ≤ lostCalls.length, ∀ id, Unfinished (lostCalls.take n) id →
    Recovers sampleEnv 600 (crashed sampleEnv 600 (sampleWorld [] Registry.empty) lostCalls n)
      id := by
  intro hall
  have hopen : Unfinished (lostCalls.take 4) "alice:ID-1:1a" := by
    unfold Unfinished; decide +kernel
  obtain ⟨res, hres, hid⟩ := hall 4 (by decide) _ hopen
  have hreplay : ((replayInterruptedOperations ⟨some 600⟩).run (handle sampleEnv)
      (crashed sampleEnv 600 (sampleWorld [] Registry.empty) lostCalls 4)).1 =
      .ok ⟨1, 0, 0, ["alice:ID-2:2b"]⟩ := by decide +kernel
  rw [hreplay] at hres
  cases hres
  exact absurd hid (by decide)

end Nightfall
