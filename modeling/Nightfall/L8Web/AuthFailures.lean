import Nightfall.Core.Table
import Mathlib.Data.List.Perm.Subperm

/-!
# Audited auth failures (`api/auth.py`)

A failed request is written to the audit log unless one with the same key was written in
the last minute. The table of keys drops the expired ones when it is full, and takes the
new key whether it still is or not.

* `writeAuthFailureAudit`: one failed request; the clock, the connection and the success
  of the insertion are part of the request.
* `audited_spaced`: rows with the same key are a minute apart, for every run.
* `size_step_iff`: exactly when a request keeps the table within its bound.
* `authFailures_bounded_iff`: the same for a whole run.
-/
namespace Nightfall.Web
open Nightfall.Core

structure AuthFailureKey where
  clientIp : String
  method : String
  path : String
  statusCode : Int
  detail : String
  deriving DecidableEq, Repr

/-- A failed request. -/
structure AuthFailure where
  /-- `request.client.host` -/
  client : Option String
  method : String
  path : String
  statusCode : Int
  detail : String
  /-- `monotonic()` in nanoseconds -/
  now : Int
  /-- `registry_conn` is there -/
  connected : Bool
  /-- the row is inserted and committed -/
  stored : Bool
  deriving DecidableEq, Repr

abbrev RateLimit := Table AuthFailureKey Int

/-- `_AUTH_FAILURE_AUDIT_WINDOW_SECONDS`. -/
def auditWindow : Int := 60 * 1000000000

/-- `_AUTH_FAILURE_AUDIT_MAX_KEYS`. -/
def auditMaxKeys : Nat := 1024

/-- mirrors api/auth.py:25-28 -/
def normalizeAuthFailurePath (path : String) : String :=
  if "/api/v1/thumbnails/".toList.isPrefixOf path.toList then "/api/v1/thumbnails/{sha256}"
  else path

def AuthFailure.key (f : AuthFailure) : AuthFailureKey :=
  ⟨f.client.getD "unknown", f.method, normalizeAuthFailurePath f.path, f.statusCode, f.detail⟩

/-- `now - last_seen >= _AUTH_FAILURE_AUDIT_WINDOW_SECONDS`. -/
def isExpired (table : RateLimit) (now : Int) (key : AuthFailureKey) : Bool :=
  (table.get key).any fun lastSeen => auditWindow ≤ now - lastSeen

def dropExpired (table : RateLimit) (now : Int) : RateLimit :=
  (table.keys.filter (isExpired table now)).foldl (fun table key => table.drop key) table

/-- Whether to audit, and the table; `none` before the first failure.
mirrors api/auth.py:31-69 -/
def shouldAuditAuthFailure (f : AuthFailure) (state : Option RateLimit) :
    Bool × Option RateLimit :=
  let table := state.getD ∅
  let table := if auditMaxKeys ≤ table.keys.length then dropExpired table f.now else table
  match table.get f.key with
  | some lastSeen =>
    if f.now - lastSeen < auditWindow then (false, some table)
    else (true, some (table.put f.key f.now))
  | none => (true, some (table.put f.key f.now))

/-- Whether a row is written, and the table.
mirrors api/auth.py:72-117 -/
def writeAuthFailureAudit (f : AuthFailure) (state : Option RateLimit) :
    Bool × Option RateLimit :=
  if !f.connected then (false, state)
  else
    let (audit, state) := shouldAuditAuthFailure f state
    (audit && f.stored, state)

/-! ## Runs -/

/-- Each failed request with the state it meets. -/
def failureSteps : List AuthFailure → Option RateLimit → List (Option RateLimit × AuthFailure)
  | [], _ => []
  | f :: fs, state => (state, f) :: failureSteps fs (writeAuthFailureAudit f state).2

/-- The states behind the requests. -/
def failureStates : List AuthFailure → Option RateLimit → List (Option RateLimit)
  | [], _ => []
  | f :: fs, state =>
    (writeAuthFailureAudit f state).2 :: failureStates fs (writeAuthFailureAudit f state).2

/-- The requests with a row. -/
def auditedFailures : List AuthFailure → Option RateLimit → List AuthFailure
  | [], _ => []
  | f :: fs, state =>
    let rest := auditedFailures fs (writeAuthFailureAudit f state).2
    if (writeAuthFailureAudit f state).1 then f :: rest else rest

/-- The number of keys. -/
def tableSize (state : Option RateLimit) : Nat := (state.getD ∅).keys.length

/-- The number of keys seen within the last minute. -/
def youngKeys (state : Option RateLimit) (now : Int) : Nat :=
  ((state.getD ∅).keys.filter fun key => !isExpired (state.getD ∅) now key).length

/-- The key is in the table, or fewer keys than the bound are young. -/
def HasRoom (state : Option RateLimit) (f : AuthFailure) : Prop :=
  f.connected = true → f.key ∈ (state.getD ∅).keys ∨ youngKeys state f.now < auditMaxKeys

/-! ## Dropping -/

section Dropping
variable {table : RateLimit} {now : Int} {key : AuthFailureKey}

theorem get_foldl_drop : ∀ (keys : List AuthFailureKey) (table : RateLimit),
    (keys.foldl (fun table key => table.drop key) table).get key =
      if key ∈ keys then none else table.get key
  | [], _ => by simp
  | k :: keys, table => by
    rw [List.foldl_cons, get_foldl_drop keys, Table.get_drop]
    by_cases hkeys : key ∈ keys
    · simp [hkeys]
    · by_cases hk : key = k <;> simp [hkeys, hk]

theorem isExpired_iff : isExpired table now key = true ↔
    ∃ lastSeen, table.get key = some lastSeen ∧ auditWindow ≤ now - lastSeen := by
  simp [isExpired, Option.any_eq_true]

theorem get_dropExpired : (dropExpired table now).get key =
    if isExpired table now key = true then none else table.get key := by
  rw [dropExpired, get_foldl_drop]
  by_cases hexpired : isExpired table now key = true
  · obtain ⟨lastSeen, hget, _⟩ := isExpired_iff.mp hexpired
    have hmem : key ∈ table.keys := (Table.mem_keys_iff table key).mpr ⟨lastSeen, hget⟩
    simp [hmem, hexpired]
  · simp [hexpired]

theorem mem_keys_dropExpired : key ∈ (dropExpired table now).keys ↔
    key ∈ table.keys ∧ isExpired table now key = false := by
  rw [Table.mem_keys_iff, get_dropExpired, Table.mem_keys_iff]
  by_cases hexpired : isExpired table now key = true <;> simp [hexpired]

/-- The keys that stay are the young ones. -/
theorem length_dropExpired : (dropExpired table now).keys.length =
    (table.keys.filter fun key => !isExpired table now key).length := by
  have hnodup : (dropExpired table now).keys.Nodup := (dropExpired table now).nodupKeys
  have htable : table.keys.Nodup := table.nodupKeys
  refine ((List.perm_ext_iff_of_nodup hnodup (htable.filter _)).mpr fun key => ?_).length_eq
  rw [mem_keys_dropExpired, List.mem_filter, Bool.not_eq_true']

theorem length_put (value : Int) : (table.put key value).keys.length =
    if key ∈ table.keys then table.keys.length else table.keys.length + 1 := by
  rw [Table.put, AList.keys_insert, List.length_cons]
  split
  · next hmem =>
    have hpos : 0 < table.keys.length := List.length_pos_of_mem hmem
    rw [List.length_erase_of_mem hmem]
    omega
  · next hmem => rw [List.erase_of_not_mem hmem]

end Dropping

/-! ## One request -/

/-- The table the key is looked up in. -/
def lookupTable (state : Option RateLimit) (now : Int) : RateLimit :=
  if auditMaxKeys ≤ (state.getD ∅).keys.length then dropExpired (state.getD ∅) now
  else state.getD ∅

/-- The table is looked up, and takes the key unless its entry is young. -/
theorem shouldAudit_cases (f : AuthFailure) (state : Option RateLimit) :
    ((∃ lastSeen, (lookupTable state f.now).get f.key = some lastSeen ∧
          f.now - lastSeen < auditWindow) ∧
        shouldAuditAuthFailure f state = (false, some (lookupTable state f.now))) ∨
      (∀ lastSeen, (lookupTable state f.now).get f.key = some lastSeen →
          auditWindow ≤ f.now - lastSeen) ∧
        shouldAuditAuthFailure f state =
          (true, some ((lookupTable state f.now).put f.key f.now)) := by
  unfold shouldAuditAuthFailure
  dsimp only
  rw [← lookupTable]
  cases hget : (lookupTable state f.now).get f.key with
  | none => exact .inr ⟨by simp, rfl⟩
  | some lastSeen =>
    by_cases hyoung : f.now - lastSeen < auditWindow
    · exact .inl ⟨⟨lastSeen, rfl, hyoung⟩, by simp [hyoung]⟩
    · refine .inr ⟨fun last hlast => ?_, by simp [hyoung]⟩
      cases hlast
      exact Int.not_lt.mp hyoung

/-- The new table has the keys of the one that was looked up, and the new key. -/
theorem tableSize_shouldAudit (f : AuthFailure) (state : Option RateLimit) :
    tableSize (shouldAuditAuthFailure f state).2 =
      if f.key ∈ (lookupTable state f.now).keys then (lookupTable state f.now).keys.length
      else (lookupTable state f.now).keys.length + 1 := by
  rcases shouldAudit_cases f state with ⟨⟨lastSeen, hget, _⟩, h⟩ | ⟨_, h⟩
  · have hmem := (Table.mem_keys_iff _ f.key).mpr ⟨lastSeen, hget⟩
    rw [h, if_pos hmem]
    rfl
  · rw [h]
    exact length_put f.now

theorem youngKeys_le (state : Option RateLimit) (now : Int) :
    youngKeys state now ≤ tableSize state :=
  List.length_filter_le _ _

/-- A request keeps a table within its bound exactly when it has room. -/
theorem size_step_iff {state : Option RateLimit} {f : AuthFailure}
    (hsize : tableSize state ≤ auditMaxKeys) :
    tableSize (writeAuthFailureAudit f state).2 ≤ auditMaxKeys ↔ HasRoom state f := by
  unfold writeAuthFailureAudit HasRoom
  by_cases hconnected : f.connected = true
  · simp only [hconnected, Bool.not_true, Bool.false_eq_true, if_false, forall_const]
    rw [tableSize_shouldAudit]
    by_cases hfull : auditMaxKeys ≤ (state.getD ∅).keys.length
    · -- the table is full: the young keys stay
      have hlength : (lookupTable state f.now).keys.length = youngKeys state f.now := by
        rw [lookupTable, if_pos hfull, length_dropExpired]
        rfl
      have hmem : f.key ∈ (lookupTable state f.now).keys ↔
          f.key ∈ (state.getD ∅).keys ∧ isExpired (state.getD ∅) f.now f.key = false := by
        rw [lookupTable, if_pos hfull, mem_keys_dropExpired]
      have hle := youngKeys_le state f.now
      simp only [hlength, hmem]
      by_cases hkey : f.key ∈ (state.getD ∅).keys
      · cases hexpired : isExpired (state.getD ∅) f.now f.key with
        | false => simp only [hkey, and_self, if_true, true_or, iff_true]; omega
        | true =>
          -- the entry of the key itself makes room
          have hlt : youngKeys state f.now < tableSize state := by
            refine List.length_filter_lt_length_iff_exists.mpr ⟨f.key, hkey, ?_⟩
            simp [hexpired]
          simp only [hkey, Bool.true_eq_false, and_false, if_false, true_or, iff_true]
          omega
      · simp only [hkey, false_and, if_false, false_or]
        omega
    · have hlength : (lookupTable state f.now) = state.getD ∅ := by rw [lookupTable, if_neg hfull]
      have hle := youngKeys_le state f.now
      unfold tableSize at hle hsize
      rw [hlength]
      refine iff_of_true ?_ (.inr (by omega))
      split <;> omega
  · simp [hconnected, hsize]

/-- Every state of a run is within the bound exactly when every request has room. -/
theorem size_run_iff : ∀ (fs : List AuthFailure) {state : Option RateLimit},
    tableSize state ≤ auditMaxKeys →
      ((∀ s ∈ failureStates fs state, tableSize s ≤ auditMaxKeys) ↔
        ∀ step ∈ failureSteps fs state, HasRoom step.1 step.2)
  | [], _, _ => by simp [failureStates, failureSteps]
  | f :: fs, state, hsize => by
    have hstep := size_step_iff (f := f) hsize
    simp only [failureStates, failureSteps, List.forall_mem_cons]
    constructor
    · rintro ⟨hfirst, hrest⟩
      exact ⟨hstep.mp hfirst, (size_run_iff fs hfirst).mp hrest⟩
    · rintro ⟨hroom, hrest⟩
      have hfirst := hstep.mpr hroom
      exact ⟨hfirst, (size_run_iff fs hfirst).mpr hrest⟩

/-! ## Spacing -/

/-- Two rows with the same key are a minute apart. -/
def Spaced (f g : AuthFailure) : Prop := f.key = g.key → auditWindow ≤ g.now - f.now

/-- From `clock` on, a row with the key of `f` is a minute later: its entry stands in the
table, or the minute is over. -/
def Remembered (f : AuthFailure) (state : Option RateLimit) (clock : Int) : Prop :=
  (∃ lastSeen, (state.getD ∅).get f.key = some lastSeen ∧ f.now ≤ lastSeen) ∨
    auditWindow ≤ clock - f.now

theorem Remembered.lookup {f : AuthFailure} {state : Option RateLimit} {clock now : Int}
    (h : Remembered f state clock) (hclock : clock ≤ now) :
    (∃ lastSeen, (lookupTable state now).get f.key = some lastSeen ∧ f.now ≤ lastSeen) ∨
      auditWindow ≤ now - f.now := by
  rcases h with ⟨lastSeen, hget, hle⟩ | h
  · unfold lookupTable
    split
    · rw [get_dropExpired]
      by_cases hexpired : isExpired (state.getD ∅) now f.key = true
      · obtain ⟨last, hlast, hwindow⟩ := isExpired_iff.mp hexpired
        obtain rfl := Option.some.inj (hget.symm.trans hlast)
        exact .inr (by omega)
      · rw [if_neg hexpired]
        exact .inl ⟨lastSeen, hget, hle⟩
    · exact .inl ⟨lastSeen, hget, hle⟩
  · exact .inr (by omega)

/-- A later request leaves the row remembered, and is a minute later when it has a row with
the same key. -/
theorem Remembered.step {f g : AuthFailure} {state : Option RateLimit} {clock : Int}
    (h : Remembered f state clock) (hclock : clock ≤ g.now) (hfg : f.now ≤ g.now) :
    Remembered f (writeAuthFailureAudit g state).2 g.now ∧
      ((writeAuthFailureAudit g state).1 = true → Spaced f g) := by
  unfold writeAuthFailureAudit
  by_cases hconnected : g.connected = true
  · simp only [hconnected, Bool.not_true, Bool.false_eq_true, if_false]
    have hlookup := h.lookup hclock
    rcases shouldAudit_cases g state with ⟨_, hshould⟩ | ⟨hold, hshould⟩
    · rw [hshould]
      exact ⟨hlookup, by simp⟩
    · rw [hshould]
      refine ⟨?_, fun _ hkey => ?_⟩
      · by_cases hkey : f.key = g.key
        · exact .inl ⟨g.now, by rw [hkey]; exact Table.get_put_self _ _ _, hfg⟩
        · refine hlookup.imp_left fun ⟨lastSeen, hget, hle⟩ => ⟨lastSeen, ?_, hle⟩
          rw [← hget]
          exact (Table.get_put _ _ _ _).trans (if_neg hkey)
      · rcases hlookup with ⟨lastSeen, hget, hle⟩ | hover
        · have hwindow := hold lastSeen (hkey ▸ hget)
          omega
        · exact hover
  · have hno : g.connected = false := by simpa using hconnected
    simp only [hno, Bool.not_false, if_true]
    exact ⟨h.imp_right fun hover => by omega, by simp⟩

theorem spaced_of_remembered {f : AuthFailure} : ∀ (fs : List AuthFailure)
    {state : Option RateLimit} {clock : Int}, Remembered f state clock → f.now ≤ clock →
      (∀ g ∈ fs, clock ≤ g.now) → fs.Pairwise (fun g h => g.now ≤ h.now) →
      ∀ g ∈ auditedFailures fs state, Spaced f g
  | [], _, _, _, _, _, _ => by simp [auditedFailures]
  | g :: fs, state, clock, h, hclock, hlater, hmono => by
    have hg := hlater g List.mem_cons_self
    obtain ⟨hstep, hspaced⟩ := h.step hg (Int.le_trans hclock hg)
    obtain ⟨hnext, hmono⟩ := List.pairwise_cons.mp hmono
    have hrest := spaced_of_remembered fs hstep (Int.le_trans hclock hg) hnext hmono
    rw [auditedFailures]
    split
    · next haudit =>
      intro g' hg'
      rcases List.mem_cons.mp hg' with rfl | hg'
      · exact hspaced haudit
      · exact hrest g' hg'
    · exact hrest

/-- A request with a row is remembered. -/
theorem remembered_of_audited {f : AuthFailure} {state : Option RateLimit}
    (h : (writeAuthFailureAudit f state).1 = true) :
    Remembered f (writeAuthFailureAudit f state).2 f.now := by
  unfold writeAuthFailureAudit at h ⊢
  by_cases hconnected : f.connected = true
  · simp only [hconnected, Bool.not_true, Bool.false_eq_true, if_false] at h ⊢
    rcases shouldAudit_cases f state with ⟨_, hshould⟩ | ⟨_, hshould⟩
    · rw [hshould] at h
      cases h
    · rw [hshould]
      exact .inl ⟨f.now, Table.get_put_self _ _ _, (Int.le_refl _)⟩
  · simp [hconnected] at h

/-- Rows with the same key are a minute apart, in every run. -/
theorem audited_spaced : ∀ (fs : List AuthFailure) (state : Option RateLimit),
    fs.Pairwise (fun f g => f.now ≤ g.now) → (auditedFailures fs state).Pairwise Spaced
  | [], _, _ => .nil
  | f :: fs, state, hmono => by
    obtain ⟨hlater, hmono⟩ := List.pairwise_cons.mp hmono
    have hrest := audited_spaced fs (writeAuthFailureAudit f state).2 hmono
    rw [auditedFailures]
    split
    · next haudit =>
      have hspaced := spaced_of_remembered fs (remembered_of_audited haudit) (Int.le_refl _)
        hlater hmono
      exact List.pairwise_cons.mpr ⟨hspaced, hrest⟩
    · exact hrest

/-- For every run of failed requests in the order of their times, from an empty table: the
rows with one key are a minute apart and the table stays within its bound, exactly when
every request has room. -/
theorem authFailures_bounded_iff (fs : List AuthFailure)
    (hmono : fs.Pairwise fun f g => f.now ≤ g.now) :
    (auditedFailures fs none).Pairwise Spaced ∧
        (∀ s ∈ failureStates fs none, tableSize s ≤ auditMaxKeys) ↔
      ∀ step ∈ failureSteps fs none, HasRoom step.1 step.2 := by
  rw [and_iff_right (audited_spaced fs none hmono)]
  exact size_run_iff fs (Nat.zero_le _)

/-! ## A flood of fresh keys -/

/-- A failed request for `/xx…x`. -/
def knock (n : Nat) (now : Int) : AuthFailure where
  client := some "10.0.0.9"
  method := "GET"
  path := String.ofList ('/' :: List.replicate n 'x')
  statusCode := 401
  detail := "Missing bearer token"
  now
  connected := true
  stored := true

/-- Two requests a minute apart. -/
theorem two_probes_bounded :
    (auditedFailures [knock 0 0, knock 0 auditWindow] none).Pairwise Spaced ∧
        (∀ s ∈ failureStates [knock 0 0, knock 0 auditWindow] none, tableSize s ≤ auditMaxKeys) ↔
      ∀ step ∈ failureSteps [knock 0 0, knock 0 auditWindow] none, HasRoom step.1 step.2 :=
  authFailures_bounded_iff [knock 0 0, knock 0 auditWindow] (by decide)

theorem isExpired_eq_false {table : RateLimit} {now : Int} {key : AuthFailureKey}
    (h : table.get key = some now) : isExpired table now key = false := by
  simp [isExpired, h, auditWindow]

/-- A fresh key enters a table of young keys, full or not. -/
theorem fresh_key_enters {f : AuthFailure} {state : Option RateLimit}
    (hconnected : f.connected = true) (hfresh : f.key ∉ (state.getD ∅).keys)
    (hyoung : ∀ key ∈ (state.getD ∅).keys, (state.getD ∅).get key = some f.now) :
    ∃ table, (writeAuthFailureAudit f state).2 = some table ∧
      table.keys.length = tableSize state + 1 ∧
      ∀ key, table.get key = if key = f.key then some f.now else (state.getD ∅).get key := by
  have hkeep : ∀ key ∈ (state.getD ∅).keys, isExpired (state.getD ∅) f.now key = false :=
    fun key hkey => isExpired_eq_false (hyoung key hkey)
  have hget : ∀ key, (lookupTable state f.now).get key = (state.getD ∅).get key := by
    intro key
    unfold lookupTable
    split
    · rw [get_dropExpired]
      cases hexpired : isExpired (state.getD ∅) f.now key with
      | false => rfl
      | true =>
        obtain ⟨lastSeen, hlast, _⟩ := isExpired_iff.mp hexpired
        have hmem := (Table.mem_keys_iff (state.getD ∅) key).mpr ⟨lastSeen, hlast⟩
        rw [hkeep key hmem] at hexpired
        cases hexpired
    · rfl
  have hsize : (lookupTable state f.now).keys.length = tableSize state := by
    unfold lookupTable
    split
    · rw [length_dropExpired, List.filter_eq_self.mpr fun key hkey => by simp [hkeep key hkey]]
      rfl
    · rfl
  have hmem : f.key ∉ (lookupTable state f.now).keys := by
    rw [Table.mem_keys_iff, hget, ← Table.mem_keys_iff]
    exact hfresh
  have hnone : (lookupTable state f.now).get f.key = none := by
    cases h : (lookupTable state f.now).get f.key with
    | none => rfl
    | some lastSeen => exact absurd ((Table.mem_keys_iff _ _).mpr ⟨lastSeen, h⟩) hmem
  refine ⟨(lookupTable state f.now).put f.key f.now, ?_, ?_, fun key => ?_⟩
  · rcases shouldAudit_cases f state with ⟨⟨lastSeen, hlast, _⟩, _⟩ | ⟨_, hshould⟩
    · rw [hnone] at hlast
      cases hlast
    · simp [writeAuthFailureAudit, hconnected, hshould]
  · rw [length_put, if_neg hmem, hsize]
  · exact (Table.get_put _ _ _ _).trans (by rw [hget])

/-- Requests at one moment with different keys leave as many keys as there were requests. -/
theorem flood_size (now : Int) : ∀ (fs : List AuthFailure) (state : Option RateLimit), fs ≠ [] →
    (∀ f ∈ fs, f.connected = true ∧ f.now = now ∧ f.key ∉ (state.getD ∅).keys) →
    (fs.map AuthFailure.key).Nodup →
    (∀ key ∈ (state.getD ∅).keys, (state.getD ∅).get key = some now) →
    ∃ s ∈ failureStates fs state, tableSize s = tableSize state + fs.length
  | [], _, hne, _, _, _ => absurd rfl hne
  | f :: fs, state, _, hfs, hkeys, hyoung => by
    obtain ⟨hconnected, rfl, hfresh⟩ := hfs f List.mem_cons_self
    obtain ⟨table, htable, hsize, hget⟩ := fresh_key_enters hconnected hfresh hyoung
    obtain ⟨hother, hkeys⟩ := List.nodup_cons.mp hkeys
    cases hrest : fs with
    | nil =>
      refine ⟨some table, ?_, hsize⟩
      rw [failureStates, htable]
      exact List.mem_cons_self
    | cons g gs =>
      rw [← hrest]
      have hmem : ∀ key, key ∈ table.keys ↔ key = f.key ∨ key ∈ (state.getD ∅).keys := by
        intro key
        rw [Table.mem_keys_iff, hget, Table.mem_keys_iff]
        by_cases hkey : key = f.key <;> simp [hkey]
      have hfs' : ∀ g ∈ fs, g.connected = true ∧ g.now = f.now ∧
          g.key ∉ ((some table).getD ∅ : RateLimit).keys := by
        intro g hg
        obtain ⟨hg_connected, hg_now, hg_fresh⟩ := hfs g (List.mem_cons_of_mem _ hg)
        refine ⟨hg_connected, hg_now, fun h => ?_⟩
        rcases (hmem _).mp h with hkey | hkey
        · exact hother (hkey ▸ List.mem_map_of_mem hg)
        · exact hg_fresh hkey
      have hyoung' : ∀ key ∈ ((some table).getD ∅ : RateLimit).keys,
          ((some table).getD ∅ : RateLimit).get key = some f.now := by
        intro key hkey
        refine (hget key).trans ?_
        by_cases h : key = f.key
        · rw [if_pos h]
        · rw [if_neg h]
          exact hyoung key (((hmem key).mp hkey).resolve_left h)
      obtain ⟨s, hs, hlength⟩ :=
        flood_size f.now fs (some table) (by simp [hrest]) hfs' hkeys hyoung'
      refine ⟨s, ?_, ?_⟩
      · rw [failureStates, htable]
        exact List.mem_cons_of_mem _ hs
      · have htable_size : tableSize (some table) = tableSize state + 1 := hsize
        rw [hlength, htable_size, List.length_cons]
        omega

theorem knock_key_injective (now : Int) : Function.Injective fun n => (knock n now).key := by
  have hpath : ∀ n, (knock n now).key.path = String.ofList ('/' :: List.replicate n 'x') := by
    intro n
    simp [AuthFailure.key, normalizeAuthFailurePath, knock]
  intro m n h
  have hlist := congrArg String.toList (congrArg AuthFailureKey.path h)
  simp only [hpath, String.toList_ofList] at hlist
  simpa using congrArg List.length hlist

/-- A client that asks for 1025 paths at one moment leaves 1025 keys. -/
theorem flood_unbounded : ¬ ∀ fs : List AuthFailure,
    (fs.Pairwise fun f g => f.now ≤ g.now) → (auditedFailures fs none).Pairwise Spaced ∧
      ∀ s ∈ failureStates fs none, tableSize s ≤ auditMaxKeys := by
  intro h
  have hnow : ∀ f ∈ (List.range 1025).map fun n => knock n 0, f.now = 0 := by
    intro f hf
    obtain ⟨n, _, rfl⟩ := List.mem_map.mp hf
    rfl
  have hmono : ((List.range 1025).map fun n => knock n 0).Pairwise fun f g => f.now ≤ g.now :=
    List.pairwise_of_forall_mem_list fun f hf g hg => by simp [hnow f hf, hnow g hg]
  have hkeys : (((List.range 1025).map fun n => knock n 0).map AuthFailure.key).Nodup := by
    rw [List.map_map]
    exact List.nodup_range.map (knock_key_injective 0)
  have hfresh : ∀ f ∈ (List.range 1025).map fun n => knock n 0, f.connected = true ∧ f.now = 0 ∧
      f.key ∉ ((none : Option RateLimit).getD ∅).keys := by
    intro f hf
    obtain ⟨n, _, rfl⟩ := List.mem_map.mp hf
    exact ⟨rfl, rfl, List.not_mem_nil⟩
  obtain ⟨s, hs, hsize⟩ := flood_size 0 ((List.range 1025).map fun n => knock n 0) none (by simp)
    hfresh hkeys fun key hkey => absurd hkey List.not_mem_nil
  have hbound := (h _ hmono).2 s hs
  rw [hsize, List.length_map, List.length_range] at hbound
  exact absurd hbound (by decide)

end Nightfall.Web
