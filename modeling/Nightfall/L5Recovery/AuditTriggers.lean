import Nightfall.L2Registry.Schema

/-!
# The triggers of the audit log over calls and crashes

A run is a list of calls of `initialize`, `append_audit_event` and
`prune_auth_failure_audit_backlog`, each finished or killed after some of its
operations. `committedStates` is every database another process may open on the
way.

A prune drops the triggers inside its transaction and restores them with
`executescript`, which commits first: the rebuilt table is committed without
them. `protected_iff`: that commit is the only way to lose them.
-/
namespace Nightfall.Schema
open Nightfall.Core Nightfall.Core.Sql

inductive RegistryCall where
  | initializeRegistry
  | appendAuditEvent (sha : Option String) (action : AuditAction) (reason : Option String)
      (actor : String) (accountName : Option String) (now : String)
  | pruneAuthFailureAuditBacklog (keepLatest : Int)

def RegistryCall.flow : RegistryCall → DbFlow Unit
  | .initializeRegistry => Schema.initializeRegistry
  | .appendAuditEvent sha action reason actor accountName now =>
    Schema.appendAuditEvent sha action reason actor accountName now
  | .pruneAuthFailureAuditBacklog keepLatest => do
    let _ ← Schema.pruneAuthFailureAuditBacklog keepLatest

/-- A call that ends, or that dies after its first `n` operations. -/
structure Attempt where
  call : RegistryCall
  crashAfter : Option Nat

def Attempt.events (a : Attempt) (d : Db) : List (Event (SqlOps Db Stmt DbError) (Conn Db)) :=
  match a.crashAfter with
  | none => a.call.flow.trace handle (.idle d)
  | some n => a.call.flow.executed handle n (.idle d)

/-- The databases the attempt commits, in order. -/
def Attempt.commits (a : Attempt) (d : Db) : List Db := (a.events d).map (·.post.committed)

/-- The database the next call opens. -/
def Attempt.leaves (a : Attempt) (d : Db) : Db := (a.commits d).getLast?.getD d

def leavesAll : Db → List Attempt → Db
  | d, [] => d
  | d, a :: as => leavesAll (a.leaves d) as

/-- Every committed database of a run. -/
def committedStates : Db → List Attempt → List Db
  | d, [] => [d]
  | d, a :: as => d :: (a.commits d ++ committedStates (a.leaves d) as)

/-- `audit_log` exists and has both its triggers. -/
def Protected (d : Db) : Prop := ∃ t, d.auditLog = some t ∧ t.noUpdate ∧ t.noDelete

instance (d : Db) : Decidable (Protected d) :=
  match h : d.auditLog with
  | none => .isFalse (by simp [Protected, h])
  | some t => decidable_of_iff (t.noUpdate ∧ t.noDelete) (by simp [Protected, h])

/-! ## Calls that keep the triggers -/

/-- Only the statements of a prune's rebuild touch a trigger. -/
def KeepsTriggers : SqlOp Stmt → Prop
  | .execute .dropNoUpdate => False
  | .execute .dropNoDelete => False
  | .execute .dropAuditLog => False
  | .execute .renameAuditLogRebuilt => False
  | _ => True

theorem keeps_protected {o : SqlOp Stmt} (ho : KeepsTriggers o) : Sql.Keeps exec Protected o := by
  cases o with
  | execute s =>
    intro d d' hd hprot
    cases hs : s.onAuditLog with
    | false =>
      rw [Protected, auditLog_exec hs hd]
      exact hprot
    | true =>
      obtain ⟨t, ht, hu, hdel⟩ := hprot
      cases s <;> simp only [exec, ht, KeepsTriggers] at hd ho <;> grind [Protected, Stmt.onAuditLog]
  | _ => trivial

theorem calls_runMigrations : runMigrations.Calls KeepsTriggers := by
  refine (calls_view trivial).bind fun d => .ite .err (.ite ?_ (.ite .err .ret))
  have hscript : ∀ s ∈ schemaV2Sql, KeepsTriggers (.execute s) := by
    simp [schemaV2Sql, KeepsTriggers]
  refine (calls_executescript _ trivial hscript).bind fun _ => ?_
  refine Prog.Calls.bind (calls_execute ?_) fun _ => Sql.calls_commit trivial
  trivial

theorem calls_ensureExternalHashCacheH1Schema :
    ensureExternalHashCacheH1Schema.Calls KeepsTriggers := by
  refine (calls_view trivial).bind fun d => ?_
  have hindex : (execute Stmt.createHashImportIndex : DbFlow Unit).Calls KeepsTriggers :=
    calls_execute (s := Stmt.createHashImportIndex) trivial
  have hscript : ∀ s ∈ h1Script, KeepsTriggers (.execute s) := by
    simp [h1Script, KeepsTriggers]
  cases d.externalHashCache with
  | none => exact .ret
  | some t =>
    refine .ite ((calls_begin trivial).bind fun _ => ?_) hindex
    exact (calls_executescript _ trivial hscript).bind fun _ => hindex

theorem calls_initializeRegistry : initializeRegistry.Calls KeepsTriggers := by
  have hscript : ∀ s ∈ optionalTables, KeepsTriggers (.execute s) := by
    simp [optionalTables, KeepsTriggers]
  refine calls_connected trivial trivial (calls_runMigrations.bind fun _ => ?_)
  refine (calls_executescript _ trivial hscript).bind fun _ => ?_
  exact calls_ensureExternalHashCacheH1Schema.bind fun _ => Sql.calls_commit trivial

theorem calls_appendAuditEvent (sha : Option String) (action : AuditAction)
    (reason : Option String) (actor : String) (accountName : Option String) (now : String) :
    (appendAuditEvent sha action reason actor accountName now).Calls KeepsTriggers := by
  refine calls_connected trivial trivial ((calls_begin trivial).bind fun _ => ?_)
  refine Prog.Calls.bind (calls_execute ?_) fun _ => Sql.calls_commit trivial
  trivial

/-- Neither `initialize` nor `append_audit_event` commits an unprotected log. -/
theorem commits_protected {p : DbFlow Unit} (hp : p.Calls KeepsTriggers) {d : Db}
    (hd : Protected d) : ∀ e ∈ p.trace handle (.idle d), Protected e.post.committed :=
  committed_inv (hp.imp fun _ => keeps_protected) (holds_idle hd)

/-! ## Prunes -/

/-- The prune has rows to remove and can create the table it rebuilds into. -/
def Rebuilds (keepLatest : Int) (d : Db) : Prop :=
  0 ≤ keepLatest ∧ d.auditLogRebuilt = none ∧
    ∃ t, d.auditLog = some t ∧ keepLatest.toNat < authFailures t.rows

/-- The rebuilt table, which no trigger guards yet. -/
def rebuilt (t : AuditTable) (keepLatest : Int) : AuditTable :=
  let rows := Registry.retainedAudit t.rows keepLatest.toNat
  ⟨rows, (rows.getLast?.map (·.id)).getD 0, false, false⟩

def pruneCommits (d : Db) (u : AuditTable) : List Db :=
  List.replicate 8 d ++
    [{ d with auditLog := some u }, { d with auditLog := some { u with noUpdate := true } }] ++
    List.replicate 3 { d with auditLog := some { u with noUpdate := true, noDelete := true } }

theorem commits_prune_of_rebuilds {keep : Int} {d : Db} {t : AuditTable} (hkeep : 0 ≤ keep)
    (hnone : d.auditLogRebuilt = none) (ht : d.auditLog = some t)
    (hlt : keep.toNat < authFailures t.rows) :
    ((RegistryCall.pruneAuthFailureAuditBacklog keep).flow.trace handle (.idle d)).map
      (·.post.committed) = pruneCommits d (rebuilt t keep) := by
  have h0 : ¬ keep < 0 := by omega
  have hcount : authFailures t.rows - keep.toNat ≠ 0 := by omega
  obtain ⟨v, tables, audit, reb, cache, h1⟩ := d
  simp only at hnone ht
  subst hnone ht
  simp [RegistryCall.flow, pruneAuthFailureAuditBacklog, h0, hcount, connected, begin, view,
    executeAll, execute, ensureAuditLogTriggers, executescript, commit, Prog.tryCatch, Prog.trace,
    handle, sqlHandle, exec, Conn.idle, Conn.view, Conn.write, pruneCommits, rebuilt, AuditTable.new,
    Prog.op_bind]

theorem not_protected_rebuilt (d : Db) (t : AuditTable) (keep : Int) :
    ¬ Protected { d with auditLog := some (rebuilt t keep) } := by
  simp [Protected, rebuilt]

/-- A prune that rebuilds nothing commits nothing new. -/
theorem commits_prune_of_not_rebuilds {keep : Int} {d : Db} (hprot : Protected d)
    (hno : ¬ Rebuilds keep d) :
    ∀ e ∈ (RegistryCall.pruneAuthFailureAuditBacklog keep).flow.trace handle (.idle d),
      e.post.committed = d := by
  obtain ⟨t, ht, -⟩ := hprot
  obtain ⟨v, tables, audit, reb, cache, h1⟩ := d
  simp only at ht
  subst ht
  by_cases h0 : keep < 0
  · simp [RegistryCall.flow, pruneAuthFailureAuditBacklog, h0, Prog.trace]
  by_cases hcount : authFailures t.rows - keep.toNat = 0
  · simp [RegistryCall.flow, pruneAuthFailureAuditBacklog, h0, hcount, connected, begin, view, commit,
      Prog.tryCatch, Prog.trace, handle, sqlHandle, Conn.idle, Conn.view]
  cases reb with
  | none =>
    have hlt : keep.toNat < authFailures t.rows := by omega
    exact absurd ⟨by omega, rfl, t, rfl, hlt⟩ hno
  | some u =>
    simp [RegistryCall.flow, pruneAuthFailureAuditBacklog, h0, hcount, connected, begin, view,
      executeAll, execute, rollback, Prog.tryCatch, Prog.trace, handle, sqlHandle, exec, Conn.idle,
      Conn.view]

/-! ## The prune as one transaction -/

/-- The database holds the registry's audit log. -/
def Shows (d : Db) (r : Registry) : Prop :=
  ∃ t, d.auditLog = some t ∧ t.rows = r.auditLog ∧ t.seq = r.auditSeq

/-- A prune that is not interrupted is the one transaction of the registry's
model. -/
theorem prune_shows {d : Db} {r r' : Registry} {keep : Int} (hd : Shows d r)
    (hnone : d.auditLogRebuilt = none) (hr : r.pruneAuthFailureAuditBacklog keep = .ok r') :
    ∃ n d', (pruneAuthFailureAuditBacklog keep).run handle (.idle d) = (.ok n, .idle d') ∧
      Shows d' r' := by
  obtain ⟨v, tables, audit, reb, cache, h1⟩ := d
  obtain ⟨t, ht, hrows, hseq⟩ := hd
  simp only at ht hnone
  subst ht hnone
  by_cases h0 : keep < 0
  · simp [Registry.pruneAuthFailureAuditBacklog, h0] at hr
  rw [Registry.pruneAuthFailureAuditBacklog, if_neg h0, ← hrows] at hr
  dsimp only at hr
  by_cases hcount : authFailures t.rows - keep.toNat = 0
  · rw [if_pos (by exact hcount), Except.ok.injEq] at hr
    subst hr
    refine ⟨0, ⟨v, tables, some t, none, cache, h1⟩, ?_, t, rfl, hrows, hseq⟩
    simp [pruneAuthFailureAuditBacklog, h0, hcount, connected, begin, view, commit,
      Prog.tryCatch, handle, sqlHandle, Conn.idle, Conn.view]
  · rw [if_neg (by exact hcount), Except.ok.injEq] at hr
    subst hr
    refine ⟨authFailures t.rows - keep.toNat, ⟨v, tables, some { rebuilt t keep with
      noUpdate := true, noDelete := true }, none, cache, h1⟩, ?_, _, rfl, rfl, rfl⟩
    simp [pruneAuthFailureAuditBacklog, h0, hcount, connected, begin, view, executeAll,
      execute, ensureAuditLogTriggers, executescript, commit, Prog.tryCatch, handle,
      sqlHandle, exec, Conn.idle, Conn.view, Conn.write, rebuilt, AuditTable.new]

/-! ## Runs -/

/-- The attempt is no prune that gets past the commit of its rebuilt table. -/
def Attempt.Spares (a : Attempt) (d : Db) : Prop :=
  ∀ keep, a.call = .pruneAuthFailureAuditBacklog keep → Rebuilds keep d →
    ∃ n, a.crashAfter = some n ∧ n ≤ 8

def AllSpare : Db → List Attempt → Prop
  | _, [] => True
  | d, a :: as => a.Spares d ∧ AllSpare (a.leaves d) as

theorem commits_sub {a : Attempt} {d d' : Db} (h : d' ∈ a.commits d) :
    ∃ e ∈ a.call.flow.trace handle (.idle d), e.post.committed = d' := by
  obtain ⟨e, he, rfl⟩ := List.mem_map.mp h
  refine ⟨e, ?_, rfl⟩
  unfold Attempt.events at he
  split at he
  · exact he
  · exact List.mem_of_mem_take he

/-- Before its script commits, a rebuilding prune has committed nothing; after
it, the unguarded table. -/
theorem commits_protected_iff_of_rebuilds {keep : Int} {crashAfter : Option Nat} {d : Db}
    (hd : Protected d) (hre : Rebuilds keep d) :
    (∀ d' ∈ Attempt.commits ⟨.pruneAuthFailureAuditBacklog keep, crashAfter⟩ d, Protected d') ↔
      Attempt.Spares ⟨.pruneAuthFailureAuditBacklog keep, crashAfter⟩ d := by
  obtain ⟨hkeep, hnone, t, ht, hlt⟩ := hre
  have hcommits := commits_prune_of_rebuilds hkeep hnone ht hlt
  have hspares : Attempt.Spares ⟨.pruneAuthFailureAuditBacklog keep, crashAfter⟩ d ↔
      ∃ n, crashAfter = some n ∧ n ≤ 8 :=
    ⟨fun h => h keep rfl ⟨hkeep, hnone, t, ht, hlt⟩, fun h _ _ _ => h⟩
  rw [hspares]
  cases crashAfter with
  | none =>
    refine iff_of_false (fun h => not_protected_rebuilt d t keep (h _ ?_)) (by simp)
    simp only [Attempt.commits, Attempt.events, hcommits]
    exact List.mem_append_left _ (List.mem_append_right _ List.mem_cons_self)
  | some n =>
    simp only [Attempt.commits, Attempt.events, Prog.executed, List.map_take, hcommits]
    constructor
    · intro h
      by_contra hn
      have hlate : 8 < n := by
        by_contra hle
        exact hn ⟨n, rfl, by omega⟩
      refine not_protected_rebuilt d t keep (h _ ?_)
      refine List.mem_iff_getElem?.mpr ⟨8, ?_⟩
      rw [List.getElem?_take_of_lt hlate]
      rfl
    · rintro ⟨m, hm, hle⟩ d' hd'
      cases hm
      have hfirst : (pruneCommits d (rebuilt t keep)).take n = List.replicate n d := by
        rw [pruneCommits, List.append_assoc, List.take_append_of_le_length (by simpa using hle),
          List.take_replicate, Nat.min_eq_left hle]
      rw [hfirst] at hd'
      exact List.eq_of_mem_replicate hd' ▸ hd

/-- One attempt commits protected databases only, if and only if it spares the
triggers. -/
theorem commits_protected_iff {a : Attempt} {d : Db} (hd : Protected d) :
    (∀ d' ∈ a.commits d, Protected d') ↔ a.Spares d := by
  obtain ⟨call, crashAfter⟩ := a
  cases call with
  | initializeRegistry =>
    refine iff_of_true (fun d' hd' => ?_) fun keep h => by cases h
    obtain ⟨e, he, rfl⟩ := commits_sub hd'
    exact commits_protected calls_initializeRegistry hd e he
  | appendAuditEvent sha action reason actor accountName now =>
    refine iff_of_true (fun d' hd' => ?_) fun keep h => by cases h
    obtain ⟨e, he, rfl⟩ := commits_sub hd'
    exact commits_protected (calls_appendAuditEvent ..) hd e he
  | pruneAuthFailureAuditBacklog keep =>
    by_cases hre : Rebuilds keep d
    · exact commits_protected_iff_of_rebuilds hd hre
    · refine iff_of_true (fun d' hd' => ?_) fun keep' h hre' => by cases h; exact absurd hre' hre
      obtain ⟨e, he, rfl⟩ := commits_sub hd'
      rw [commits_prune_of_not_rebuilds hd hre e he]
      exact hd

theorem leaves_mem {a : Attempt} {d : Db} : a.leaves d ∈ d :: a.commits d := by
  unfold Attempt.leaves
  cases h : (a.commits d).getLast? with
  | none => exact List.mem_cons_self
  | some d' => exact List.mem_cons_of_mem _ (List.mem_of_getLast? h)

/-- Every committed database of a run is protected if and only if the first one
is and no prune of the run that rebuilds gets past its script's commit. -/
theorem protected_iff (d : Db) (as : List Attempt) :
    (∀ d' ∈ committedStates d as, Protected d') ↔ Protected d ∧ AllSpare d as := by
  induction as generalizing d with
  | nil => simp [committedStates, AllSpare]
  | cons a as ih =>
    simp only [committedStates, List.forall_mem_cons, List.forall_mem_append, ih, AllSpare]
    constructor
    · rintro ⟨hd, hcommits, hleaves, has⟩
      exact ⟨hd, (commits_protected_iff hd).mp hcommits, has⟩
    · rintro ⟨hd, hspares, has⟩
      have hcommits := (commits_protected_iff hd).mpr hspares
      exact ⟨hd, hcommits, (List.forall_mem_cons.mpr ⟨hd, hcommits⟩) _ leaves_mem, has⟩

/-- A file with no database in it. -/
def Db.fresh : Db := ⟨0, [], none, none, none, none⟩

/-- A registry with one `auth_failure` row. -/
def withAuthFailure : Db :=
  leavesAll .fresh [⟨.initializeRegistry, none⟩,
    ⟨.appendAuditEvent none .authFailure (some "missing_token") "api" none "t1", none⟩]

/-- A prune killed at its script's commit: the log is unguarded, and `initialize`
never restores the triggers. -/
theorem pruned_unprotected :
    Protected withAuthFailure ∧
      ¬ (∀ d' ∈ committedStates withAuthFailure
        [⟨.pruneAuthFailureAuditBacklog 0, some 9⟩, ⟨.initializeRegistry, none⟩], Protected d') ∧
      ¬ Protected (leavesAll withAuthFailure
        [⟨.pruneAuthFailureAuditBacklog 0, some 9⟩, ⟨.initializeRegistry, none⟩]) := by
  decide +kernel

end Nightfall.Schema
