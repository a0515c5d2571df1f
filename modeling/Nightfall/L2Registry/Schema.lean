import Nightfall.Core.Sql
import Nightfall.L2Registry.Registry

/-!
# The schema of the registry and its migrations

`initialize`, `append_audit_event` and `prune_auth_failure_audit_backlog` of
`domain/registry.py`, statement by statement. A table that no statement here
reads is a name in `tables`; `audit_log` carries its two triggers and its
`sqlite_sequence` entry, `external_hash_cache` its partial unique index. Dropping
a table drops what it carries, renaming it keeps it.

`conn.execute` of DDL or of a `PRAGMA` opens no transaction of its own.
-/
namespace Nightfall.Schema
open Nightfall.Core Nightfall.Core.Sql

/-- `audit_log` or `audit_log_rebuilt`, its rows by id. -/
structure AuditTable where
  rows : List AuditRow
  seq : Nat
  noUpdate : Bool
  noDelete : Bool
  deriving DecidableEq, Repr

/-- The primary key of a row of `external_hash_cache`; a row without a source
path conflicts with no other. -/
def cacheKey (row : ExternalHashRow) : Option (String × String × String × String) :=
  row.sourceRelpath.map fun source => (row.accountName, source, row.hashAlgo, row.hashValue)

/-- The entry of a row in the unique index of the rows without a source path. -/
def importKey (row : ExternalHashRow) : Option (String × String × String) :=
  if row.sourceRelpath = none then some (row.accountName, row.hashAlgo, row.hashValue) else none

/-- `external_hash_cache` or `external_hash_cache__h1`, under its own
constraints. -/
structure CacheTable where
  sourceNotNull : Bool
  importIndex : Bool
  rows : List ExternalHashRow
  notNull : sourceNotNull = true → ∀ row ∈ rows, row.sourceRelpath ≠ none
  primaryKey : (rows.filterMap cacheKey).Nodup
  unique : importIndex = true → (rows.filterMap importKey).Nodup

structure Db where
  userVersion : Int
  tables : List String
  auditLog : Option AuditTable
  auditLogRebuilt : Option AuditTable
  externalHashCache : Option CacheTable
  externalHashCacheH1 : Option CacheTable

inductive DbError where
  | registry (msg : String)
  | noSuchTable
  | tableExists
  | integrity
  | nestedTransaction
  deriving DecidableEq, Repr

inductive Stmt where
  | createTable (name : String)
  | createAuditLog
  | createExternalHashCache
  | createHashImportIndex
  | createNoUpdate
  | createNoDelete
  | setUserVersion (v : Int)
  | insertAudit (sha account : Option String) (action : AuditAction) (reason : Option String)
      (actor now : String)
  | createAuditLogRebuilt
  | copyAuditLog (keepLatest : Nat)
  | dropNoUpdate
  | dropNoDelete
  | dropAuditLog
  | renameAuditLogRebuilt
  | createExternalHashCacheH1
  | copyExternalHashCache
  | dropExternalHashCache
  | renameExternalHashCacheH1

/-! ## Statements -/

def AuditTable.new : AuditTable := ⟨[], 0, false, false⟩

/-- A new table of the H1 shape. -/
def CacheTable.new : CacheTable where
  sourceNotNull := false
  importIndex := false
  rows := []
  notNull := by simp
  primaryKey := by simp
  unique := by simp

/-- `CREATE UNIQUE INDEX`, which fails on rows that violate it. -/
def CacheTable.index (t : CacheTable) : Except DbError CacheTable :=
  if h : (t.rows.filterMap importKey).Nodup then
    .ok { t with importIndex := true, unique := fun _ => h }
  else .error .integrity

/-- `INSERT INTO t SELECT ... FROM source`. -/
def CacheTable.copyFrom (t source : CacheTable) : Except DbError CacheTable :=
  if h : (t.sourceNotNull = true → ∀ row ∈ source.rows, row.sourceRelpath ≠ none) ∧
      ((t.rows ++ source.rows).filterMap cacheKey).Nodup ∧
      (t.importIndex = true → ((t.rows ++ source.rows).filterMap importKey).Nodup) then
    .ok { t with
      rows := t.rows ++ source.rows
      notNull := fun hn row hrow => (List.mem_append.mp hrow).elim (t.notNull hn row) (h.1 hn row)
      primaryKey := h.2.1
      unique := h.2.2 }
  else .error .integrity

/-- The effect of a statement on the database. -/
def exec : Stmt → Db → Except DbError Db
  | .createTable name, d =>
    .ok { d with tables := if name ∈ d.tables then d.tables else d.tables ++ [name] }
  | .createAuditLog, d => .ok { d with auditLog := d.auditLog.or (some .new) }
  | .createExternalHashCache, d =>
    .ok { d with externalHashCache := d.externalHashCache.or (some .new) }
  | .createHashImportIndex, d =>
    match d.externalHashCache with
    | none => .error .noSuchTable
    | some t =>
      if t.importIndex then .ok d
      else match t.index with
        | .ok t => .ok { d with externalHashCache := some t }
        | .error e => .error e
  | .createNoUpdate, d =>
    match d.auditLog with
    | none => .error .noSuchTable
    | some t => .ok { d with auditLog := some { t with noUpdate := true } }
  | .createNoDelete, d =>
    match d.auditLog with
    | none => .error .noSuchTable
    | some t => .ok { d with auditLog := some { t with noDelete := true } }
  | .setUserVersion v, d => .ok { d with userVersion := v }
  | .insertAudit sha account action reason actor now, d =>
    match d.auditLog with
    | none => .error .noSuchTable
    | some t => .ok { d with auditLog := some { t with
        rows := t.rows ++ [⟨t.seq + 1, sha, account, action, reason, actor, now⟩]
        seq := t.seq + 1 } }
  | .createAuditLogRebuilt, d =>
    match d.auditLogRebuilt with
    | none => .ok { d with auditLogRebuilt := some .new }
    | some _ => .error .tableExists
  | .copyAuditLog keepLatest, d =>
    match d.auditLog, d.auditLogRebuilt with
    | some t, some u =>
      let rows := Registry.retainedAudit t.rows keepLatest
      if ∀ row ∈ rows, row.id ∉ u.rows.map (·.id) then
        .ok { d with auditLogRebuilt := some { u with
          rows := u.rows ++ rows
          seq := max u.seq ((rows.getLast?.map (·.id)).getD 0) } }
      else .error .integrity
    | _, _ => .error .noSuchTable
  | .dropNoUpdate, d =>
    .ok { d with auditLog := d.auditLog.map fun t => { t with noUpdate := false } }
  | .dropNoDelete, d =>
    .ok { d with auditLog := d.auditLog.map fun t => { t with noDelete := false } }
  | .dropAuditLog, d =>
    match d.auditLog with
    | none => .error .noSuchTable
    | some _ => .ok { d with auditLog := none }
  | .renameAuditLogRebuilt, d =>
    match d.auditLogRebuilt, d.auditLog with
    | none, _ => .error .noSuchTable
    | some _, some _ => .error .tableExists
    | some u, none => .ok { d with auditLog := some u, auditLogRebuilt := none }
  | .createExternalHashCacheH1, d =>
    .ok { d with externalHashCacheH1 := d.externalHashCacheH1.or (some .new) }
  | .copyExternalHashCache, d =>
    match d.externalHashCache, d.externalHashCacheH1 with
    | some t, some u =>
      match u.copyFrom t with
      | .ok u => .ok { d with externalHashCacheH1 := some u }
      | .error e => .error e
    | _, _ => .error .noSuchTable
  | .dropExternalHashCache, d =>
    match d.externalHashCache with
    | none => .error .noSuchTable
    | some _ => .ok { d with externalHashCache := none }
  | .renameExternalHashCacheH1, d =>
    match d.externalHashCacheH1, d.externalHashCache with
    | none, _ => .error .noSuchTable
    | some _, some _ => .error .tableExists
    | some u, none => .ok { d with externalHashCache := some u, externalHashCacheH1 := none }

/-- The statements about `audit_log` itself. -/
def Stmt.onAuditLog : Stmt → Bool
  | .createAuditLog | .createNoUpdate | .createNoDelete | .insertAudit .. | .dropNoUpdate
  | .dropNoDelete | .dropAuditLog | .renameAuditLogRebuilt => true
  | _ => false

theorem auditLog_exec {s : Stmt} {d d' : Db} (hs : s.onAuditLog = false)
    (h : exec s d = .ok d') : d'.auditLog = d.auditLog := by
  cases s <;> simp only [exec] at h <;> grind [Stmt.onAuditLog]

/-- The connection of one call. -/
def handle : Handler (SqlOps Db Stmt DbError) (Conn Db) := sqlHandle exec .nestedTransaction

abbrev DbFlow (α : Type) := Flow Db Stmt DbError α

/-! ## `Registry.initialize` -/

def latestSchemaVersion : Int := 2

/-- `_schema_v2_sql`. -/
def schemaV2Sql : List Stmt :=
  [.createTable "files", .createTable "metadata_index", .createTable "accepted_records",
   .createTable "file_origins", .createAuditLog, .createTable "live_photo_pairs",
   .createExternalHashCache, .createHashImportIndex, .createNoUpdate, .createNoDelete]

/-- mirrors src/nightfall_photo_ingress/domain/registry.py:1099-1120 -/
def runMigrations : DbFlow Unit := do
  let current := (← view).userVersion
  if current > latestSchemaVersion then
    throw (.registry s!"Database schema version {current} is newer than supported {latestSchemaVersion}")
  else if current = 0 then
    executescript schemaV2Sql
    execute (.setUserVersion latestSchemaVersion)
    commit
  else if current ≠ latestSchemaVersion then
    throw (.registry ("Legacy registry schema detected. v2.0 requires a freshly bootstrapped " ++
      s!"registry.db at schema {latestSchemaVersion}; found schema {current}."))
  else return ()

/-- The script that rebuilds a table whose `source_relpath` is `NOT NULL`. -/
def h1Script : List Stmt :=
  [.createExternalHashCacheH1, .copyExternalHashCache, .dropExternalHashCache,
   .renameExternalHashCacheH1]

/-- `executescript` ends the transaction that `BEGIN IMMEDIATE` opened before its
first statement.
mirrors src/nightfall_photo_ingress/domain/registry.py:1168-1238 -/
def ensureExternalHashCacheH1Schema : DbFlow Unit := do
  match (← view).externalHashCache with
  | none => return ()
  | some t =>
    if t.sourceNotNull then
      begin
      executescript h1Script
    execute .createHashImportIndex

def optionalTables : List Stmt :=
  [.createTable "ingest_terminal_audit", .createTable "blocked_rules",
   .createTable "ui_action_idempotency"]

/-- mirrors src/nightfall_photo_ingress/domain/registry.py:1123-1165 -/
def ensureOptionalTables : DbFlow Unit := do
  executescript optionalTables
  ensureExternalHashCacheH1Schema
  commit

/-- mirrors src/nightfall_photo_ingress/domain/registry.py:97-104 -/
def initializeRegistry : DbFlow Unit :=
  connected do
    runMigrations
    ensureOptionalTables

/-! ## The audit log -/

/-- mirrors src/nightfall_photo_ingress/domain/registry.py:669-693 -/
def appendAuditEvent (sha : Option String) (action : AuditAction) (reason : Option String)
    (actor : String) (accountName : Option String) (now : String) : DbFlow Unit :=
  connected do
    begin
    execute (.insertAudit sha accountName action reason actor now)
    commit

/-- `_ensure_audit_log_triggers`. -/
def ensureAuditLogTriggers : DbFlow Unit := executescript [.createNoUpdate, .createNoDelete]

def authFailures (rows : List AuditRow) : Nat := (rows.filter (·.action == .authFailure)).length

/-- The number of rows pruned. The count fails when the table is missing.
mirrors src/nightfall_photo_ingress/domain/registry.py:119-180 -/
def pruneAuthFailureAuditBacklog (keepLatest : Int) : DbFlow Nat :=
  if keepLatest < 0 then throw (.registry "keep_latest must be >= 0")
  else connected do
    begin
    match (← view).auditLog with
    | none => throw .noSuchTable
    | some t =>
      let pruneCount := authFailures t.rows - keepLatest.toNat
      if pruneCount = 0 then
        commit
        return 0
      else
        executeAll [.createAuditLogRebuilt, .copyAuditLog keepLatest.toNat, .dropNoUpdate,
          .dropNoDelete, .dropAuditLog, .renameAuditLogRebuilt]
        ensureAuditLogTriggers
        commit
        return pruneCount

end Nightfall.Schema
