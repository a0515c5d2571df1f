import Nightfall.L2Registry.Schema
import Mathlib.Tactic.IntervalCases

/-!
# Crashes of the `external_hash_cache` migration

A table from before H1 has a `NOT NULL` source path. `initialize` rebuilds it:
create, copy, drop, rename. The `BEGIN IMMEDIATE` before the script does not
cover it, so each statement commits alone, and the next `initialize` sees

* the old table, with or without an empty new one: it migrates;
* both tables with the rows: the copy violates the primary key;
* no `external_hash_cache` at all: it returns and leaves it so;
* the renamed table: only the index is missing.
-/
namespace Nightfall.Schema
open Nightfall.Core Nightfall.Core.Sql Prog

/-- `external_hash_cache` is the table `t` from before H1. -/
structure OldCache (d : Db) (t : CacheTable) : Prop where
  version : d.userVersion = 0 ∨ d.userVersion = latestSchemaVersion
  cache : d.externalHashCache = some t
  old : t.sourceNotNull = true

/-- A registry that no migration to H1 has touched. -/
structure PreH1 (d : Db) (t : CacheTable) : Prop extends OldCache d t where
  noH1 : d.externalHashCacheH1 = none

/-- `external_hash_cache` has the H1 schema and holds `rows`. -/
structure MigratedTo (rows : List ExternalHashRow) (d : Db) : Prop where
  cache : ∃ t, d.externalHashCache = some t ∧ t.sourceNotNull = false ∧ t.importIndex = true ∧
    t.rows = rows
  noH1 : d.externalHashCacheH1 = none

/-- What a crash after `n` operations of `initialize` leaves. -/
def crashedAfter (d : Db) (n : Nat) : Db := (initializeRegistry.crash handle n (.idle d)).committed

/-- `initialize` succeeds and leaves the H1 schema with `rows`. -/
def Migrates (rows : List ExternalHashRow) (d : Db) : Prop :=
  (initializeRegistry.run handle (.idle d)).1 = .ok () ∧
    MigratedTo rows (initializeRegistry.run handle (.idle d)).2.committed

/-! ## Up to the check of the column -/

/-- The part of `initialize` before it reads `table_info(external_hash_cache)`. -/
def prepare : DbFlow Unit := do
  runMigrations
  executescript optionalTables

def migrate : DbFlow Unit := do
  ensureExternalHashCacheH1Schema
  commit

theorem initializeRegistry_eq : initializeRegistry = connected (prepare >>= fun _ => migrate) := by
  rw [prepare, Prog.bind_assoc]
  rfl

/-- The operations of `prepare`: the schema script only runs on a new file. -/
def prepareLength (d : Db) : Nat := if d.userVersion = 0 then 18 else 5

/-- What `prepare` does not touch, apart from the index on an old table. -/
structure Untouched (d d' : Db) : Prop where
  cache : d'.externalHashCache.map (fun t => (t.sourceNotNull, t.rows)) =
    d.externalHashCache.map fun t => (t.sourceNotNull, t.rows)
  h1 : d'.externalHashCacheH1 = d.externalHashCacheH1
  version : d'.userVersion = 0 ∨ d'.userVersion = latestSchemaVersion

theorem importKeys_nil {t : CacheTable} (h : t.sourceNotNull = true) :
    t.rows.filterMap importKey = [] := by
  rw [List.filterMap_eq_nil_iff]
  intro row hrow
  exact if_neg (t.notNull h row hrow)

theorem prepare_latest {d : Db} (hv : d.userVersion = latestSchemaVersion) :
    prepare.Along handle (fun _ _ c => Untouched d c.committed) (.idle d) fun r c =>
      r = .ok () ∧ c.opened = none ∧ c.committed.userVersion = latestSchemaVersion ∧
        Untouched d c.committed := by
  obtain ⟨v, tables, audit, reb, cache, h1⟩ := d
  simp only at hv
  subst hv
  simp [prepare, runMigrations, view, latestSchemaVersion, executescript, optionalTables,
    executeAll, execute, commit, handle, sqlHandle, exec, Conn.idle, Conn.view, Conn.write,
    Untouched.mk]

theorem prepare_new {d : Db} {t : CacheTable} (hd : OldCache d t) (hv : d.userVersion = 0) :
    prepare.Along handle (fun _ _ c => Untouched d c.committed) (.idle d) fun r c =>
      r = .ok () ∧ c.opened = none ∧ c.committed.userVersion = latestSchemaVersion ∧
        Untouched d c.committed := by
  obtain ⟨v, tables, audit, reb, cache, h1⟩ := d
  obtain ⟨-, hcache, hold⟩ := hd
  simp only at hv hcache
  subst hv hcache
  cases audit with
  | none =>
    cases hi : t.importIndex <;>
    simp [prepare, runMigrations, view, latestSchemaVersion, executescript, schemaV2Sql,
      optionalTables, executeAll, execute, commit, handle, sqlHandle, exec, Conn.idle, Conn.view,
      Conn.write, Untouched.mk, CacheTable.index, importKeys_nil hold, hi]
  | some a =>
    cases hi : t.importIndex <;>
    simp [prepare, runMigrations, view, latestSchemaVersion, executescript, schemaV2Sql,
      optionalTables, executeAll, execute, commit, handle, sqlHandle, exec, Conn.idle, Conn.view,
      Conn.write, Untouched.mk, CacheTable.index, importKeys_nil hold, hi]

theorem prepare_along {d : Db} {t : CacheTable} (hd : OldCache d t) :
    prepare.Along handle (fun _ _ c => Untouched d c.committed) (.idle d) fun r c =>
      r = .ok () ∧ c.opened = none ∧ c.committed.userVersion = latestSchemaVersion ∧
        Untouched d c.committed := by
  rcases hd.version with hv | hv
  · exact prepare_new hd hv
  · exact prepare_latest hv

theorem length_prepare {d : Db} {t : CacheTable} (hd : OldCache d t) :
    (prepare.trace handle (.idle d)).length = prepareLength d := by
  obtain ⟨v, tables, audit, reb, cache, h1⟩ := d
  obtain ⟨hv, hcache, hold⟩ := hd
  simp only at hv hcache
  subst hcache
  rcases hv with rfl | rfl
  · cases audit <;> cases hi : t.importIndex <;>
      simp [prepare, runMigrations, view, latestSchemaVersion, executescript, schemaV2Sql,
        optionalTables, executeAll, execute, commit, handle, sqlHandle, exec, Conn.idle, Conn.view,
        Conn.write, CacheTable.index, importKeys_nil hold, hi, Prog.trace, prepareLength]
  · simp [prepare, runMigrations, view, latestSchemaVersion, executescript, optionalTables,
      executeAll, execute, commit, handle, sqlHandle, exec, Conn.idle, Conn.view, Conn.write,
      Prog.trace, prepareLength]

/-! ## The rebuild -/

/-- The rows of an old table in the H1 shape. -/
def CacheTable.copied (t : CacheTable) : CacheTable where
  sourceNotNull := false
  importIndex := false
  rows := t.rows
  notNull := by simp
  primaryKey := t.primaryKey
  unique := by simp

theorem copyFrom_new (t : CacheTable) : CacheTable.new.copyFrom t = .ok t.copied := by
  simp [CacheTable.copyFrom, CacheTable.new, CacheTable.copied, t.primaryKey]

/-- The copy conflicts with itself as soon as there is a row. -/
theorem copyFrom_copied {t : CacheTable} (hold : t.sourceNotNull = true) (hrows : t.rows ≠ []) :
    t.copied.copyFrom t = .error .integrity := by
  obtain ⟨row, rest, hcons⟩ := List.exists_cons_of_ne_nil hrows
  have hsource : row.sourceRelpath ≠ none := t.notNull hold row (by simp [hcons])
  obtain ⟨source, hs⟩ := Option.ne_none_iff_exists'.mp hsource
  have hdup : ¬ ((t.rows ++ t.rows).filterMap cacheKey).Nodup := by
    rw [List.filterMap_append]
    intro hnd
    have hkey : (row.accountName, source, row.hashAlgo, row.hashValue) ∈
        t.rows.filterMap cacheKey :=
      List.mem_filterMap.mpr ⟨row, by simp [hcons], by simp [cacheKey, hs]⟩
    exact (List.nodup_append.mp hnd).2.2 _ hkey _ hkey rfl
  exact dif_neg fun h => hdup h.2.1

/-- The index of a table whose rows all have a source path. -/
theorem index_eq {t : CacheTable} (h : (t.rows.filterMap importKey).Nodup) :
    t.index = .ok { t with importIndex := true, unique := fun _ => h } := dif_pos h

theorem keys_copied {t : CacheTable} (hold : t.sourceNotNull = true) :
    (t.copied.rows.filterMap importKey).Nodup := by
  rw [CacheTable.copied, importKeys_nil hold]
  exact List.nodup_nil

/-- The database after `k` operations of the rebuild of `t`, up to the index. -/
def rebuildState (d : Db) (t : CacheTable) : Nat → Db
  | 4 => { d with externalHashCacheH1 := some .new }
  | 5 => { d with externalHashCacheH1 := some t.copied }
  | 6 => { d with externalHashCache := none, externalHashCacheH1 := some t.copied }
  | 7 => { d with externalHashCache := some t.copied }
  | _ => d

theorem crash_migrate {d : Db} {t : CacheTable} (hd : PreH1 d t) {k : Nat} (hk : k < 8) :
    (migrate.crash handle k (.idle d)).committed = rebuildState d t k := by
  obtain ⟨v, tables, audit, reb, cache, h1⟩ := d
  obtain ⟨⟨-, hcache, hold⟩, hh1⟩ := hd
  simp only at hcache hh1
  subst hcache hh1
  interval_cases k <;>
  simp [migrate, ensureExternalHashCacheH1Schema, view, hold, begin, executescript, h1Script,
    executeAll, execute, commit, handle, sqlHandle, exec, Conn.idle, Conn.view, Conn.write,
    Prog.crash, rebuildState, copyFrom_new]

/-- The rebuild of an old table, beside no new one or an empty one. -/
theorem migrate_old {d : Db} {t : CacheTable} (hd : OldCache d t)
    (hh1 : d.externalHashCacheH1 = none ∨ d.externalHashCacheH1 = some .new) :
    ∃ d', migrate.run handle (.idle d) = (.ok (), .idle d') ∧ MigratedTo t.rows d' ∧
      d'.userVersion = d.userVersion := by
  obtain ⟨v, tables, audit, reb, cache, h1⟩ := d
  obtain ⟨-, hcache, hold⟩ := hd
  simp only at hcache hh1
  subst hcache
  have hkeys := keys_copied hold
  have hnew : t.copied.importIndex = false := rfl
  have hor : h1.or (some CacheTable.new) = some .new := by
    rcases hh1 with rfl | rfl <;> rfl
  refine ⟨⟨v, tables, audit, reb, some { t.copied with
    importIndex := true, unique := fun _ => hkeys }, none⟩, ?_, ⟨⟨_, rfl, rfl, rfl, rfl⟩, rfl⟩, rfl⟩
  simp [migrate, ensureExternalHashCacheH1Schema, view, hold, begin, executescript, h1Script,
    executeAll, execute, commit, handle, sqlHandle, exec, Conn.idle, Conn.view, Conn.write,
    copyFrom_new, hor, index_eq hkeys, hnew]

theorem copied_congr {t t' : CacheTable} (h : t.rows = t'.rows) : t.copied = t'.copied := by
  simp [CacheTable.copied, h]

theorem copied_eq_new {t : CacheTable} (h : t.rows = []) : t.copied = .new := by
  simp [CacheTable.copied, CacheTable.new, h]

/-- Beside its own copy the old table cannot be copied again. -/
theorem migrate_copied {d : Db} {t : CacheTable} (hd : OldCache d t)
    (hh1 : d.externalHashCacheH1 = some t.copied) (hrows : t.rows ≠ []) :
    ∃ c, migrate.run handle (.idle d) = (.error .integrity, c) := by
  obtain ⟨v, tables, audit, reb, cache, h1⟩ := d
  obtain ⟨-, hcache, hold⟩ := hd
  simp only at hcache hh1
  subst hcache hh1
  refine ⟨.idle ⟨v, tables, audit, reb, some t, some t.copied⟩, ?_⟩
  simp [migrate, ensureExternalHashCacheH1Schema, view, hold, begin, executescript, h1Script,
    executeAll, execute, commit, handle, sqlHandle, exec, Conn.idle, Conn.view, Conn.write,
    copyFrom_copied hold hrows]

/-- Without the table there is nothing to migrate. -/
theorem migrate_dropped {d : Db} (hd : d.externalHashCache = none) :
    migrate.run handle (.idle d) = (.ok (), .idle d) := by
  obtain ⟨v, tables, audit, reb, cache, h1⟩ := d
  simp only at hd
  subst hd
  simp [migrate, ensureExternalHashCacheH1Schema, view, commit, handle, sqlHandle, Conn.idle,
    Conn.view]

/-- A table of the H1 shape only gets its index. -/
theorem migrate_renamed {d : Db} {u : CacheTable} (hu : d.externalHashCache = some u)
    (hnull : u.sourceNotNull = false) (hkeys : (u.rows.filterMap importKey).Nodup)
    (hh1 : d.externalHashCacheH1 = none) :
    ∃ d', migrate.run handle (.idle d) = (.ok (), .idle d') ∧ MigratedTo u.rows d' := by
  obtain ⟨v, tables, audit, reb, cache, h1⟩ := d
  simp only at hu hh1
  subst hu hh1
  refine ⟨⟨v, tables, audit, reb, some { u with
    importIndex := true, unique := fun _ => hkeys }, none⟩, ?_, ⟨⟨_, rfl, hnull, rfl, rfl⟩, rfl⟩⟩
  cases hi : u.importIndex with
  | false =>
    simp [migrate, ensureExternalHashCacheH1Schema, view, hnull, execute, commit, handle,
      sqlHandle, exec, Conn.idle, Conn.view, Conn.write, index_eq hkeys, hi]
  | true =>
    obtain ⟨nn, ix, rows, h1, h2, h3⟩ := u
    simp only at hi hnull
    subst hi hnull
    simp [migrate, ensureExternalHashCacheH1Schema, view, execute, commit, handle,
      sqlHandle, exec, Conn.idle, Conn.view, Conn.write]

theorem length_migrate {d : Db} {t : CacheTable} (hd : PreH1 d t) :
    (migrate.trace handle (.idle d)).length = 9 := by
  obtain ⟨v, tables, audit, reb, cache, h1⟩ := d
  obtain ⟨⟨-, hcache, hold⟩, hh1⟩ := hd
  simp only at hcache hh1
  subst hcache hh1
  have hkeys := keys_copied hold
  have hnew : t.copied.importIndex = false := rfl
  simp [migrate, ensureExternalHashCacheH1Schema, view, hold, begin, executescript, h1Script,
    executeAll, execute, commit, handle, sqlHandle, exec, Conn.idle, Conn.view, Conn.write,
    Prog.trace, copyFrom_new, index_eq hkeys, hnew]

theorem crash_migrate_end {d : Db} {t : CacheTable} (hd : PreH1 d t) {k : Nat} (hk : 8 ≤ k) :
    (migrate.crash handle k (.idle d)).committed =
      (migrate.run handle (.idle d)).2.committed := by
  rcases Nat.eq_or_lt_of_le hk with rfl | hk
  · obtain ⟨v, tables, audit, reb, cache, h1⟩ := d
    obtain ⟨⟨-, hcache, hold⟩, hh1⟩ := hd
    simp only at hcache hh1
    subst hcache hh1
    have hnew : t.copied.importIndex = false := rfl
    simp [migrate, ensureExternalHashCacheH1Schema, view, hold, begin, executescript, h1Script,
      executeAll, execute, commit, handle, sqlHandle, exec, Conn.idle, Conn.view, Conn.write,
      Prog.crash, copyFrom_new, index_eq (keys_copied hold), hnew]
  · rw [crash_of_length_le (by rw [length_migrate hd]; omega)]

/-! ## Initialising again -/

theorem prepare_run {d : Db} (h : prepare.Along handle (fun _ _ c => Untouched d c.committed)
    (.idle d) fun r c => r = .ok () ∧ c.opened = none ∧
      c.committed.userVersion = latestSchemaVersion ∧ Untouched d c.committed) :
    ∃ d', prepare.run handle (.idle d) = (.ok (), .idle d') ∧ Untouched d d' ∧
      d'.userVersion = latestSchemaVersion := by
  obtain ⟨hok, hopen, hv, hsame⟩ := along_run h
  cases hrun : prepare.run handle (.idle d) with
  | mk r c =>
    rw [hrun] at hok hopen hv hsame
    obtain ⟨d', opened⟩ := c
    simp only at hok hopen
    subst hok hopen
    exact ⟨d', rfl, hsame, hv⟩

theorem Untouched.oldCache {d d' : Db} {t : CacheTable} (h : Untouched d d')
    (hd : OldCache d t) : ∃ t', OldCache d' t' ∧ t'.rows = t.rows := by
  have hcache := h.cache
  rw [hd.cache] at hcache
  obtain ⟨t', ht', hpair⟩ := Option.map_eq_some_iff.mp hcache
  obtain ⟨hold, hrows⟩ := Prod.mk.inj hpair
  exact ⟨t', ⟨h.version, ht', hold.trans hd.old⟩, hrows⟩

/-- `initialize` ends as the rebuild does. -/
theorem migrates_iff {d d' : Db} (hprep : prepare.run handle (.idle d) = (.ok (), .idle d'))
    {rows : List ExternalHashRow} : Migrates rows d ↔
      (migrate.run handle (.idle d')).1 = .ok () ∧
        MigratedTo rows (migrate.run handle (.idle d')).2.view := by
  have hbody : (prepare >>= fun _ => migrate).run handle (.idle d) =
      migrate.run handle (.idle d') := by rw [run_bind, hprep]
  unfold Migrates
  rw [initializeRegistry_eq]
  cases hrun : migrate.run handle (.idle d') with
  | mk r c =>
    rw [hrun] at hbody
    cases r with
    | ok a => rw [handle, run_connected_ok hbody]; simp [Conn.idle]
    | error e => rw [handle, run_connected_error hbody]; simp

theorem migrates_old {d : Db} {t : CacheTable} (hd : OldCache d t)
    (hh1 : d.externalHashCacheH1 = none ∨ d.externalHashCacheH1 = some .new) :
    Migrates t.rows d := by
  obtain ⟨d', hprep, hsame, -⟩ := prepare_run (prepare_along hd)
  obtain ⟨t', hold, hrows⟩ := hsame.oldCache hd
  obtain ⟨e, hrun, hmig, -⟩ := migrate_old hold (hsame.h1 ▸ hh1)
  rw [migrates_iff hprep, hrun, ← hrows]
  exact ⟨rfl, hmig⟩

theorem not_migrates_copied {d : Db} {t : CacheTable} (hd : OldCache d t)
    (hh1 : d.externalHashCacheH1 = some t.copied) (hrows : t.rows ≠ []) :
    ¬ Migrates t.rows d := by
  obtain ⟨d', hprep, hsame, -⟩ := prepare_run (prepare_along hd)
  obtain ⟨t', hold, hrows'⟩ := hsame.oldCache hd
  have hh1' : d'.externalHashCacheH1 = some t'.copied := by
    rw [hsame.h1, hh1, copied_congr hrows']
  obtain ⟨c, hrun⟩ := migrate_copied hold hh1' (hrows' ▸ hrows)
  rw [migrates_iff hprep, hrun]
  simp

theorem not_migrates_dropped {d : Db} (hv : d.userVersion = latestSchemaVersion)
    (hd : d.externalHashCache = none) {rows : List ExternalHashRow} : ¬ Migrates rows d := by
  obtain ⟨d', hprep, hsame, -⟩ := prepare_run (prepare_latest hv)
  have hnone : d'.externalHashCache = none := by simpa [hd] using hsame.cache
  rw [migrates_iff hprep, migrate_dropped hnone]
  rintro ⟨-, ⟨t, ht, -⟩, -⟩
  rw [Conn.idle, Conn.view, Option.getD_none, hnone] at ht
  cases ht

theorem migrates_renamed {d : Db} {u : CacheTable} (hv : d.userVersion = latestSchemaVersion)
    (hu : d.externalHashCache = some u) (hnull : u.sourceNotNull = false)
    (hkeys : (u.rows.filterMap importKey).Nodup) (hh1 : d.externalHashCacheH1 = none) :
    Migrates u.rows d := by
  obtain ⟨d', hprep, hsame, -⟩ := prepare_run (prepare_latest hv)
  have hcache := hsame.cache
  rw [hu] at hcache
  obtain ⟨u', hu', hpair⟩ := Option.map_eq_some_iff.mp hcache
  obtain ⟨hnull', hrows⟩ := Prod.mk.inj hpair
  obtain ⟨e, hrun, hmig⟩ := migrate_renamed hu' (hnull'.trans hnull) (hrows ▸ hkeys)
    (hsame.h1.trans hh1)
  rw [migrates_iff hprep, hrun, ← hrows]
  exact ⟨rfl, hmig⟩

theorem crashed_eq {d : Db} {t : CacheTable} (hd : PreH1 d t) (n : Nat) :
    crashedAfter d n = ((prepare >>= fun _ => migrate).crash handle n (.idle d)).committed := by
  obtain ⟨d', hprep, hsame, -⟩ := prepare_run (prepare_along hd.toOldCache)
  obtain ⟨t', hold, -⟩ := hsame.oldCache hd.toOldCache
  obtain ⟨e, hrun, -⟩ := migrate_old hold (.inl (hsame.h1.trans hd.noH1))
  have hbody : (prepare >>= fun _ => migrate).run handle (.idle d) = (.ok (), .idle e) := by
    rw [run_bind, hprep]
    exact hrun
  rw [crashedAfter, initializeRegistry_eq]
  exact crash_connected hbody n

/-- A crash before the rebuild leaves the old table as it was. -/
theorem crashed_of_le {d : Db} {t : CacheTable} (hd : PreH1 d t) {n : Nat}
    (hn : n ≤ prepareLength d) : Untouched d (crashedAfter d n) := by
  rw [crashed_eq hd, crash_bind_of_le (by rwa [length_prepare hd.toOldCache])]
  have hstart : Untouched d (Conn.idle d).committed := ⟨rfl, rfl, hd.version⟩
  exact crash_of_along (I := fun c : Conn Db => Untouched d c.committed) hstart
    (prepare_along hd.toOldCache) n

theorem crashed_add {d : Db} {t : CacheTable} (hd : PreH1 d t) :
    ∃ d' t', PreH1 d' t' ∧ t'.rows = t.rows ∧ d'.userVersion = latestSchemaVersion ∧
      ∀ k, crashedAfter d (prepareLength d + k) = (migrate.crash handle k (.idle d')).committed := by
  obtain ⟨d', hprep, hsame, hv⟩ := prepare_run (prepare_along hd.toOldCache)
  obtain ⟨t', hold, hrows⟩ := hsame.oldCache hd.toOldCache
  refine ⟨d', t', ⟨hold, hsame.h1.trans hd.noH1⟩, hrows, hv, fun k => ?_⟩
  rw [crashed_eq hd, ← length_prepare hd.toOldCache, crash_bind_add hprep]

/-- The states of the rebuild, each under the next `initialize`. -/
theorem migrates_rebuildState {d : Db} {t : CacheTable} (hd : PreH1 d t)
    (hv : d.userVersion = latestSchemaVersion) {k : Nat} (hk : k < 8) :
    Migrates t.rows (rebuildState d t k) ↔ k ≠ 6 ∧ (k = 5 → t.rows = []) := by
  have hsame : Migrates t.rows d := migrates_old hd.toOldCache (.inl hd.noH1)
  have hstage : ∀ u, OldCache { d with externalHashCacheH1 := u } t :=
    fun u => ⟨hd.version, hd.cache, hd.old⟩
  interval_cases k
  all_goals try exact iff_of_true hsame (by simp)
  · exact iff_of_true (migrates_old (hstage _) (.inr rfl)) (by simp)
  · by_cases hrows : t.rows = []
    · refine iff_of_true (migrates_old (hstage _) (.inr ?_)) (by simp [hrows])
      exact congrArg some (copied_eq_new hrows)
    · exact iff_of_false (not_migrates_copied (hstage _) rfl hrows) (by simp [hrows])
  · have hv' : (rebuildState d t 6).userVersion = latestSchemaVersion := hv
    exact iff_of_false (not_migrates_dropped hv' rfl) (by simp)
  · have hv' : (rebuildState d t 7).userVersion = latestSchemaVersion := hv
    refine iff_of_true ?_ (by simp)
    exact migrates_renamed (u := t.copied) hv' rfl rfl (keys_copied hd.old) hd.noH1

/-- After a crash, `initialize` succeeds with the H1 schema and the original rows
if and only if the crash is neither the one between drop and rename nor, when
there are rows, the one between copy and drop. -/
theorem migrates_crashed_iff {d : Db} {t : CacheTable} (hd : PreH1 d t) (n : Nat) :
    Migrates t.rows (crashedAfter d n) ↔
      n ≠ prepareLength d + 6 ∧ (n = prepareLength d + 5 → t.rows = []) := by
  by_cases hn : n ≤ prepareLength d
  · have hsame := crashed_of_le hd hn
    obtain ⟨t', hold, hrows⟩ := hsame.oldCache hd.toOldCache
    refine iff_of_true ?_ ⟨by omega, fun h => by omega⟩
    rw [← hrows]
    exact migrates_old hold (.inl (hsame.h1.trans hd.noH1))
  · obtain ⟨k, rfl⟩ := Nat.exists_eq_add_of_le (Nat.le_of_not_le hn)
    obtain ⟨d', t', hd', hrows, hv, hcrash⟩ := crashed_add hd
    have hcond : (prepareLength d + k ≠ prepareLength d + 6 ∧
        (prepareLength d + k = prepareLength d + 5 → t.rows = [])) ↔
        k ≠ 6 ∧ (k = 5 → t'.rows = []) := by simp [hrows]
    rw [hcond, hcrash, ← hrows]
    by_cases hk : k < 8
    · rw [crash_migrate hd' hk]
      exact migrates_rebuildState hd' hv hk
    · obtain ⟨e, hrun, hmig, hve⟩ := migrate_old hd'.toOldCache (.inl hd'.noH1)
      rw [crash_migrate_end hd' (by omega), hrun]
      obtain ⟨u, hu, hnull, hindex, hsame⟩ := hmig.cache
      refine iff_of_true ?_ ⟨by omega, fun h => by omega⟩
      rw [← hsame]
      exact migrates_renamed (hve.trans hv) hu hnull (u.unique hindex) hmig.noH1

/-- A cache from before H1 with one row. -/
def oldCacheTable : CacheTable where
  sourceNotNull := true
  importIndex := false
  rows := [⟨"alice", some "2020/a.jpg", "sha1", "h1", none, "t0", "t0"⟩]
  notNull := by decide
  primaryKey := by decide
  unique := by decide

def oldRegistry : Db := ⟨2, [], some .new, none, some oldCacheTable, none⟩

theorem preH1_oldRegistry : PreH1 oldRegistry oldCacheTable := ⟨⟨.inr rfl, rfl, rfl⟩, rfl⟩

/-- Without a crash, and with one before the copy, nothing is lost. -/
theorem oldRegistry_migrates : PreH1 oldRegistry oldCacheTable ∧
    Migrates oldCacheTable.rows (crashedAfter oldRegistry 9) :=
  ⟨preH1_oldRegistry, (migrates_crashed_iff preH1_oldRegistry 9).mpr (by decide)⟩

/-- Killed after the copy, `initialize` fails from then on; killed after the
drop, it succeeds and the table is gone. -/
theorem oldRegistry_not_migrates : PreH1 oldRegistry oldCacheTable ∧
    ¬ Migrates oldCacheTable.rows (crashedAfter oldRegistry 10) ∧
    ¬ Migrates oldCacheTable.rows (crashedAfter oldRegistry 11) := by
  refine ⟨preH1_oldRegistry, fun h => ?_, fun h => ?_⟩
  · have hfail : (initializeRegistry.run handle (.idle (crashedAfter oldRegistry 10))).1 =
        .error .integrity := by decide +kernel
    have hok := h.1
    rw [hfail] at hok
    cases hok
  · have hgone : (initializeRegistry.run handle
        (.idle (crashedAfter oldRegistry 11))).2.committed.externalHashCache.isNone = true := by
      decide +kernel
    obtain ⟨t, ht, -⟩ := h.2.cache
    rw [ht] at hgone
    cases hgone

end Nightfall.Schema
