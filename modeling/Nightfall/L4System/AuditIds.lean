import Nightfall.L4System.Audit

/-!
# The ids of the audit log

`audit_log.id` is an `AUTOINCREMENT` key: an insert takes the number behind the
table's `sqlite_sequence` entry. The prune copies the rows it retains into a new
table, whose entry is the largest id copied, and drops the old table with its
entry. `AuditHistory` keeps every id ever handed out next to the registry.

* `last_retained`: the prune keeps the newest row unless it retains no
  `auth_failure` row and the newest row is one.
* `ids_unused_iff`: in a run of transactions every next append takes an id no
  row ever had, and no other row is lost, exactly when each prune of the run
  keeps the newest row.
-/
namespace Nightfall
open Nightfall.Core Storage

/-- A registry and the ids its audit log has handed out. -/
structure AuditHistory where
  reg : Registry
  handed : List Nat

namespace AuditHistory

/-- The history of a registry that is opened: the ids of the rows in it. -/
def ofRegistry (r : Registry) : AuditHistory := ⟨r, r.auditLog.map (·.id)⟩

/-- One transaction; one that rolls back hands out nothing. -/
def apply (h : AuditHistory) (now : String) (t : Tx) : AuditHistory :=
  match t.apply h.reg now with
  | .ok r => ⟨r, if t.audits.isSome then h.handed ++ [h.reg.auditSeq + 1] else h.handed⟩
  | .error _ => h

/-- A run of transactions, each with the time it is given. -/
def afterAll (h : AuditHistory) (ts : List (String × Tx)) : AuditHistory :=
  ts.foldl (fun h s => h.apply s.1 s.2) h

theorem afterAll_append (h : AuditHistory) (ts us : List (String × Tx)) :
    h.afterAll (ts ++ us) = (h.afterAll ts).afterAll us := List.foldl_append

theorem afterAll_snoc (h : AuditHistory) (ts : List (String × Tx)) (now : String) (t : Tx) :
    h.afterAll (ts ++ [(now, t)]) = (h.afterAll ts).apply now t := by
  rw [afterAll_append]; rfl

end AuditHistory

/-- The greatest id of a log in order. -/
def newestId (rows : List AuditRow) : Nat := (rows.getLast?.map (·.id)).getD 0

/-- The row a transaction appends has an id that was never handed out. -/
def AppendsUnused (h : AuditHistory) : Prop :=
  ∀ (now : String) (t : Tx) (r' : Registry), t.apply h.reg now = .ok r' → t.audits ≠ none →
    ∃ row, r'.auditLog = h.reg.auditLog ++ [row] ∧ ∀ id ∈ h.handed, id < row.id

/-- The prune is given rows to keep, or the newest row is no `auth_failure`. -/
def KeepsNewest (r : Registry) (keepLatest : Int) : Prop :=
  keepLatest ≠ 0 ∨ ∀ last ∈ r.auditLog.getLast?, last.action ≠ .authFailure

/-! ## What a prune retains -/

theorem retainedAudit_other {rows : List AuditRow} {keep : Nat} {row : AuditRow} (h : row ∈ rows)
    (ha : row.action ≠ .authFailure) : row ∈ Registry.retainedAudit rows keep := by
  simp [Registry.retainedAudit, h, ha]

/-- The newest row is retained when it is no `auth_failure`, or when one may stay. -/
theorem getLast_retainedAudit {init : List AuditRow} {last : AuditRow} {keep : Nat}
    (h : last.action ≠ .authFailure ∨ keep ≠ 0) :
    (Registry.retainedAudit (init ++ [last]) keep).getLast? = some last := by
  have hkept : (last.action != AuditAction.authFailure ||
      ((((init ++ [last]).filter (·.action == .authFailure)).map (·.id)).reverse.take keep).contains
        last.id) = true := by
    by_cases ha : last.action = .authFailure
    · obtain ⟨n, rfl⟩ := Nat.exists_eq_succ_of_ne_zero (h.resolve_left (not_not.mpr ha))
      simp [ha, List.filter_append]
    · simp [ha]
  simp only [Registry.retainedAudit]
  rw [List.filter_append, List.filter_singleton, hkept]
  simp

/-- Without a row to keep, no `auth_failure` row is left. -/
theorem retainedAudit_zero (rows : List AuditRow) :
    Registry.retainedAudit rows 0 = rows.filter (·.action != .authFailure) := by
  simp [Registry.retainedAudit]

/-- What a prune that succeeds leaves of the log and of its sequence. -/
theorem prune_cases {r r' : Registry} {keep : Int}
    (h : r.pruneAuthFailureAuditBacklog keep = .ok r') :
    0 ≤ keep ∧ (r' = r ∨
      r'.auditLog = Registry.retainedAudit r.auditLog keep.toNat ∧
        r'.auditSeq = newestId (Registry.retainedAudit r.auditLog keep.toNat)) := by
  unfold Registry.pruneAuthFailureAuditBacklog at h
  split at h
  · cases h
  · next hneg =>
    refine ⟨by omega, ?_⟩
    simp only at h
    split at h
    · cases h; exact .inl rfl
    · cases h; exact .inr ⟨rfl, rfl⟩

/-! ## Runs -/

/-- The log is in order and behind its sequence, its ids are positive and were
handed out, and the newest row has the greatest of them. -/
structure AuditHistory.Tight (h : AuditHistory) : Prop where
  ordered : h.reg.auditLog.Pairwise fun a b => a.id < b.id
  bounded : ∀ a ∈ h.reg.auditLog, a.id ≤ h.reg.auditSeq
  positive : ∀ a ∈ h.reg.auditLog, 1 ≤ a.id
  recorded : ∀ a ∈ h.reg.auditLog, a.id ∈ h.handed
  newest : ∀ id ∈ h.handed, id ≤ newestId h.reg.auditLog

theorem newestId_le {rows : List AuditRow} {n : Nat} (h : ∀ a ∈ rows, a.id ≤ n) :
    newestId rows ≤ n := by
  unfold newestId
  cases hl : rows.getLast? with
  | none => simp
  | some last => simpa using h last (List.mem_of_getLast? hl)

theorem newestId_append (rows : List AuditRow) (row : AuditRow) :
    newestId (rows ++ [row]) = row.id := by simp [newestId]

theorem tight_ofRegistry {r : Registry} (ho : r.auditLog.Pairwise fun a b => a.id < b.id)
    (hb : ∀ a ∈ r.auditLog, a.id ≤ r.auditSeq) (hpos : ∀ a ∈ r.auditLog, 1 ≤ a.id) :
    (AuditHistory.ofRegistry r).Tight := by
  refine ⟨ho, hb, hpos, fun a ha => List.mem_map_of_mem ha, fun id hid => ?_⟩
  obtain ⟨a, ha, rfl⟩ := List.mem_map.mp hid
  exact id_le_getLast ho a ha

theorem AuditHistory.Tight.unused {h : AuditHistory} (ht : h.Tight) : AppendsUnused h := by
  intro now t r' hr hnote
  have hp : ∀ keep, t ≠ .pruneAuthFailureAuditBacklog keep := by
    rintro keep rfl
    exact hnote rfl
  have hl := logs_apply hr hp
  cases hn : t.audits with
  | none => exact absurd hn hnote
  | some note =>
    rw [hn] at hl
    cases hl with
    | row row hlog hseq _ hid =>
      refine ⟨row, hlog, fun id hid' => ?_⟩
      have hle := ht.newest id hid'
      have hseq := newestId_le ht.bounded
      omega

/-- A transaction other than the prune appends what it hands out. -/
theorem tight_append {h : AuditHistory} (ht : h.Tight) {now : String} {t : Tx}
    (hp : ∀ keep, t ≠ .pruneAuthFailureAuditBacklog keep) : (h.apply now t).Tight := by
  unfold AuditHistory.apply
  cases hr : t.apply h.reg now with
  | error e => exact ht
  | ok r =>
    have hl := logs_apply hr hp
    obtain ⟨ho, hb⟩ := hl.ordered ht.ordered ht.bounded
    generalize t.audits = note at hl ⊢
    cases hl with
    | same hlog hseq =>
      refine ⟨ho, hb, ?_, ?_, ?_⟩
      · simpa [hlog] using ht.positive
      · simpa [hlog] using ht.recorded
      · simpa [hlog] using ht.newest
    | row row hlog hseq _ hid =>
      have hle := newestId_le ht.bounded
      refine ⟨ho, hb, ?_, ?_, ?_⟩ <;> simp only [hlog, Option.isSome_some, if_true]
      · intro a ha
        rcases List.mem_append.mp ha with hold | hnew
        · exact ht.positive a hold
        · rw [List.mem_singleton.mp hnew]
          omega
      · intro a ha
        rcases List.mem_append.mp ha with hold | hnew
        · exact List.mem_append_left _ (ht.recorded a hold)
        · rw [List.mem_singleton.mp hnew, hid]
          exact List.mem_append_right _ (List.mem_singleton_self _)
      · intro id hid'
        rw [newestId_append]
        rcases List.mem_append.mp hid' with hold | hnew
        · have := ht.newest id hold
          omega
        · rw [List.mem_singleton.mp hnew]
          omega

/-- A prune that keeps the newest row keeps the greatest id. -/
theorem tight_prune {h : AuditHistory} (ht : h.Tight) {now : String} {keep : Int}
    (hk : KeepsNewest h.reg keep) :
    (h.apply now (.pruneAuthFailureAuditBacklog keep)).Tight := by
  unfold AuditHistory.apply
  cases hr : (Tx.pruneAuthFailureAuditBacklog keep).apply h.reg now with
  | error e => exact ht
  | ok r =>
    obtain ⟨hpos, rfl | ⟨hlog, hseq⟩⟩ := prune_cases hr
    · exact ht
    · have hsub : (Registry.retainedAudit h.reg.auditLog keep.toNat).Sublist h.reg.auditLog :=
        List.filter_sublist
      have hnewest : newestId (Registry.retainedAudit h.reg.auditLog keep.toNat) =
          newestId h.reg.auditLog := by
        rcases List.eq_nil_or_concat' h.reg.auditLog with hnil | ⟨init, last, hsnoc⟩
        · rw [hnil]; rfl
        · rw [newestId, hsnoc, getLast_retainedAudit, newestId, List.getLast?_concat]
          rcases hk with hne | hlast
          · exact .inr (by omega)
          · exact .inl (hlast last (by simp [hsnoc]))
      have ho := ht.ordered.sublist hsub
      refine ⟨by rw [hlog]; exact ho, ?_, ?_, ?_, ?_⟩
      · rw [hlog, hseq]
        exact id_le_getLast ho
      · rw [hlog]
        exact fun a ha => ht.positive a (hsub.subset ha)
      · rw [hlog]
        exact fun a ha => ht.recorded a (hsub.subset ha)
      · show ∀ id ∈ h.handed, id ≤ newestId r.auditLog
        rw [hlog, hnewest]
        exact ht.newest

/-- Every prune of the run keeps the newest row. -/
def PrunesKeepNewest (h : AuditHistory) (ts : List (String × Tx)) : Prop :=
  ∀ before now keep, before ++ [(now, Tx.pruneAuthFailureAuditBacklog keep)] <+: ts →
    KeepsNewest (h.afterAll before).reg keep

theorem tight_afterAll {h : AuditHistory} (ht : h.Tight) (ts : List (String × Tx)) :
    PrunesKeepNewest h ts → (h.afterAll ts).Tight := by
  -- from the end of the run, so that a prefix of the shorter run is one of the longer
  induction ts using List.reverseRecOn with
  | nil => exact fun _ => ht
  | append_singleton ts s ih =>
    obtain ⟨now, t⟩ := s
    intro hk
    have hbefore : (h.afterAll ts).Tight :=
      ih fun before now keep hpre => hk before now keep (hpre.trans (List.prefix_append _ _))
    rw [AuditHistory.afterAll_snoc]
    by_cases hp : ∃ keep, t = .pruneAuthFailureAuditBacklog keep
    · obtain ⟨keep, rfl⟩ := hp
      exact tight_prune hbefore (hk ts now keep List.prefix_rfl)
    · exact tight_append hbefore fun keep heq => hp ⟨keep, heq⟩

/-- Every row but an `auth_failure` stays as it is. -/
theorem row_kept {h : AuditHistory} {row : AuditRow} (hrow : row ∈ h.reg.auditLog)
    (ha : row.action ≠ .authFailure) (now : String) (t : Tx) :
    row ∈ (h.apply now t).reg.auditLog := by
  unfold AuditHistory.apply
  cases hr : t.apply h.reg now with
  | error e => exact hrow
  | ok r =>
    show row ∈ r.auditLog
    by_cases hp : ∃ keep, t = .pruneAuthFailureAuditBacklog keep
    · obtain ⟨keep, rfl⟩ := hp
      obtain ⟨-, rfl | ⟨hlog, -⟩⟩ := prune_cases hr
      · exact hrow
      · rw [hlog]
        exact retainedAudit_other hrow ha
    · have hl := logs_apply hr fun keep heq => hp ⟨keep, heq⟩
      generalize t.audits = note at hl
      cases hl with
      | same hlog _ => rw [hlog]; exact hrow
      | row _ hlog _ _ _ => rw [hlog]; exact List.mem_append_left _ hrow

theorem row_kept_afterAll {row : AuditRow} (ha : row.action ≠ .authFailure) :
    ∀ (ts : List (String × Tx)) {h : AuditHistory}, row ∈ h.reg.auditLog →
      row ∈ (h.afterAll ts).reg.auditLog
  | [], _, hrow => hrow
  | (now, t) :: ts, _, hrow => row_kept_afterAll ha ts (row_kept hrow ha now t)

/-- The prune that drops the newest row hands its id out again. -/
theorem reused_of_prune {h : AuditHistory} (ht : h.Tight) {now : String} {keep : Int}
    (hk : ¬ KeepsNewest h.reg keep) :
    ¬ AppendsUnused (h.apply now (.pruneAuthFailureAuditBacklog keep)) := by
  simp only [KeepsNewest, not_or, not_not, not_forall] at hk
  obtain ⟨rfl, last, hlast, ha⟩ := hk
  have hmem : last ∈ h.reg.auditLog := List.mem_of_getLast? hlast
  have hsome : (h.reg.auditLog.filter (·.action == .authFailure)).length ≠ 0 := by
    simp only [ne_eq, List.length_eq_zero_iff, List.filter_eq_nil_iff, not_forall]
    exact ⟨last, hmem, by simp [ha]⟩
  have hr : (Tx.pruneAuthFailureAuditBacklog 0).apply h.reg now = .ok { h.reg with
      auditLog := Registry.retainedAudit h.reg.auditLog 0
      auditSeq := newestId (Registry.retainedAudit h.reg.auditLog 0) } := by
    simp only [Tx.apply, Registry.pruneAuthFailureAuditBacklog]
    rw [if_neg (by decide), if_neg (by simpa using hsome)]
    rfl
  have hlt : newestId (Registry.retainedAudit h.reg.auditLog 0) < last.id := by
    rw [newestId]
    cases hl : (Registry.retainedAudit h.reg.auditLog 0).getLast? with
    | none => exact ht.positive last hmem
    | some a =>
      have hin := List.mem_of_getLast? hl
      rw [retainedAudit_zero, List.mem_filter] at hin
      obtain ⟨init, hsnoc⟩ := List.getLast?_eq_some_iff.mp hlast
      have hord := ht.ordered
      rw [hsnoc] at hin hord
      rcases List.mem_append.mp hin.1 with hinit | heq
      · simpa using (List.pairwise_append.mp hord).2.2 a hinit last (by simp)
      · rw [List.mem_singleton.mp heq] at hin
        simp [ha] at hin
  intro hunused
  simp only [AuditHistory.apply, hr] at hunused
  obtain ⟨row, hlog, hfresh⟩ := hunused now (.appendAuditEvent none .syncImport "" "") _ rfl
    (by simp [Tx.audits])
  have hrow : newestId (Registry.retainedAudit h.reg.auditLog 0) + 1 = row.id :=
    congrArg AuditRow.id (List.singleton_inj.mp (List.append_cancel_left hlog))
  have := hfresh last.id (ht.recorded last hmem)
  omega

theorem prunes_of_unused {h : AuditHistory} (ht : h.Tight) (ts : List (String × Tx)) :
    (∀ before, before <+: ts → AppendsUnused (h.afterAll before)) → PrunesKeepNewest h ts := by
  induction ts using List.reverseRecOn with
  | nil => intro _ before now keep hpre; simp at hpre
  | append_singleton ts s ih =>
    intro hunused before now keep hpre
    have hearlier := ih fun b hb => hunused b (hb.trans (List.prefix_append _ _))
    rcases List.prefix_concat_iff.mp hpre with heq | hpre
    · obtain ⟨rfl, rfl⟩ := List.append_inj' heq rfl |>.imp id List.singleton_inj.mp
      by_contra hk
      have hlast := hunused (before ++ [(now, _)]) List.prefix_rfl
      rw [AuditHistory.afterAll_snoc] at hlast
      exact reused_of_prune (tight_afterAll ht before hearlier) hk hlast
    · exact hearlier before now keep hpre

/-- From any registry whose log is in order, over every run of transactions:
each next append takes an id that was never handed out and no row but an
`auth_failure` is lost, exactly when every prune of the run keeps the newest row. -/
theorem ids_unused_iff (r : Registry) (ho : r.auditLog.Pairwise fun a b => a.id < b.id)
    (hb : ∀ a ∈ r.auditLog, a.id ≤ r.auditSeq) (hpos : ∀ a ∈ r.auditLog, 1 ≤ a.id)
    (ts : List (String × Tx)) :
    (∀ before, before <+: ts →
      AppendsUnused ((AuditHistory.ofRegistry r).afterAll before) ∧
      ∀ row ∈ ((AuditHistory.ofRegistry r).afterAll before).reg.auditLog,
        row.action ≠ .authFailure →
          row ∈ ((AuditHistory.ofRegistry r).afterAll ts).reg.auditLog) ↔
      PrunesKeepNewest (AuditHistory.ofRegistry r) ts := by
  have hstart := tight_ofRegistry ho hb hpos
  constructor
  · exact fun hp => prunes_of_unused hstart ts fun before hbefore => (hp before hbefore).1
  · intro hk before hbefore
    refine ⟨(tight_afterAll hstart before fun b now keep hpre =>
      hk b now keep (hpre.trans hbefore)).unused, fun row hrow ha => ?_⟩
    obtain ⟨rest, rfl⟩ := hbefore
    rw [AuditHistory.afterAll_append]
    exact row_kept_afterAll ha rest hrow

/-- A rejected token, then a decision: the prune drops the older rejected token
and retains the one before the decision. -/
def keptRun : List (String × Tx) :=
  [("t1", .appendAuditEvent none .authFailure "token" "api_auth"),
    ("t2", .appendAuditEvent none .authFailure "token" "api_auth"),
    ("t3", .pruneAuthFailureAuditBacklog 1),
    ("t4", .appendAuditEvent none .syncImport "library" "sync_import")]

theorem keptRun_unused :
    Registry.empty.auditLog = [] ∧
    ∀ before, before <+: keptRun →
      AppendsUnused ((AuditHistory.ofRegistry .empty).afterAll before) ∧
      ∀ row ∈ ((AuditHistory.ofRegistry .empty).afterAll before).reg.auditLog,
        row.action ≠ .authFailure →
          row ∈ ((AuditHistory.ofRegistry .empty).afterAll keptRun).reg.auditLog := by
  refine ⟨rfl, (ids_unused_iff .empty List.Pairwise.nil (by simp [Registry.empty])
    (by simp [Registry.empty]) keptRun).mpr fun before now keep hpre => .inl ?_⟩
  rintro rfl
  have hmem := hpre.subset (List.mem_append_right before (List.mem_singleton_self _))
  simp [keptRun] at hmem

/-- A rejected token is logged as row 1, pruned, and the next row is row 1 again. -/
def reusedRun : AuditHistory :=
  (AuditHistory.ofRegistry .empty).afterAll
    [("t1", .appendAuditEvent none .authFailure "token" "api_auth"),
      ("t2", .pruneAuthFailureAuditBacklog 0)]

theorem id_reused : 1 ∈ reusedRun.handed ∧ ¬ AppendsUnused reusedRun ∧
    (reusedRun.apply "t3" (.appendAuditEvent none .syncImport "library" "sync_import")).handed =
      [1, 1] := by
  refine ⟨by decide, fun h => ?_, by decide⟩
  obtain ⟨row, hlog, hfresh⟩ := h "t3" (.appendAuditEvent none .syncImport "library" "sync_import")
    _ rfl (by decide)
  have hrow : 1 = row.id :=
    congrArg AuditRow.id (List.singleton_inj.mp (List.append_cancel_left hlog))
  have := hfresh 1 (by decide)
  omega

end Nightfall
