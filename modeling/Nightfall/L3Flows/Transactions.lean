import Nightfall.L3Flows.World

/-!
# What a transaction writes

One lemma per table, for all transactions at once: which status a transaction
sets (`Tx.sets`), which audit row it appends (`Tx.audits`), which origin it
records (`Tx.records`), which sighting it indexes (`Tx.indexes`) and whether it
touches a pair (`Tx.writesPairs`). The invariants of the registry are proved
from these; none of them unfolds a method again.
-/
namespace Nightfall
open Nightfall.Core Storage

variable {t : Tx} {r r' : Registry} {now : String}

/-! ## `files.status` -/

/-- The hash whose status the transaction writes, and the status. -/
def Tx.sets : Tx → Option (String × Status)
  | .createOrUpdateFile sha _ st _ _ => some (sha, st)
  | .finalizeUnknownIngest sha _ _ _ _ _ _ _ _ => some (sha, .pending)
  | .finalizeAcceptFromPending sha _ _ _ _ _ => some (sha, .accepted)
  | .finalizePurgeFromRejected sha _ _ => some (sha, .purged)
  | .transitionStatus sha st _ _ => some (sha, st)
  | .triageApply a item _ _ _ _ => some (item, a.state)
  | _ => none

theorem Registry.statusOf_of_files (h : r'.files = r.files) (sha : String) :
    r'.statusOf sha = r.statusOf sha := by
  simp [Registry.statusOf, h]

theorem Registry.statusOf_of_put {k : String} {row : FileRecord}
    (h : r'.files = r.files.put k row) (sha : String) :
    r'.statusOf sha = if sha = k then some row.status else r.statusOf sha := by
  rw [Registry.statusOf, h, Table.get_put]
  split <;> rfl

theorem Registry.statusOf_of_modify {k : String} {f : FileRecord → FileRecord}
    (h : r'.files = r.files.modify k f) (hf : ∀ row, (f row).status = row.status) (sha : String) :
    r'.statusOf sha = r.statusOf sha := by
  rw [Registry.statusOf, h, Table.get_modify]
  split
  · next hs =>
    subst hs
    rw [Option.map_map]
    exact congrArg (fun g => (r.files.get sha).map g) (funext hf)
  · rfl

/-- A transaction sets one status or none. -/
theorem statusOf_apply (h : t.apply r now = .ok r') (sha : String) :
    r'.statusOf sha = match t.sets with
      | some (k, st) => if sha = k then some st else r.statusOf sha
      | none => r.statusOf sha := by
  cases t with
  | createOrUpdateFile k n st name path =>
    cases h
    obtain ⟨row, rfl, -, hf⟩ := Registry.files_upsertFile r k n st name path now
    exact Registry.statusOf_of_put hf sha
  | finalizeUnknownIngest k n name path account id src mt actor =>
    obtain ⟨row, hst, -, hf⟩ := Registry.files_finalizeUnknownIngest h
    rw [Registry.statusOf_of_put hf, hst]
    rfl
  | finalizeAcceptFromPending k path account src actor reason =>
    obtain ⟨old, -, -, hf⟩ := Registry.files_finalizeAcceptFromPending h
    exact Registry.statusOf_of_put hf sha
  | finalizePurgeFromRejected k reason actor =>
    obtain ⟨old, -, -, hf⟩ := Registry.files_finalizePurgeFromRejected h
    exact Registry.statusOf_of_put hf sha
  | transitionStatus k st reason actor =>
    obtain ⟨old, -, hf⟩ := Registry.files_transitionStatus h
    exact Registry.statusOf_of_put hf sha
  | triageApply a item key reason actor at_ =>
    obtain ⟨old, -, hf⟩ := Registry.files_triageApply h
    exact Registry.statusOf_of_put hf sha
  | clearCurrentPath k =>
    cases h
    exact Registry.statusOf_of_modify (Registry.files_clearCurrentPath r k now) (fun _ => rfl) sha
  | updateCurrentPath k path =>
    cases h
    exact Registry.statusOf_of_modify (Registry.files_updateCurrentPath r k path now)
      (fun _ => rfl) sha
  | upsertFileOrigin k account id hint =>
    exact Registry.statusOf_of_files (Registry.files_upsertFileOrigin h) sha
  | finalizeKnownIngest k st account id src mt n actor =>
    exact Registry.statusOf_of_files (Registry.files_finalizeKnownIngest h) sha
  | upsertLivePhotoPair id account stem p v st =>
    exact Registry.statusOf_of_files (Registry.files_upsertLivePhotoPair h) sha
  | pruneAuthFailureAuditBacklog keep =>
    exact Registry.statusOf_of_files (Registry.files_pruneAuthFailureAuditBacklog h) sha
  | upsertMetadataIndex | appendAuditEvent | appendIngestTerminalEvent | setLivePhotoPairStatus
  | triageEvent =>
    cases h
    rfl

/-- A status after a transaction was set by it or was there. -/
theorem statusOf_apply_cases (h : t.apply r now = .ok r') {sha : String} {st : Status}
    (hst : r'.statusOf sha = some st) : t.sets = some (sha, st) ∨ r.statusOf sha = some st := by
  rw [statusOf_apply h] at hst
  cases hs : t.sets with
  | none =>
    rw [hs] at hst
    exact .inr hst
  | some set =>
    obtain ⟨k, st'⟩ := set
    simp only [hs] at hst
    split at hst
    · next hk =>
      cases hst
      exact .inl (by rw [hk])
    · exact .inr hst

/-! ## `audit_log` -/

/-- The hash and the action of the audit row the transaction appends. -/
def Tx.audits : Tx → Option (Option String × AuditAction)
  | .finalizeUnknownIngest sha _ _ _ _ _ _ _ _ => some (some sha, .status .pending)
  | .finalizeAcceptFromPending sha _ _ _ _ _ => some (some sha, .status .accepted)
  | .finalizeKnownIngest sha st _ _ _ _ _ _ => some (some sha, .discard st)
  | .finalizePurgeFromRejected sha _ _ => some (some sha, .status .purged)
  | .transitionStatus sha st _ _ => some (some sha, .status st)
  | .appendAuditEvent sha a _ _ => some (sha, a)
  | .triageEvent a p item _ _ => some (some item, .triage a p)
  | .triageApply a item _ _ _ _ => some (some item, .triage a .applied)
  | _ => none

def AuditRow.note (row : AuditRow) : Option String × AuditAction := (row.sha256, row.action)

/-- The log of `r'` is that of `r`, with one more row for a note. -/
inductive Registry.Logs (r r' : Registry) : Option (Option String × AuditAction) → Prop
  | same (hlog : r'.auditLog = r.auditLog) (hseq : r'.auditSeq = r.auditSeq) : Logs r r' none
  | row {note : Option String × AuditAction} (row : AuditRow)
      (hlog : r'.auditLog = r.auditLog ++ [row]) (hseq : r'.auditSeq = r.auditSeq + 1)
      (hnote : row.note = note) (hid : row.id = r.auditSeq + 1) : Logs r r' (some note)

theorem Registry.logs_audit (r : Registry) (sha account : Option String) (a : AuditAction)
    (reason : Option String) (actor now : String) :
    r.Logs (r.audit sha account a reason actor now) (some (sha, a)) := .row _ rfl rfl rfl rfl

theorem Registry.logs_upsertFileOrigin {sha account id : String} {hint : Option String}
    (h : r.upsertFileOrigin sha account id hint now = .ok r') : r.Logs r' none := by
  unfold Registry.upsertFileOrigin at h
  simp only at h
  split at h
  · cases h; exact .same rfl rfl
  · cases h

/-- A note behind a change that left the log alone. -/
theorem Registry.Logs.after {r₁ r₂ : Registry} {note : Option String × AuditAction}
    (h : r.Logs r₁ none) (h' : r₁.Logs r₂ (some note)) : r.Logs r₂ (some note) := by
  cases h with
  | same hlog hseq =>
    cases h' with
    | row row hlog' hseq' hnote hid =>
      exact .row row (by rw [hlog', hlog]) (by rw [hseq', hseq]) hnote (by rw [hid, hseq])

/-- A transaction appends the row it names and keeps the log as it is, unless
it is the prune. -/
theorem logs_apply (h : t.apply r now = .ok r')
    (hp : ∀ keep, t ≠ .pruneAuthFailureAuditBacklog keep) : r.Logs r' t.audits := by
  cases t with
  | createOrUpdateFile | upsertMetadataIndex | clearCurrentPath | updateCurrentPath
  | appendIngestTerminalEvent | setLivePhotoPairStatus => cases h; exact .same rfl rfl
  | upsertFileOrigin k account id hint => exact Registry.logs_upsertFileOrigin h
  | finalizeUnknownIngest k n name path account id src mt actor =>
    simp only [Tx.apply, Registry.finalizeUnknownIngest, bind, Except.bind] at h
    split at h
    · cases h
    · next r₁ h₁ =>
      cases h
      have hsame : r.Logs r₁ none := by
        cases Registry.logs_upsertFileOrigin h₁ with
        | same hlog hseq => exact .same hlog hseq
      exact hsame.after (Registry.logs_audit _ _ _ _ _ _ _)
  | finalizeKnownIngest k st account id src mt n actor =>
    simp only [Tx.apply, Registry.finalizeKnownIngest, bind, Except.bind] at h
    split at h
    · cases h
    · next r₁ h₁ =>
      cases h
      have hsame : r.Logs r₁ none := by
        cases Registry.logs_upsertFileOrigin h₁ with
        | same hlog hseq => exact .same hlog hseq
      exact hsame.after (Registry.logs_audit _ _ _ _ _ _ _)
  | finalizeAcceptFromPending k path account src actor reason =>
    simp only [Tx.apply, Registry.finalizeAcceptFromPending] at h
    split at h
    · cases h
    · split at h
      · cases h
      · cases h; exact .row _ rfl rfl rfl rfl
  | finalizePurgeFromRejected k reason actor =>
    simp only [Tx.apply, Registry.finalizePurgeFromRejected] at h
    split at h
    · cases h
    · split at h
      · cases h
      · cases h; exact .row _ rfl rfl rfl rfl
  | transitionStatus k st reason actor =>
    simp only [Tx.apply, Registry.transitionStatus] at h
    split at h
    · cases h
    · cases h; exact .row _ rfl rfl rfl rfl
  | appendAuditEvent | triageEvent => cases h; exact .row _ rfl rfl rfl rfl
  | upsertLivePhotoPair id account stem p v st =>
    simp only [Tx.apply, Registry.upsertLivePhotoPair] at h
    split at h
    · cases h; exact .same rfl rfl
    · cases h
  | triageApply a item key reason actor at_ =>
    simp only [Tx.apply, Registry.triageApply] at h
    split at h
    · cases h
    · split at h
      · cases h
      · cases h; exact .row _ rfl rfl rfl rfl
  | pruneAuthFailureAuditBacklog keep => exact absurd rfl (hp keep)

/-! ## `file_origins` -/

/-- The key of the origin row the transaction writes, and the hash. -/
def Tx.records : Tx → Option ((String × String) × String)
  | .upsertFileOrigin sha account id _ => some ((account, id), sha)
  | .finalizeUnknownIngest sha _ _ _ account id _ _ _ => some ((account, id), sha)
  | .finalizeKnownIngest sha _ account id _ _ _ _ => some ((account, id), sha)
  | _ => none

theorem Registry.fileOrigins_upsertFileOrigin {sha account id : String} {hint : Option String}
    (h : r.upsertFileOrigin sha account id hint now = .ok r') :
    ∃ row, row.sha256 = sha ∧ r'.fileOrigins = r.fileOrigins.put (account, id) row := by
  unfold Registry.upsertFileOrigin at h
  simp only at h
  split at h
  · cases h; exact ⟨_, rfl, rfl⟩
  · cases h

/-- A transaction points one remote item at a hash, or none. -/
theorem fileOrigins_apply (h : t.apply r now = .ok r') :
    match t.records with
      | some (key, sha) => ∃ row, row.sha256 = sha ∧ r'.fileOrigins = r.fileOrigins.put key row
      | none => r'.fileOrigins = r.fileOrigins := by
  cases t with
  | upsertFileOrigin k account id hint => exact Registry.fileOrigins_upsertFileOrigin h
  | finalizeUnknownIngest k n name path account id src mt actor =>
    simp only [Tx.apply, Registry.finalizeUnknownIngest, bind, Except.bind] at h
    split at h
    · cases h
    · next r₁ h₁ =>
      cases h
      obtain ⟨row, hrow, hf⟩ := Registry.fileOrigins_upsertFileOrigin h₁
      exact ⟨row, hrow, hf⟩
  | finalizeKnownIngest k st account id src mt n actor =>
    simp only [Tx.apply, Registry.finalizeKnownIngest, bind, Except.bind] at h
    split at h
    · cases h
    · next r₁ h₁ =>
      cases h
      obtain ⟨row, hrow, hf⟩ := Registry.fileOrigins_upsertFileOrigin h₁
      exact ⟨row, hrow, hf⟩
  | finalizeAcceptFromPending k path account src actor reason =>
    simp only [Tx.apply, Registry.finalizeAcceptFromPending] at h
    split at h
    · cases h
    · split at h <;> cases h; rfl
  | finalizePurgeFromRejected k reason actor =>
    simp only [Tx.apply, Registry.finalizePurgeFromRejected] at h
    split at h
    · cases h
    · split at h <;> cases h; rfl
  | transitionStatus k st reason actor =>
    simp only [Tx.apply, Registry.transitionStatus] at h
    split at h <;> cases h; rfl
  | upsertLivePhotoPair id account stem p v st =>
    simp only [Tx.apply, Registry.upsertLivePhotoPair] at h
    split at h <;> cases h; rfl
  | triageApply a item key reason actor at_ =>
    simp only [Tx.apply, Registry.triageApply] at h
    split at h
    · cases h
    · split at h <;> cases h; rfl
  | pruneAuthFailureAuditBacklog keep =>
    simp only [Tx.apply, Registry.pruneAuthFailureAuditBacklog] at h
    split at h
    · cases h
    · split at h <;> cases h <;> rfl
  | createOrUpdateFile | upsertMetadataIndex | clearCurrentPath | updateCurrentPath
  | appendAuditEvent | appendIngestTerminalEvent | setLivePhotoPairStatus | triageEvent =>
    cases h
    rfl

/-! ## `metadata_index` -/

/-- A row of `metadata_index` without its times. -/
structure IndexEntry where
  sizeBytes : Nat
  modifiedTime : String
  sha256 : String

/-- The row is this entry. -/
structure MetadataRow.Holds (row : MetadataRow) (e : IndexEntry) : Prop where
  size : row.sizeBytes = e.sizeBytes
  modified : row.modifiedTime = e.modifiedTime
  sha : row.sha256 = e.sha256

/-- The key of the index row the transaction writes, and the entry. -/
def Tx.indexes : Tx → Option ((String × String) × IndexEntry)
  | .upsertMetadataIndex account id n mt sha => some ((account, id), ⟨n, mt, sha⟩)
  | .finalizeUnknownIngest sha n _ _ account id _ mt _ => some ((account, id), ⟨n, mt, sha⟩)
  | .finalizeKnownIngest sha _ account id _ mt n _ => some ((account, id), ⟨n, mt, sha⟩)
  | _ => none

theorem Registry.metadataIndex_upsertMetadataIndex (r : Registry) (account id : String) (n : Nat)
    (mt sha now : String) : ∃ row, MetadataRow.Holds row ⟨n, mt, sha⟩ ∧
      (r.upsertMetadataIndex account id n mt sha now).metadataIndex =
        r.metadataIndex.put (account, id) row := ⟨_, ⟨rfl, rfl, rfl⟩, rfl⟩

theorem Registry.metadataIndex_upsertFile (r : Registry) (sha : String) (n : Nat) (st : Status)
    (name : Option String) (path : Option Path) (now : String) :
    (r.upsertFile sha n st name path now).metadataIndex = r.metadataIndex := by
  unfold Registry.upsertFile
  cases r.files.get sha <;> rfl

theorem Registry.metadataIndex_upsertFileOrigin {sha account id : String} {hint : Option String}
    (h : r.upsertFileOrigin sha account id hint now = .ok r') :
    r'.metadataIndex = r.metadataIndex := by
  unfold Registry.upsertFileOrigin at h
  simp only at h
  split at h
  · cases h; rfl
  · cases h

/-- A transaction indexes one sighting of a remote item, or none. -/
theorem metadataIndex_apply (h : t.apply r now = .ok r') :
    match t.indexes with
      | some (key, e) => ∃ row, row.Holds e ∧ r'.metadataIndex = r.metadataIndex.put key row
      | none => r'.metadataIndex = r.metadataIndex := by
  cases t with
  | upsertMetadataIndex account id n mt sha =>
    cases h
    exact Registry.metadataIndex_upsertMetadataIndex r account id n mt sha now
  | upsertFileOrigin k account id hint => exact Registry.metadataIndex_upsertFileOrigin h
  | createOrUpdateFile k n st name path =>
    cases h
    exact Registry.metadataIndex_upsertFile r k n st name path now
  | finalizeUnknownIngest k n name path account id src mt actor =>
    simp only [Tx.apply, Registry.finalizeUnknownIngest, bind, Except.bind] at h
    split at h
    · cases h
    · next r₁ h₁ =>
      cases h
      obtain ⟨row, hrow, hput⟩ := Registry.metadataIndex_upsertMetadataIndex
        (r.upsertFile k n .pending (some name) (some path) now) account id n mt k now
      rw [Registry.metadataIndex_upsertFile] at hput
      exact ⟨row, hrow, (Registry.metadataIndex_upsertFileOrigin h₁).trans hput⟩
  | finalizeKnownIngest k st account id src mt n actor =>
    simp only [Tx.apply, Registry.finalizeKnownIngest, bind, Except.bind] at h
    split at h
    · cases h
    · next r₁ h₁ =>
      cases h
      obtain ⟨row, hrow, hput⟩ :=
        Registry.metadataIndex_upsertMetadataIndex r account id n mt k now
      exact ⟨row, hrow, (Registry.metadataIndex_upsertFileOrigin h₁).trans hput⟩
  | finalizeAcceptFromPending k path account src actor reason =>
    simp only [Tx.apply, Registry.finalizeAcceptFromPending] at h
    split at h
    · cases h
    · split at h <;> cases h; rfl
  | finalizePurgeFromRejected k reason actor =>
    simp only [Tx.apply, Registry.finalizePurgeFromRejected] at h
    split at h
    · cases h
    · split at h <;> cases h; rfl
  | transitionStatus k st reason actor =>
    simp only [Tx.apply, Registry.transitionStatus] at h
    split at h <;> cases h; rfl
  | upsertLivePhotoPair id account stem p v st =>
    simp only [Tx.apply, Registry.upsertLivePhotoPair] at h
    split at h <;> cases h; rfl
  | triageApply a item key reason actor at_ =>
    simp only [Tx.apply, Registry.triageApply] at h
    split at h
    · cases h
    · split at h <;> cases h; rfl
  | pruneAuthFailureAuditBacklog keep =>
    simp only [Tx.apply, Registry.pruneAuthFailureAuditBacklog] at h
    split at h
    · cases h
    · split at h <;> cases h <;> rfl
  | clearCurrentPath | updateCurrentPath | appendAuditEvent | appendIngestTerminalEvent
  | setLivePhotoPairStatus | triageEvent =>
    cases h
    rfl

/-! ## `live_photo_pairs` and `blocked_rules` -/

/-- Does the transaction write a row of `live_photo_pairs`. -/
def Tx.writesPairs : Tx → Bool
  | .upsertLivePhotoPair _ _ _ _ _ _ => true
  | .setLivePhotoPairStatus _ _ => true
  | _ => false

/-- Neither the rules nor, unless the transaction writes them, the pairs change. -/
structure Registry.Framed (r r' : Registry) (pairs : Bool) : Prop where
  rules : r'.blockedRules = r.blockedRules
  pairs : pairs = false → r'.livePhotoPairs = r.livePhotoPairs

theorem Registry.Framed.same {pairs : Bool} (hrules : r'.blockedRules = r.blockedRules)
    (hpairs : r'.livePhotoPairs = r.livePhotoPairs) : r.Framed r' pairs := ⟨hrules, fun _ => hpairs⟩

theorem Registry.framed_upsertFile (r : Registry) (sha : String) (n : Nat) (st : Status)
    (name : Option String) (path : Option Path) (now : String) :
    r.Framed (r.upsertFile sha n st name path now) false := by
  unfold Registry.upsertFile
  cases r.files.get sha <;> exact .same rfl rfl

theorem Registry.framed_upsertFileOrigin {sha account id : String} {hint : Option String}
    (h : r.upsertFileOrigin sha account id hint now = .ok r') : r.Framed r' false := by
  unfold Registry.upsertFileOrigin at h
  simp only at h
  split at h
  · cases h; exact .same rfl rfl
  · cases h

theorem framed_apply (h : t.apply r now = .ok r') : r.Framed r' t.writesPairs := by
  cases t with
  | createOrUpdateFile k n st name path =>
    cases h
    exact Registry.framed_upsertFile r k n st name path now
  | upsertFileOrigin => exact Registry.framed_upsertFileOrigin h
  | finalizeUnknownIngest k n name path account id src mt actor =>
    simp only [Tx.apply, Registry.finalizeUnknownIngest, bind, Except.bind] at h
    split at h
    · cases h
    · next r₁ h₁ =>
      cases h
      have hfile := Registry.framed_upsertFile r k n .pending (some name) (some path) now
      have horigin := Registry.framed_upsertFileOrigin h₁
      exact .same (horigin.rules.trans hfile.rules) ((horigin.pairs rfl).trans (hfile.pairs rfl))
  | finalizeKnownIngest =>
    simp only [Tx.apply, Registry.finalizeKnownIngest, bind, Except.bind] at h
    split at h
    · cases h
    · next r₁ h₁ =>
      cases h
      have horigin := Registry.framed_upsertFileOrigin h₁
      exact .same horigin.rules (horigin.pairs rfl)
  | finalizeAcceptFromPending =>
    simp only [Tx.apply, Registry.finalizeAcceptFromPending] at h
    split at h
    · cases h
    · split at h <;> cases h; exact .same rfl rfl
  | finalizePurgeFromRejected =>
    simp only [Tx.apply, Registry.finalizePurgeFromRejected] at h
    split at h
    · cases h
    · split at h <;> cases h; exact .same rfl rfl
  | transitionStatus =>
    simp only [Tx.apply, Registry.transitionStatus] at h
    split at h <;> cases h; exact .same rfl rfl
  | upsertLivePhotoPair =>
    simp only [Tx.apply, Registry.upsertLivePhotoPair] at h
    split at h <;> cases h; exact ⟨rfl, fun hpairs => by cases hpairs⟩
  | triageApply =>
    simp only [Tx.apply, Registry.triageApply] at h
    split at h
    · cases h
    · split at h <;> cases h; exact .same rfl rfl
  | pruneAuthFailureAuditBacklog =>
    simp only [Tx.apply, Registry.pruneAuthFailureAuditBacklog] at h
    split at h
    · cases h
    · split at h <;> cases h <;> exact .same rfl rfl
  | setLivePhotoPairStatus => cases h; exact ⟨rfl, fun hpairs => by cases hpairs⟩
  | upsertMetadataIndex | clearCurrentPath | updateCurrentPath | appendAuditEvent
  | appendIngestTerminalEvent | triageEvent =>
    cases h
    exact .same rfl rfl

/-- The other transactions leave the pairs alone. -/
theorem livePhotoPairs_apply (h : t.apply r now = .ok r') (ht : t.writesPairs = false) :
    r'.livePhotoPairs = r.livePhotoPairs := (framed_apply h).pairs ht

end Nightfall
