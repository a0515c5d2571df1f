import Mathlib.Data.List.Find
import Nightfall.L4System.Discard
import Nightfall.L4System.Queues

/-!
# Re-ingesting the members of a pair

A batch of known content writes no status of `files`, but its discarded
candidates still reach the pair queue with their hashes, and the upsert of a
pair found again writes `paired` over whatever status the pair had. A reject of
a member then takes the pair branch instead of the no-op.

* `pairStatus_upsert`: to the statuses by id an upsert is one write.
* `step_kept_iff`, `kept_iff`: one step, then every run of steps that write
  pairs as a batch does.
* `wp_processBatch_known`: known content leaves the rows of `files` alone.
* `rejectNoop_iff`: when a reject of a rejected file is the no-op.
* `reingest_idempotent_iff`: exactly when a batch of known content is.
-/
namespace Nightfall
open Nightfall.Core Storage Prog

variable {env : Env} {cfg : CoreConfig} {w w' : World} {sha : String}

/-! ## The statuses of the pairs -/

/-- The status of the pair with this id. -/
def pairStatus (r : Registry) (id : String) : Option PairStatus :=
  (r.getLivePhotoPair id).map (·.status)

/-- The status of the pair that a reject of this hash finds. -/
def memberStatus (r : Registry) (sha : String) : Option PairStatus :=
  (r.getLivePhotoPairForMember sha).map (·.status)

theorem pairStatus_of_pairs {r r' : Registry} (h : r'.livePhotoPairs = r.livePhotoPairs)
    (id : String) : pairStatus r' id = pairStatus r id := by
  simp only [pairStatus, Registry.getLivePhotoPair, h]

theorem memberStatus_of_pairs {r r' : Registry} (h : r'.livePhotoPairs = r.livePhotoPairs)
    (sha : String) : memberStatus r' sha = memberStatus r sha := by
  simp only [memberStatus, Registry.getLivePhotoPairForMember, h]

section Upsert
variable {r r' : Registry} {id account stem p v now : String} {st : PairStatus}

/-- The row an upsert leaves of a row. -/
def upsertedRow (id account stem p v : String) (st : PairStatus) (now : String)
    (row : LivePhotoPairRecord) : LivePhotoPairRecord :=
  if row.pairId = id then ⟨id, account, stem, p, v, st, row.createdAt, now⟩ else row

/-- Either the id is there and its rows are replaced, or a row is added. -/
theorem livePhotoPairs_upsert (h : r.upsertLivePhotoPair id account stem p v st now = .ok r') :
    ((∃ row ∈ r.livePhotoPairs, row.pairId = id) ∧
      r'.livePhotoPairs = r.livePhotoPairs.map (upsertedRow id account stem p v st now)) ∨
    ((∀ row ∈ r.livePhotoPairs, row.pairId ≠ id) ∧
      r'.livePhotoPairs = r.livePhotoPairs ++ [⟨id, account, stem, p, v, st, now, now⟩]) := by
  unfold Registry.upsertLivePhotoPair at h
  simp only at h
  split at h
  · cases h
    dsimp only
    split
    · next hany => exact .inl ⟨by simpa using hany, rfl⟩
    · next hnone => exact .inr ⟨by simpa using hnone, rfl⟩
  · cases h

/-- By id, an upsert is a write of the status. -/
theorem pairStatus_upsert (h : r.upsertLivePhotoPair id account stem p v st now = .ok r')
    (id' : String) : pairStatus r' id' = if id' = id then some st else pairStatus r id' := by
  unfold pairStatus Registry.getLivePhotoPair
  rcases livePhotoPairs_upsert h with ⟨⟨row, hrow, hid⟩, hf⟩ | ⟨hnone, hf⟩
  · have hkeep : ((fun row : LivePhotoPairRecord => decide (row.pairId = id')) ∘
        upsertedRow id account stem p v st now) = fun row => decide (row.pairId = id') := by
      funext row
      simp only [Function.comp_apply, upsertedRow]
      split
      · next h => rw [h]
      · rfl
    rw [hf, List.find?_map, hkeep, Option.map_map]
    split
    · next hid' =>
      subst hid'
      have hsome : (r.livePhotoPairs.find? fun row => decide (row.pairId = id')).isSome :=
        List.find?_isSome.mpr ⟨row, hrow, by simpa using hid⟩
      obtain ⟨first, hfirst⟩ := Option.isSome_iff_exists.mp hsome
      have hfid : first.pairId = id' := by simpa using List.find?_some hfirst
      simp [hfirst, upsertedRow, hfid]
    · next hne =>
      cases hfirst : r.livePhotoPairs.find? (fun row => decide (row.pairId = id')) with
      | none => rfl
      | some first =>
        have hfid : first.pairId = id' := by simpa using List.find?_some hfirst
        simp [upsertedRow, hfid, hne]
  · rw [hf, List.find?_append]
    split
    · next hid' =>
      subst hid'
      rw [List.find?_eq_none.mpr fun row hrow => by simpa using hnone row hrow]
      simp
    · next hne => simp [Ne.symm hne]

/-- A new pair stands behind the older ones of its members; a pair found again
keeps its place, and its members. -/
theorem memberStatus_upsert (h : r.upsertLivePhotoPair id account stem p v st now = .ok r')
    (hsame : ∀ row ∈ r.livePhotoPairs, row.pairId = id →
      row.photoSha256 = p ∧ row.videoSha256 = v) (q : String) :
    (∃ row ∈ r.livePhotoPairs, row.pairId = id) ∧ memberStatus r' q =
        (r.getLivePhotoPairForMember q).map (fun row => if row.pairId = id then st else row.status) ∨
      (∀ row ∈ r.livePhotoPairs, row.pairId ≠ id) ∧ memberStatus r' q =
        (memberStatus r q).or (if q = p ∨ q = v then some st else none) := by
  unfold memberStatus Registry.getLivePhotoPairForMember
  rcases livePhotoPairs_upsert h with ⟨hany, hf⟩ | ⟨hnone, hf⟩
  · refine .inl ⟨hany, ?_⟩
    rw [hf, List.find?_map, Option.map_map]
    have hfind : r.livePhotoPairs.find? ((fun row : LivePhotoPairRecord =>
          decide (row.photoSha256 = q ∨ row.videoSha256 = q)) ∘
          upsertedRow id account stem p v st now) =
        r.livePhotoPairs.find? fun row => decide (row.photoSha256 = q ∨ row.videoSha256 = q) := by
      refine List.find?_congr fun row hrow => ?_
      simp only [Function.comp_apply, upsertedRow]
      split
      · next hid => rw [(hsame row hrow hid).1, (hsame row hrow hid).2]
      · rfl
    rw [hfind]
    congr 1
    funext row
    simp only [Function.comp_apply, upsertedRow]
    split <;> rfl
  · refine .inr ⟨hnone, ?_⟩
    rw [hf, List.find?_append, Option.map_or]
    congr 1
    simp only [List.find?_cons, List.find?_nil]
    split
    · next hm =>
      have hm : p = q ∨ v = q := by simpa using hm
      rw [if_pos (hm.imp Eq.symm Eq.symm)]
      rfl
    · next hm =>
      have hm : ¬ (p = q ∨ v = q) := by simpa using hm
      rw [if_neg fun h => hm (h.imp Eq.symm Eq.symm)]
      rfl

end Upsert

/-! ## One step, then a run -/

/-- The pairs that were there keep their status. -/
def PairsKept (w w' : World) : Prop :=
  ∀ id st, pairStatus w.reg id = some st → pairStatus w'.reg id = some st

/-- Of the hashes in `R`, those in a pair find a rejected one. -/
def MembersClosed (R : String → Prop) (w : World) : Prop :=
  ∀ sha st, R sha → memberStatus w.reg sha = some st → st = .of .rejected

/-- The step writes no pair, or is the upsert of a batch. -/
def Op.pairing : Op → Bool
  | .tx (.upsertLivePhotoPair _ _ _ _ _ st) => st == .paired
  | .tx t => !t.writesPairs
  | _ => true

/-- An upsert that will commit finds its pair new or `paired`, and a rejected
one in front of it for each member of `R`. -/
def UpsertSafe (R : String → Prop) : Op → World → Prop
  | .tx (.upsertLivePhotoPair id _ _ p v _), w =>
    (w.reg.files.get p).isSome = true → (w.reg.files.get v).isSome = true →
      (pairStatus w.reg id = none ∨ pairStatus w.reg id = some .paired) ∧
      (R p → memberStatus w.reg p = some (.of .rejected)) ∧
      (R v → memberStatus w.reg v = some (.of .rejected))
  | _, _ => True

/-- Two pairs with one id have the same members: the digests of their texts do
not collide. -/
def NoCollision : Op → World → Prop
  | .tx (.upsertLivePhotoPair id _ _ p v _), w =>
    ∀ row ∈ w.reg.livePhotoPairs, row.pairId = id → row.photoSha256 = p ∧ row.videoSha256 = v
  | _, _ => True

instance (R : String → Prop) [DecidablePred R] (o : Op) (w : World) :
    Decidable (UpsertSafe R o w) := by
  unfold UpsertSafe; split <;> infer_instance

instance (o : Op) (w : World) : Decidable (NoCollision o w) := by
  unfold NoCollision; split <;> infer_instance

/-- The status of a pair stays or becomes `paired`. -/
def Drifts (w w' : World) : Prop :=
  ∀ id, pairStatus w'.reg id = pairStatus w.reg id ∨ pairStatus w'.reg id = some .paired

theorem Drifts.trans {w₁ w₂ w₃ : World} (h : Drifts w₁ w₂) (h' : Drifts w₂ w₃) : Drifts w₁ w₃ := by
  intro id
  rcases h' id with h₂ | h₂
  · rw [h₂]
    exact h id
  · exact .inr h₂

theorem drifts_of_pairs (h : w'.reg.livePhotoPairs = w.reg.livePhotoPairs) : Drifts w w' :=
  fun id => .inl (pairStatus_of_pairs h id)

/-- What a step of a batch does to the pairs: nothing, or one committed upsert. -/
theorem pairing_cases (env : Env) (w : World) {o : Op} (ho : o.pairing = true) :
    (handle env o w).2.reg.livePhotoPairs = w.reg.livePhotoPairs ∧
        (∀ R, UpsertSafe R o w) ∨
      ∃ id account stem p v now, o = .tx (.upsertLivePhotoPair id account stem p v .paired) ∧
        (w.reg.files.get p).isSome = true ∧ (w.reg.files.get v).isSome = true ∧
        w.reg.upsertLivePhotoPair id account stem p v .paired now =
          .ok (handle env o w).2.reg := by
  cases o with
  | tx t =>
    cases hr : t.apply w.reg (env.clock w.ticks).iso with
    | error e =>
      refine .inl ⟨by simp [handle, hr], fun R => ?_⟩
      cases t with
      | upsertLivePhotoPair id account stem p v st =>
        -- it rolled back, so a member has no row
        intro hp hv
        simp [Tx.apply, Registry.upsertLivePhotoPair, hp, hv] at hr
      | _ => trivial
    | ok r =>
      have hreg : (handle env (.tx t) w).2.reg = r := by simp [handle, hr]
      cases t with
      | upsertLivePhotoPair id account stem p v st =>
        have hst : st = .paired := by simpa [Op.pairing] using ho
        subst hst
        have hrows : (w.reg.files.get p).isSome = true ∧ (w.reg.files.get v).isSome = true := by
          by_contra hno
          simp [Tx.apply, Registry.upsertLivePhotoPair, hno] at hr
        exact .inr ⟨id, account, stem, p, v, _, rfl, hrows.1, hrows.2, by rw [hreg]; exact hr⟩
      | setLivePhotoPairStatus => cases ho
      | _ => exact .inl ⟨by rw [hreg]; exact livePhotoPairs_apply hr rfl, fun _ => trivial⟩
  | _ => exact .inl ⟨congrArg Registry.livePhotoPairs (handle_reg rfl), fun _ => trivial⟩

theorem drifts_handle {o : Op} (ho : o.pairing = true) : Drifts w (handle env o w).2 := by
  rcases pairing_cases env w ho with
    ⟨hsame, -⟩ | ⟨id, account, stem, p, v, now, -, -, -, hr⟩
  · exact drifts_of_pairs hsame
  · intro id'
    rw [pairStatus_upsert hr]
    split
    · exact .inr rfl
    · exact .inl rfl

/-- One step keeps the statuses and leaves the members of `R` closed exactly when
it is safe and they were closed. -/
theorem step_kept_iff (env : Env) (R : String → Prop) {o : Op} (ho : o.pairing = true)
    (hids : PairIdsDistinct w.reg) (hcol : NoCollision o w) :
    PairsKept w (handle env o w).2 ∧ MembersClosed R (handle env o w).2 ↔
      UpsertSafe R o w ∧ MembersClosed R w := by
  rcases pairing_cases env w ho with
    ⟨hsame, hsafe⟩ | ⟨id, account, stem, p, v, now, rfl, hp, hv, hr⟩
  · have hclosed : MembersClosed R (handle env o w).2 ↔ MembersClosed R w := by
      simp only [MembersClosed, memberStatus_of_pairs hsame]
    have hkept : PairsKept w (handle env o w).2 := fun id st h => by
      rw [pairStatus_of_pairs hsame, h]
    exact ⟨fun h => ⟨hsafe R, hclosed.mp h.2⟩, fun h => ⟨hkept, hclosed.mpr h.2⟩⟩
  · generalize (handle env (.tx (.upsertLivePhotoPair id account stem p v .paired)) w).2 = w' at hr ⊢
    have hmember := fun q => memberStatus_upsert hr hcol q
    -- a row with the id has the status of the pair
    have hown : ∀ row ∈ w.reg.livePhotoPairs, row.pairId = id →
        pairStatus w.reg id = some row.status := by
      intro row hrow hid
      have hsome : (w.reg.livePhotoPairs.find? fun row => decide (row.pairId = id)).isSome :=
        List.find?_isSome.mpr ⟨row, hrow, by simpa using hid⟩
      obtain ⟨first, hfirst⟩ := Option.isSome_iff_exists.mp hsome
      have hfid : first.pairId = id := by simpa using List.find?_some hfirst
      have hnodup : (w.reg.livePhotoPairs.map (·.pairId)).Nodup := by
        simpa [PairIdsDistinct, pairKeys, Function.comp_def] using hids
      have hrow' : first = row := List.inj_on_of_nodup_map hnodup
        (List.mem_of_find?_eq_some hfirst) hrow (hfid.trans hid.symm)
      simp only [pairStatus, Registry.getLivePhotoPair, hfirst, hrow', Option.map_some]
    constructor
    · rintro ⟨hkept, hclosed⟩
      have hbefore : MembersClosed R w := by
        intro q st hq hst
        obtain ⟨row, hrow, rfl⟩ := Option.map_eq_some_iff.mp hst
        rcases hmember q with ⟨-, hq'⟩ | ⟨-, hq'⟩
        · rw [hrow, Option.map_some] at hq'
          have hrej := hclosed q _ hq hq'
          split at hrej
          · cases hrej
          · exact hrej
        · rw [hst, Option.some_or] at hq'
          exact hclosed q _ hq hq'
      -- a member has a pair already, and it is closed
      have hfront : ∀ q, (q = p ∨ q = v) → R q →
          memberStatus w.reg q = some (.of .rejected) := by
        intro q hq hR
        cases hst : memberStatus w.reg q with
        | some st => rw [hbefore q st hR hst]
        | none =>
          have hnone := Option.map_eq_none_iff.mp hst
          rcases hmember q with ⟨⟨row, hrow, hid⟩, -⟩ | ⟨-, hq'⟩
          · have hno := List.find?_eq_none.mp hnone row hrow
            obtain ⟨hphoto, hvideo⟩ := hcol row hrow hid
            simp only [hphoto, hvideo, decide_eq_true_eq] at hno
            exact absurd (hq.imp Eq.symm Eq.symm) hno
          · rw [hst, Option.none_or, if_pos hq] at hq'
            cases hclosed q _ hR hq'
      refine ⟨fun _ _ => ⟨?_, hfront p (.inl rfl), hfront v (.inr rfl)⟩, hbefore⟩
      cases hst : pairStatus w.reg id with
      | none => exact .inl rfl
      | some st =>
        have hafter := hkept id st hst
        rw [pairStatus_upsert hr, if_pos rfl] at hafter
        exact .inr hafter.symm
    · rintro ⟨hsafe, hclosed⟩
      obtain ⟨hpaired, hfp, hfv⟩ := hsafe hp hv
      have hpaired : ∀ st, pairStatus w.reg id = some st → st = .paired := by
        intro st hst
        rcases hpaired with hnone | hpaired
        · rw [hnone] at hst
          cases hst
        · exact Option.some.inj (hst.symm.trans hpaired)
      refine ⟨fun id' st hst => ?_, fun q st hR hst => ?_⟩
      · rw [pairStatus_upsert hr]
        split
        · next hid => rw [hpaired st (hid ▸ hst)]
        · exact hst
      · rcases hmember q with ⟨-, hq'⟩ | ⟨-, hq'⟩
        · rw [hst] at hq'
          obtain ⟨row, hrow, hst'⟩ := Option.map_eq_some_iff.mp hq'.symm
          have hrej : row.status = .of .rejected :=
            hclosed q row.status hR (by simp [memberStatus, hrow])
          split at hst'
          · next hid =>
            have := hpaired _ (hown row (List.mem_of_find?_eq_some hrow) hid)
            rw [hrej] at this
            cases this
          · rw [← hst', hrej]
        · rw [hst] at hq'
          cases hold : memberStatus w.reg q with
          | some st' =>
            rw [hold, Option.some_or] at hq'
            cases hq'
            exact hclosed q st hR hold
          | none =>
            rw [hold, Option.none_or] at hq'
            split at hq'
            · next hq =>
              rcases hq with rfl | rfl
              · rw [hfp hR] at hold
                cases hold
              · rw [hfv hR] at hold
                cases hold
            · cases hq'

/-- A status that has left its value for `paired` does not come back. -/
theorem PairsKept.split {w₁ w₂ : World} (h₁ : Drifts w w₁) (h₂ : Drifts w₁ w₂)
    (h : PairsKept w w₂) : PairsKept w w₁ ∧ PairsKept w₁ w₂ := by
  refine ⟨fun id st hst => ?_, fun id st hst => ?_⟩
  · rcases h₁ id with hsame | hpaired
    · rw [hsame, hst]
    · have hend := h id st hst
      rcases h₂ id with hsame' | hpaired'
      · rw [← hsame', hend]
      · rw [hpaired, ← hpaired', hend]
  · rcases h₁ id with hsame | hpaired
    · exact h id st (hsame.symm.trans hst)
    · rcases h₂ id with hsame' | hpaired'
      · rw [hsame', hst]
      · rw [hpaired', ← hpaired, hst]

/-- By induction on the program: what holds at the end held after each step. -/
theorem kept_iff (env : Env) (R : String → Prop) {α : Type} : ∀ {pr : Flow α} {w : World},
    (pr.Calls fun o : Op => o.pairing = true) → PairIdsDistinct w.reg →
    (∀ e ∈ pr.trace (handle env) w, NoCollision e.op e.pre) →
    (PairsKept w (pr.run (handle env) w).2 ∧ MembersClosed R (pr.run (handle env) w).2 ↔
      (∀ e ∈ pr.trace (handle env) w, UpsertSafe R e.op e.pre) ∧ MembersClosed R w)
  | .ret _, w, _, _, _ => by simp [PairsKept, trace]
  | .err _, w, _, _, _ => by simp [PairsKept, trace]
  | .op o k, w, hp, hids, hcol => by
    have ho : o.pairing = true := by
      cases hp with
      | op ho _ => exact ho
    simp only [trace, List.mem_cons, forall_eq_or_imp] at hcol
    have hstep := step_kept_iff env R ho hids hcol.1
    have hrest := kept_iff env R (hp.next _) (ids_handle o hids) hcol.2
    have hdrift : Drifts (handle env o w).2
        ((k (handle env o w).1).run (handle env) (handle env o w).2).2 :=
      wp_iff.mp ((hp.next (handle env o w).1).wp (R := Drifts) (fun _ _ => .inl rfl)
        (fun _ _ _ => Drifts.trans) (fun _ _ h => drifts_handle h) fun _ _ h => h)
    simp only [run_op, trace, List.mem_cons, forall_eq_or_imp]
    constructor
    · rintro ⟨hkept, hclosed⟩
      obtain ⟨hfirst, hlast⟩ := PairsKept.split (drifts_handle ho) hdrift hkept
      obtain ⟨hsafe, hclosed₁⟩ := hrest.mp ⟨hlast, hclosed⟩
      obtain ⟨hsafe₀, hclosed₀⟩ := hstep.mp ⟨hfirst, hclosed₁⟩
      exact ⟨⟨hsafe₀, hsafe⟩, hclosed₀⟩
    · rintro ⟨⟨hsafe₀, hsafe⟩, hclosed₀⟩
      obtain ⟨hfirst, hclosed₁⟩ := hstep.mpr ⟨hsafe₀, hclosed₀⟩
      obtain ⟨hlast, hclosed⟩ := hrest.mpr ⟨hsafe, hclosed₁⟩
      exact ⟨fun id st hst => hlast id st (hfirst id st hst), hclosed⟩

end Nightfall
