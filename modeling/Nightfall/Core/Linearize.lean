import Nightfall.Core.Pool

/-!
# Calls that take effect in one step

The parties of a pool are calls on a shared object. The operations of a call look
around, and its last one is where it takes effect: until then the object stays as
it was. Whatever the interleaving, the object then passes through the states of a
serial run, in which every finished call stands at its last operation.

* `SerialRun`: calls one after the other, each within its specification.
* `endings`: the calls that end along a trace, in the order of their last operations.
* `LastStep`: every operation of a program but the last leaves the object alone, and
  the last one is within the specification. What `cond` says may be used of each
  operation; it sees the operations of the call so far.
* `serial_run`: every run of such calls is a serial run of its endings.
* `mem_endings`: these are the calls that have ended.
* `run_kept`: what every step keeps, a run keeps.
* `pairwise_claim`: steps that take a token which is never given back are made at most
  once for each token.
-/
namespace Nightfall.Core
variable {S : Sig} {ι : Type} {ε σ ω β : Type}

/-- Calls one after the other, with what each of them answers. -/
inductive SerialRun (spec : ι → ω → Except ε β → ω → Prop) : ω → List (ι × Except ε β) → ω → Prop
  | nil {a : ω} : SerialRun spec a [] a
  | cons {a b c : ω} {i : ι} {r : Except ε β} {l : List (ι × Except ε β)} (h : spec i a r b)
      (hl : SerialRun spec b l c) : SerialRun spec a ((i, r) :: l) c

section Serial
variable {spec : ι → ω → Except ε β → ω → Prop}

/-- What every call keeps, a serial run keeps. -/
theorem SerialRun.inv {I : ω → Prop} {a b : ω} {l : List (ι × Except ε β)}
    (h : SerialRun spec a l b) (hI : ∀ i a r b, spec i a r b → I a → I b) : I a → I b := by
  induction h with
  | nil => exact id
  | cons h _ ih => exact fun ha => ih (hI _ _ _ _ h ha)

theorem SerialRun.mono {spec' : ι → ω → Except ε β → ω → Prop} {a b : ω}
    {l : List (ι × Except ε β)} (h : SerialRun spec a l b)
    (himp : ∀ i a r b, spec i a r b → spec' i a r b) : SerialRun spec' a l b := by
  induction h with
  | nil => exact .nil
  | cons h _ ih => exact .cons (himp _ _ _ _ h) ih

/-- What a call brings about and later calls keep holds at the end. -/
theorem SerialRun.brought {I : ω → Prop} {a b : ω} {l : List (ι × Except ε β)}
    (h : SerialRun spec a l b) {i : ι} {r : Except ε β} (hmem : (i, r) ∈ l)
    (hI : ∀ j a r b, spec j a r b → I a → I b) (hcall : ∀ a b, spec i a r b → I b) : I b := by
  induction h with
  | nil => cases hmem
  | cons h hl ih =>
    rcases List.mem_cons.mp hmem with heq | hmem
    · obtain ⟨rfl, rfl⟩ := Prod.mk.inj heq
      exact hl.inv hI (hcall _ _ h)
    · exact ih hmem

end Serial

/-! ## Where the calls of a trace end -/

section Endings
variable {H : Handler S σ}

/-- The program behind an operation that found the state `s`. -/
def Prog.after {γ : Type} (H : Handler S σ) (s : σ) : Prog S ε γ → Prog S ε γ
  | .op o k => k (H o s).1
  | p => p

@[simp] theorem Prog.after_op {γ : Type} {s : σ} {o : S.Op} {k : S.Res o → Prog S ε γ} :
    (Prog.op o k).after H s = k (H o s).1 := rfl

theorem Prog.run_of_ended {γ : Type} {p : Prog S ε γ} {r : Except ε γ} (h : p.result = some r)
    (s : σ) : p.run H s = (r, s) := by
  cases p with
  | ret a | err e =>
    cases h
    rfl
  | op o k => cases h

/-- The result of a party that ends here, with its name. -/
def ending (i : ι) (p : Prog S ε β) : List (ι × Except ε β) := p.result.toList.map (i, ·)

/-- The calls that end along the trace, in the order of their last operations. -/
def endings [DecidableEq ι] (H : Handler S σ) : Pool ι S ε (fun _ => β) → List (ι × Event S σ) →
    List (ι × Except ε β)
  | _, [] => []
  | P, (i, e) :: t =>
    let p := (P i).after H e.pre
    ending i p ++ endings H (P.set i p) t

theorem mem_ending {i j : ι} {p : Prog S ε β} {r : Except ε β} :
    (j, r) ∈ ending i p ↔ j = i ∧ p.result = some r := by
  simp only [ending, List.mem_map, Option.mem_toList, Prod.mk.injEq]
  constructor
  · rintro ⟨r', hr, rfl, rfl⟩
    exact ⟨rfl, hr⟩
  · rintro ⟨rfl, hr⟩
    exact ⟨r, hr, rfl, rfl⟩

/-- A party that has ended stays as it is. -/
theorem result_stays [DecidableEq ι] {P P' : Pool ι S ε fun _ => β} {s s' : σ}
    {t : List (ι × Event S σ)} (hrun : Run H P s t P' s') {i : ι} {r : Except ε β} :
    (P i).result = some r → (P' i).result = some r := by
  induction hrun with
  | refl => exact id
  | step j o k hop rest ih =>
    intro hP
    refine ih ?_
    have hne : i ≠ j := by
      rintro rfl
      rw [hop] at hP
      cases hP
    rwa [Pool.set_ne _ hne]

/-- The endings are the calls that were not finished before and are now. -/
theorem mem_endings [DecidableEq ι] {P P' : Pool ι S ε fun _ => β} {s s' : σ}
    {t : List (ι × Event S σ)} (hrun : Run H P s t P' s') {i : ι} {r : Except ε β} :
    (i, r) ∈ endings H P t ↔ (P i).result = none ∧ (P' i).result = some r := by
  induction hrun with
  | refl P s =>
    simp only [endings, List.not_mem_nil, false_iff, not_and]
    intro hnone hsome
    rw [hnone] at hsome
    cases hsome
  | @step P P' s s' t j o k hop rest ih =>
    simp only [endings, hop, Prog.after_op, List.mem_append, mem_ending, ih]
    by_cases hij : i = j
    · subst hij
      rw [Pool.set_self, hop]
      cases hres : (k (H o s).1).result with
      | none => simp [Prog.result]
      | some r' =>
        have hend : (P' i).result = some r' := result_stays rest (by rwa [Pool.set_self])
        rw [hend]
        simp [Prog.result]
    · rw [Pool.set_ne _ hij]
      simp [hij]

end Endings

/-! ## Serial runs -/

variable [DecidableEq ι]

/-- Every operation but the last leaves the object `abs` of the state alone, and the
last one takes effect within `spec`. -/
def LastStep (H : Handler S σ) (abs : σ → ω) (cond : List (Event S σ) → S.Op → σ → Prop)
    (spec : ω → Except ε β → ω → Prop) : Prog S ε β → List (Event S σ) → Prop
  | .op o k, h => ∀ s, cond h o s →
      ((k (H o s).1).result = none → abs (H o s).2 = abs s) ∧
      (∀ r, (k (H o s).1).result = some r → spec (abs s) r (abs (H o s).2)) ∧
      LastStep H abs cond spec (k (H o s).1) (h ++ [⟨o, s, (H o s).2⟩])
  | _, _ => True

/-- Every operation of the trace meets the condition of its own call; `h` gives the
operations of each call so far. -/
def Meet (cond : ι → List (Event S σ) → S.Op → σ → Prop) :
    (ι → List (Event S σ)) → List (ι × Event S σ) → Prop
  | _, [] => True
  | h, (i, e) :: t =>
    cond i (h i) e.op e.pre ∧ Meet cond (Function.update h i (h i ++ [e])) t

instance decidableMeet {cond : ι → List (Event S σ) → S.Op → σ → Prop}
    [∀ i h o s, Decidable (cond i h o s)] : ∀ (h : ι → List (Event S σ))
    (t : List (ι × Event S σ)), Decidable (Meet cond h t)
  | _, [] => inferInstanceAs (Decidable True)
  | h, (i, e) :: t =>
    have : Decidable (Meet cond (Function.update h i (h i ++ [e])) t) := decidableMeet _ t
    inferInstanceAs (Decidable (_ ∧ _))

theorem meet_of_forall {cond : ι → List (Event S σ) → S.Op → σ → Prop}
    (hc : ∀ i h o s, cond i h o s) : ∀ {t : List (ι × Event S σ)} {h : ι → List (Event S σ)},
    Meet cond h t
  | [], _ => trivial
  | (_, _) :: _, _ => ⟨hc _ _ _ _, meet_of_forall hc⟩

section Main
variable {H : Handler S σ} {abs : σ → ω} {cond : ι → List (Event S σ) → S.Op → σ → Prop}
  {spec : ι → ω → Except ε β → ω → Prop}

/-- A call by itself is within its specification. -/
theorem lastStep_run {cond : List (Event S σ) → S.Op → σ → Prop}
    {spec : ω → Except ε β → ω → Prop} (hc : ∀ h o s, cond h o s) :
    ∀ {p : Prog S ε β} {h : List (Event S σ)} {s : σ}, LastStep H abs cond spec p h →
      p.result = none → spec (abs s) (p.run H s).1 (abs (p.run H s).2)
  | .op o k, h, s, hp, _ => by
    obtain ⟨hquiet, hend, hrest⟩ := hp s (hc _ _ _)
    cases hres : (k (H o s).1).result with
    | none =>
      rw [← hquiet hres]
      exact lastStep_run hc hrest hres
    | some r =>
      rw [Prog.run_op, Prog.run_of_ended hres]
      exact hend r hres

/-- Whatever the interleaving, the object goes through a serial run of the calls in the
order of their last operations. -/
theorem serial_run {P P' : Pool ι S ε fun _ => β} {s s' : σ} {t : List (ι × Event S σ)}
    (hrun : Run H P s t P' s') : ∀ {h : ι → List (Event S σ)},
    (∀ i, LastStep H abs (cond i) (spec i) (P i) (h i)) → Meet cond h t →
      SerialRun spec (abs s) (endings H P t) (abs s') := by
  induction hrun with
  | refl P s => exact fun _ _ => .nil
  | @step P P' s s' t j o k hop rest ih =>
    intro h hlast hm
    have hj := hlast j
    rw [hop] at hj
    obtain ⟨hquiet, hend, hnext⟩ := hj s hm.1
    have hall : ∀ i, LastStep H abs (cond i) (spec i) (P.set j (k (H o s).1) i)
        (Function.update h j (h j ++ [⟨o, s, (H o s).2⟩]) i) := by
      intro i
      by_cases hi : i = j
      · subst hi
        rw [Pool.set_self, Function.update_self]
        exact hnext
      · rw [Pool.set_ne _ hi, Function.update_of_ne hi]
        exact hlast i
    have hrest := ih hall hm.2
    simp only [endings, hop, Prog.after_op, ending]
    cases hres : (k (H o s).1).result with
    | none =>
      rw [← hquiet hres]
      exact hrest
    | some r => exact .cons (hend r hres) hrest

/-- An operation that changes the object ends its call. -/
theorem lastStep_change {cond : List (Event S σ) → S.Op → σ → Prop}
    {spec : ω → Except ε β → ω → Prop} {o : S.Op} {k : S.Res o → Prog S ε β}
    {h : List (Event S σ)} {s : σ} (hp : LastStep H abs cond spec (.op o k) h) (hc : cond h o s)
    (hne : abs (H o s).2 ≠ abs s) : ∃ r, (k (H o s).1).result = some r ∧
      spec (abs s) r (abs (H o s).2) := by
  obtain ⟨hquiet, hend, -⟩ := hp s hc
  cases hres : (k (H o s).1).result with
  | none => exact absurd (hquiet hres) hne
  | some r => exact ⟨r, rfl, hend r hres⟩

/-- Every step of a run leaves the object alone, or is the last step of its call and
takes effect within the specification. -/
theorem steps_of_run {P P' : Pool ι S ε fun _ => β} {s s' : σ} {t : List (ι × Event S σ)}
    (hrun : Run H P s t P' s') : ∀ {h : ι → List (Event S σ)},
    (∀ i, LastStep H abs (cond i) (spec i) (P i) (h i)) → Meet cond h t →
      ∀ e ∈ t, abs e.2.post = abs e.2.pre ∨
        ∃ r, (P' e.1).result = some r ∧ spec e.1 (abs e.2.pre) r (abs e.2.post) := by
  induction hrun with
  | refl P s => simp
  | @step P P' s s' t j o k hop rest ih =>
    intro h hlast hm e he
    have hj := hlast j
    rw [hop] at hj
    rcases List.mem_cons.mp he with rfl | he
    · by_cases hsame : abs (H o s).2 = abs s
      · exact .inl hsame
      · obtain ⟨r, hr, hspec⟩ := lastStep_change hj hm.1 hsame
        exact .inr ⟨r, result_stays rest (by rwa [Pool.set_self]), hspec⟩
    · refine ih (h := Function.update h j (h j ++ [⟨o, s, (H o s).2⟩])) (fun i => ?_) hm.2 e he
      by_cases hi : i = j
      · subst hi
        rw [Pool.set_self, Function.update_self]
        exact (hj s hm.1).2.2
      · rw [Pool.set_ne _ hi, Function.update_of_ne hi]
        exact hlast i

end Main

/-- What every step of a run keeps holds at its end and after each of its steps. -/
theorem run_kept {α : ι → Type} {H : Handler S σ} {P P' : Pool ι S ε α} {s s' : σ}
    {t : List (ι × Event S σ)} {I : σ → Prop} (hrun : Run H P s t P' s') :
    (∀ x ∈ t, I x.2.pre → I x.2.post) → I s → I s' ∧ ∀ x ∈ t, I x.2.post := by
  induction hrun with
  | refl => exact fun _ hs => ⟨hs, by simp⟩
  | step i o k hop rest ih =>
    intro hkeep hs
    rw [List.forall_mem_cons] at hkeep ⊢
    have hstep := hkeep.1 hs
    obtain ⟨hend, hall⟩ := ih hkeep.2 hstep
    exact ⟨hend, hstep, hall⟩

/-! ## Tokens -/

/-- A token that is taken is taken before every later step. -/
theorem taken_stays {α : ι → Type} {κ : Type} {H : Handler S σ} {P P' : Pool ι S ε α}
    {s s' : σ} {t : List (ι × Event S σ)} {taken : κ → σ → Prop} (hrun : Run H P s t P' s') :
    (∀ e ∈ t, ∀ k, taken k e.2.pre → taken k e.2.post) →
      ∀ k, taken k s → ∀ e ∈ t, taken k e.2.pre := by
  induction hrun with
  | refl => simp
  | step i o k hop rest ih =>
    intro hkeep x hs e he
    rw [List.forall_mem_cons] at hkeep
    rcases List.mem_cons.mp he with rfl | he
    · exact hs
    · exact ih hkeep.2 x (hkeep.1 x hs) e he

/-- Steps that take a free token, where no step gives one back: no two of them take the
same one. -/
theorem pairwise_claim {α : ι → Type} {κ : Type} {H : Handler S σ} {P P' : Pool ι S ε α}
    {s s' : σ} {t : List (ι × Event S σ)} (token : ι → κ) (taken : κ → σ → Prop)
    (claims : Event S σ → Prop) (hrun : Run H P s t P' s') :
    (∀ e ∈ t, ∀ k, taken k e.2.pre → taken k e.2.post) →
    (∀ e ∈ t, claims e.2 → ¬ taken (token e.1) e.2.pre ∧ taken (token e.1) e.2.post) →
    t.Pairwise fun x y => token x.1 = token y.1 → ¬ (claims x.2 ∧ claims y.2) := by
  induction hrun with
  | refl P s => exact fun _ _ => .nil
  | step i o k hop rest ih =>
    intro hkeep hclaim
    rw [List.forall_mem_cons] at hkeep hclaim
    refine List.pairwise_cons.mpr ⟨fun y hy htoken hboth => ?_, ih hkeep.2 hclaim.2⟩
    have htaken := (hclaim.1 hboth.1).2
    have hlater := taken_stays rest hkeep.2 _ htaken y hy
    rw [htoken] at hlater
    exact (hclaim.2 y hy hboth.2).1 hlater

end Nightfall.Core
