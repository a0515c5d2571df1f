import Mathlib.Logic.Function.Basic
import Nightfall.Core.Prog

/-!
# Interleaved programs

A `Pool` holds one program per party. `Run` lets any party that is not finished
execute its next operation, one at a time and in any order, and keeps the trace
of who did what; `exec` follows one given schedule.

A `Contract` says what a party relies on from the others' operations (`rely`),
under which condition its own operations are considered (`cond`) and what it
guarantees of each of them (`guar`). `rely` and `cond` may look at the
operations the party has executed so far. `Safe C Q p h s`: from `s`, after the
own operations `h`, the program `p` keeps `C` and ends in `Q`.

* `safe_bind`, `safe_calls`: how `Safe` composes, and the rule for a stretch of
  operations that need no condition.
* `run_alone`: a program by itself as a pool of one.
* `safe_run`: a run whose other operations are within `rely` and whose own
  operations meet `cond` keeps `guar` and ends in `Q`.
* `parallel`: when every party's guarantee is within every other party's rely,
  the contracts hold of every run of the pool.
-/
namespace Nightfall.Core
variable {S : Sig} {ι : Type} [DecidableEq ι] {ε σ : Type}

abbrev Pool (ι : Type) (S : Sig) (ε : Type) (α : ι → Type) := (i : ι) → Prog S ε (α i)

/-- The pool after party `i` moved on to `p`. -/
def Pool.set {α : ι → Type} (P : Pool ι S ε α) (i : ι) (p : Prog S ε (α i)) : Pool ι S ε α :=
  Function.update P i p

@[simp] theorem Pool.set_self {α : ι → Type} (P : Pool ι S ε α) (i : ι) (p : Prog S ε (α i)) :
    P.set i p i = p := by
  unfold Pool.set
  exact Function.update_self ..

theorem Pool.set_ne {α : ι → Type} (P : Pool ι S ε α) {i j : ι} (h : j ≠ i)
    (p : Prog S ε (α i)) : P.set i p j = P j := by
  unfold Pool.set
  exact Function.update_of_ne h ..

section Run
variable {α : ι → Type} (H : Handler S σ)

/-- Any interleaving: the trace is labelled with the party of each operation. -/
inductive Run : Pool ι S ε α → σ → List (ι × Event S σ) → Pool ι S ε α → σ → Prop
  | refl (P : Pool ι S ε α) (s : σ) : Run P s [] P s
  | step {P P' : Pool ι S ε α} {s s' : σ} {t : List (ι × Event S σ)} (i : ι) (o : S.Op)
      (k : S.Res o → Prog S ε (α i)) (hop : P i = .op o k)
      (rest : Run (P.set i (k (H o s).1)) (H o s).2 t P' s') :
      Run P s ((i, ⟨o, s, (H o s).2⟩) :: t) P' s'

/-- Follow a schedule; a finished party is passed over. -/
def exec : List ι → Pool ι S ε α → σ → List (ι × Event S σ) × Pool ι S ε α × σ
  | [], P, s => ([], P, s)
  | i :: is, P, s =>
    match P i with
    | .op o k =>
      let rest := exec is (P.set i (k (H o s).1)) (H o s).2
      ((i, ⟨o, s, (H o s).2⟩) :: rest.1, rest.2)
    | _ => exec is P s

theorem exec_run : ∀ (is : List ι) (P : Pool ι S ε α) (s : σ),
    Run H P s (exec H is P s).1 (exec H is P s).2.1 (exec H is P s).2.2
  | [], P, s => .refl P s
  | i :: is, P, s => by
    unfold exec
    split
    · next o k hop => exact .step i o k hop (exec_run is _ _)
    · exact exec_run is P s

variable {H}

/-- The events of a run are the operations and what they left. -/
theorem post_of_run {P P' : Pool ι S ε α} {s s' : σ} {t : List (ι × Event S σ)}
    (hrun : Run H P s t P' s') : ∀ x ∈ t, x.2.post = (H x.2.op x.2.pre).2 := by
  induction hrun with
  | refl P s => exact nofun
  | step i o k hop rest ih =>
    intro x hx
    rcases List.mem_cons.mp hx with rfl | hx
    · rfl
    · exact ih x hx

end Run

/-- The program that has run to this end. -/
def Prog.ended {α : Type} : Except ε α → Prog S ε α
  | .ok a => .ret a
  | .error e => .err e

/-- A program that runs alone is a pool of one. -/
theorem run_alone {α : Type} (H : Handler S σ) : ∀ (p : Prog S ε α) (s : σ),
    Run H (fun _ : Unit => p) s ((p.trace H s).map ((), ·)) (fun _ => Prog.ended (p.run H s).1)
      (p.run H s).2
  | .ret _, s => .refl _ s
  | .err _, s => .refl _ s
  | .op o k, s => .step () o k rfl (run_alone H (k (H o s).1) (H o s).2)

/-- The result of a finished party. -/
def Prog.result {α : Type} : Prog S ε α → Option (Except ε α)
  | .ret a => some (.ok a)
  | .err e => some (.error e)
  | .op _ _ => none

/-- The operations of one party, in order. -/
def own (i : ι) (t : List (ι × Event S σ)) : List (Event S σ) :=
  (t.filter (·.1 = i)).map (·.2)

@[simp] theorem own_nil (i : ι) : own i ([] : List (ι × Event S σ)) = [] := rfl

@[simp] theorem own_cons_self (i : ι) (e : Event S σ) (t : List (ι × Event S σ)) :
    own i ((i, e) :: t) = e :: own i t := by simp [own]

theorem own_cons_ne {i j : ι} (h : j ≠ i) (e : Event S σ) (t : List (ι × Event S σ)) :
    own i ((j, e) :: t) = own i t := by simp [own, h]

theorem mem_own {i : ι} {e : Event S σ} {t : List (ι × Event S σ)} :
    e ∈ own i t ↔ (i, e) ∈ t := by
  simp [own]

/-! ## Contracts -/

structure Contract (S : Sig) (σ : Type) where
  rely : List (Event S σ) → σ → σ → Prop
  cond : List (Event S σ) → S.Op → σ → Prop
  guar : S.Op → σ → σ → Prop
  rely_refl : ∀ h s, rely h s s
  rely_trans : ∀ h s t u, rely h s t → rely h t u → rely h s u

/-- Others act within `rely` before every operation and before the end. -/
def Safe {α : Type} (H : Handler S σ) (C : Contract S σ)
    (Q : Except ε α → List (Event S σ) → σ → Prop) :
    Prog S ε α → List (Event S σ) → σ → Prop
  | .ret a, h, s => ∀ s', C.rely h s s' → Q (.ok a) h s'
  | .err e, h, s => ∀ s', C.rely h s s' → Q (.error e) h s'
  | .op o k, h, s => ∀ s', C.rely h s s' → C.cond h o s' →
      C.guar o s' (H o s').2 ∧ Safe H C Q (k (H o s').1) (h ++ [⟨o, s', (H o s').2⟩]) (H o s').2

section Safe
variable {α β : Type} {H : Handler S σ} {C : Contract S σ}
  {Q : Except ε α → List (Event S σ) → σ → Prop}

@[simp] theorem safe_ret {a : α} {h : List (Event S σ)} {s : σ} :
    Safe H C Q (.ret a) h s ↔ ∀ s', C.rely h s s' → Q (.ok a) h s' := Iff.rfl

@[simp] theorem safe_err {e : ε} {h : List (Event S σ)} {s : σ} :
    Safe H C Q (.err e) h s ↔ ∀ s', C.rely h s s' → Q (.error e) h s' := Iff.rfl

@[simp] theorem safe_op {o : S.Op} {k : S.Res o → Prog S ε α} {h : List (Event S σ)} {s : σ} :
    Safe H C Q (.op o k) h s ↔ ∀ s', C.rely h s s' → C.cond h o s' →
      C.guar o s' (H o s').2 ∧
        Safe H C Q (k (H o s').1) (h ++ [⟨o, s', (H o s').2⟩]) (H o s').2 := Iff.rfl

theorem safe_mono {Q' : Except ε α → List (Event S σ) → σ → Prop}
    (hQ : ∀ r h s, Q r h s → Q' r h s) :
    ∀ {p : Prog S ε α} {h : List (Event S σ)} {s : σ}, Safe H C Q p h s → Safe H C Q' p h s
  | .ret _, _, _, hp => fun s' hr => hQ _ _ _ (hp s' hr)
  | .err _, _, _, hp => fun s' hr => hQ _ _ _ (hp s' hr)
  | .op _ _, _, _, hp => fun s' hr hc => ⟨(hp s' hr hc).1, safe_mono hQ (hp s' hr hc).2⟩

/-- What a program can return, added to what it ends in. -/
theorem safe_yields {P : α → Prop} : ∀ {p : Prog S ε α} {h : List (Event S σ)} {s : σ},
    p.Yields P → Safe H C Q p h s →
      Safe H C (fun r h s => Q r h s ∧ ∀ a, r = .ok a → P a) p h s
  | .ret _, _, _, hy, hp => fun s' hr => ⟨hp s' hr, fun _ ha => by cases ha; exact hy⟩
  | .err _, _, _, _, hp => fun s' hr => ⟨hp s' hr, fun _ ha => nomatch ha⟩
  | .op _ _, _, _, hy, hp => fun s' hr hc => ⟨(hp s' hr hc).1, safe_yields (hy _) (hp s' hr hc).2⟩

/-- Safety survives what the others may do. -/
theorem safe_rely {p : Prog S ε α} {h : List (Event S σ)} {s t : σ} (hp : Safe H C Q p h s)
    (hst : C.rely h s t) : Safe H C Q p h t := by
  cases p with
  | ret a => exact fun s' hr => hp s' (C.rely_trans _ _ _ _ hst hr)
  | err e => exact fun s' hr => hp s' (C.rely_trans _ _ _ _ hst hr)
  | op o k => exact fun s' hr hc => hp s' (C.rely_trans _ _ _ _ hst hr) hc

/-- The postcondition of a bound program. -/
def thenSafe (H : Handler S σ) (C : Contract S σ) (f : α → Prog S ε β)
    (Q : Except ε β → List (Event S σ) → σ → Prop) :
    Except ε α → List (Event S σ) → σ → Prop
  | .ok a, h, s => Safe H C Q (f a) h s
  | .error e, h, s => ∀ s', C.rely h s s' → Q (.error e) h s'

@[simp] theorem thenSafe_ok {f : α → Prog S ε β} {Q : Except ε β → List (Event S σ) → σ → Prop}
    {a : α} {h : List (Event S σ)} {s : σ} :
    thenSafe H C f Q (.ok a) h s ↔ Safe H C Q (f a) h s := Iff.rfl

theorem safe_bind {f : α → Prog S ε β} {Q : Except ε β → List (Event S σ) → σ → Prop} :
    ∀ {p : Prog S ε α} {h : List (Event S σ)} {s : σ},
      Safe H C (thenSafe H C f Q) p h s → Safe H C Q (p >>= f) h s
  | .ret _, _, s, hp => hp s (C.rely_refl _ _)
  | .err _, _, s, hp => hp s (C.rely_refl _ _)
  | .op _ _, _, _, hp => fun s' hr hc => ⟨(hp s' hr hc).1, safe_bind (hp s' hr hc).2⟩

/-- A stretch of operations, each of them one of `A`: whatever they and the
others do stays within `R`, and the own history grows by operations of `A`. -/
theorem safe_calls {A : S.Op → Prop} {R : σ → σ → Prop}
    (htrans : ∀ s t u, R s t → R t u → R s u) (hrely : ∀ h s t, C.rely h s t → R s t)
    (hA : ∀ o s, A o → C.guar o s (H o s).2 ∧ R s (H o s).2) {p : Prog S ε α}
    {h : List (Event S σ)} {s : σ} (hp : p.Calls A)
    (hQ : ∀ r h' t, R s t → (∀ e ∈ h', A e.op ∧ e.post = (H e.op e.pre).2) → Q r (h ++ h') t) :
    Safe H C Q p h s := by
  induction hp generalizing h s with
  | @ret a =>
    intro s' hr
    simpa using hQ (.ok a) [] s' (hrely _ _ _ hr) (by simp)
  | @err e =>
    intro s' hr
    simpa using hQ (.error e) [] s' (hrely _ _ _ hr) (by simp)
  | @op o k ho _ ih =>
    intro s' hr _
    refine ⟨(hA o s' ho).1, ih _ ?_⟩
    intro r h' t hR hh
    have hstep : R s t := htrans _ _ _ (hrely _ _ _ hr) (htrans _ _ _ (hA o s' ho).2 hR)
    have := hQ r (⟨o, s', (H o s').2⟩ :: h') t hstep
      (List.forall_mem_cons.mpr ⟨⟨ho, rfl⟩, hh⟩)
    simpa using this

end Safe

/-! ## Soundness -/

section Soundness
variable {α : ι → Type} {H : Handler S σ}

/-- Along the trace the others stay within party `i`'s rely and its own
operations meet its condition; `h` is its history so far. -/
def Meets (C : Contract S σ) (i : ι) : List (Event S σ) → List (ι × Event S σ) → Prop
  | _, [] => True
  | h, (j, e) :: t =>
    if j = i then C.cond h e.op e.pre ∧ Meets C i (h ++ [e]) t
    else C.rely h e.pre e.post ∧ Meets C i h t

/-- Conditions on single steps, whatever came before them. -/
theorem meets_of_forall {C : Contract S σ} {i : ι} :
    ∀ {t : List (ι × Event S σ)} {h : List (Event S σ)},
    (∀ x ∈ t, ∀ h, if x.1 = i then C.cond h x.2.op x.2.pre else C.rely h x.2.pre x.2.post) →
    Meets C i h t
  | [], _, _ => trivial
  | (j, e) :: t, h, hall => by
    have hhere := hall (j, e) List.mem_cons_self
    have hrest := fun x hx => hall x (List.mem_cons_of_mem _ hx)
    unfold Meets
    split
    · next hj =>
      simp only [if_pos hj] at hhere
      exact ⟨hhere h, meets_of_forall hrest⟩
    · next hj =>
      simp only [if_neg hj] at hhere
      exact ⟨hhere h, meets_of_forall hrest⟩

theorem safe_run {C : Contract S σ} {i : ι} {Q : Except ε (α i) → List (Event S σ) → σ → Prop}
    {P P' : Pool ι S ε α} {s s' : σ} {t : List (ι × Event S σ)} (hrun : Run H P s t P' s') :
    ∀ {h : List (Event S σ)}, Safe H C Q (P i) h s → Meets C i h t →
      (∀ e ∈ own i t, C.guar e.op e.pre e.post) ∧ Safe H C Q (P' i) (h ++ own i t) s' := by
  induction hrun with
  | refl P s => intro h hs _; simpa using hs
  | step j o k hop rest ih =>
    intro h hs hm
    unfold Meets at hm
    split at hm
    · next hj =>
      subst hj
      rw [hop] at hs
      obtain ⟨hg, hnext⟩ := hs _ (C.rely_refl _ _) hm.1
      obtain ⟨hgs, hend⟩ := ih (by rwa [Pool.set_self]) hm.2
      rw [own_cons_self]
      exact ⟨List.forall_mem_cons.mpr ⟨hg, hgs⟩, by simpa using hend⟩
    · next hj =>
      rw [own_cons_ne hj]
      refine ih ?_ hm.2
      rw [Pool.set_ne _ (Ne.symm hj)]
      exact safe_rely hs hm.1

/-- The operations of one program meet its condition; `h` is its history so far. -/
def CondsFrom (C : Contract S σ) : List (Event S σ) → List (Event S σ) → Prop
  | _, [] => True
  | h, e :: t => C.cond h e.op e.pre ∧ CondsFrom C (h ++ [e]) t

/-- Conditions that hold of any history. -/
theorem condsFrom_of_forall {C : Contract S σ} : ∀ {t h : List (Event S σ)},
    (∀ e ∈ t, ∀ h, C.cond h e.op e.pre) → CondsFrom C h t
  | [], _, _ => trivial
  | e :: _, h, ht => ⟨ht e List.mem_cons_self h,
      condsFrom_of_forall fun e' he' => ht e' (List.mem_cons_of_mem e he')⟩

theorem condsFrom_append {C : Contract S σ} : ∀ {t t' h : List (Event S σ)},
    CondsFrom C h (t ++ t') ↔ CondsFrom C h t ∧ CondsFrom C (h ++ t) t'
  | [], t', h => by simp [CondsFrom]
  | e :: t, t', h => by
    simp only [List.cons_append, CondsFrom, condsFrom_append (t := t), and_assoc,
      List.append_assoc, List.nil_append]

/-- They can be tested along a history. -/
def decidableCondsFrom {C : Contract S σ} (hC : ∀ h o s, Decidable (C.cond h o s)) :
    ∀ h t : List (Event S σ), Decidable (CondsFrom C h t)
  | _, [] => .isTrue trivial
  | h, e :: t =>
    have := hC h e.op e.pre
    have := decidableCondsFrom hC (h ++ [e]) t
    inferInstanceAs (Decidable (C.cond h e.op e.pre ∧ CondsFrom C (h ++ [e]) t))

/-- A party that bears whatever the others do. -/
theorem meets_of_condsFrom {C : Contract S σ} {i : ι} (hrely : ∀ h s t, C.rely h s t) :
    ∀ {t : List (ι × Event S σ)} {h : List (Event S σ)}, CondsFrom C h (own i t) → Meets C i h t
  | [], _, _ => trivial
  | (j, e) :: t, h, hc => by
    unfold Meets
    split
    · next hj =>
      subst hj
      rw [own_cons_self] at hc
      exact ⟨hc.1, meets_of_condsFrom hrely hc.2⟩
    · next hj =>
      rw [own_cons_ne hj] at hc
      exact ⟨hrely _ _ _, meets_of_condsFrom hrely hc⟩

/-- Every operation meets the condition of its own party; `h` gives each
party's history so far. -/
def Conds (C : ι → Contract S σ) : (ι → List (Event S σ)) → List (ι × Event S σ) → Prop
  | _, [] => True
  | h, (j, e) :: t =>
    (C j).cond (h j) e.op e.pre ∧ Conds C (Function.update h j (h j ++ [e])) t

/-- Conditions that do not depend on the history. -/
theorem conds_of_forall {C : ι → Contract S σ} : ∀ {t : List (ι × Event S σ)}
    {h : ι → List (Event S σ)}, (∀ e ∈ t, ∀ h, (C e.1).cond h e.2.op e.2.pre) → Conds C h t
  | [], _, _ => trivial
  | (_, _) :: _, _, ht => ⟨ht _ List.mem_cons_self _, conds_of_forall fun e he =>
      ht e (List.mem_cons_of_mem _ he)⟩

/-- The parallel rule: every party's operations keep its guarantee, so each
party is left undisturbed by the others. -/
theorem parallel {C : ι → Contract S σ}
    {Q : (i : ι) → Except ε (α i) → List (Event S σ) → σ → Prop}
    (hpar : ∀ i j, i ≠ j → ∀ h o s t, (C j).guar o s t → (C i).rely h s t)
    {P P' : Pool ι S ε α} {s s' : σ} {t : List (ι × Event S σ)} (hrun : Run H P s t P' s') :
    ∀ {h : ι → List (Event S σ)}, (∀ i, Safe H (C i) (Q i) (P i) (h i) s) → Conds C h t →
      (∀ e ∈ t, (C e.1).guar e.2.op e.2.pre e.2.post) ∧
        ∀ i, Safe H (C i) (Q i) (P' i) (h i ++ own i t) s' := by
  induction hrun with
  | refl P s => intro h hs _; simpa using hs
  | @step P₀ _ s₀ _ _ j o k hop rest ih =>
    intro h hs hc
    have hj := hs j
    rw [hop] at hj
    obtain ⟨hg, hnext⟩ := hj _ ((C j).rely_refl _ _) hc.1
    have hall : ∀ i, Safe H (C i) (Q i) (P₀.set j (k (H o s₀).1) i)
        (Function.update h j (h j ++ [⟨o, s₀, (H o s₀).2⟩]) i) (H o s₀).2 := by
      intro i
      by_cases hi : i = j
      · subst hi
        rw [Pool.set_self, Function.update_self]
        exact hnext
      · rw [Pool.set_ne _ hi, Function.update_of_ne hi]
        exact safe_rely (hs i) (hpar i j hi _ _ _ _ hg)
    obtain ⟨hgs, hend⟩ := ih hall hc.2
    refine ⟨List.forall_mem_cons.mpr ⟨hg, hgs⟩, fun i => ?_⟩
    by_cases hi : i = j
    · subst hi; simpa using hend i
    · rw [own_cons_ne (Ne.symm hi)]
      simpa [Function.update_of_ne hi] using hend i

/-- The end of a finished party. -/
theorem Safe.result {C : Contract S σ} {γ : Type}
    {Q : Except ε γ → List (Event S σ) → σ → Prop} {p : Prog S ε γ} {h : List (Event S σ)} {s : σ}
    {r : Except ε γ} (hs : Safe H C Q p h s) (hr : p.result = some r) : Q r h s := by
  cases p with
  | ret a => cases hr; exact hs s (C.rely_refl _ _)
  | err e => cases hr; exact hs s (C.rely_refl _ _)
  | op o k => cases hr

end Soundness
end Nightfall.Core
