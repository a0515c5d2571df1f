import Mathlib.Tactic.Common

/-!
# Programs made of atomic operations

A signature `Sig` lists the primitive operations of a system and what each
returns. A `Prog` is a finite tree of such operations that ends in a result or
in an exception; a `Handler` gives every operation its effect on a state `σ`.
Nothing here knows which operations there are.

* `run`: a program from start to end, with nobody else acting.
* `Wp H p s Q`: the run from `s` ends in `Q`; `wp_bind` composes it.
* `trace`: the operations `run` executes, each with the state before and after;
  `ops`: the operations alone.
* `crash n`: the state left when the process dies after `n` operations.
* `Along G p s Q`: every operation of the run satisfies `G`, and the run ends
  in `Q`. `along_bind` composes it, `along_run` and `along_trace` read it back.
* `Given C G p s Q`: the same of a run as long as its operations meet `C`;
  `given_trace` reads it back when all of them do.
* `Calls P p`: every operation that occurs anywhere in `p` satisfies `P`;
  `Yields P p`: every result does.
* `Calls.along_inv`, `along_bind_inv`, `run_inv`: invariants of single
  operations as invariants of programs and runs.
-/
namespace Nightfall.Core

theorem bind_eq_ok {ε α β : Type} {x : Except ε α} {f : α → Except ε β} {b : β}
    (h : (x >>= f) = .ok b) : ∃ a, x = .ok a ∧ f a = .ok b := by
  cases x with
  | error e => cases h
  | ok a => exact ⟨a, rfl, h⟩

/-- The operations of a system and the type each one returns. -/
structure Sig where
  Op : Type
  Res : Op → Type

inductive Prog (S : Sig) (ε α : Type) where
  | ret (a : α)
  | err (e : ε)
  | op (o : S.Op) (k : S.Res o → Prog S ε α)

/-- What each operation answers and does to the state. -/
abbrev Handler (S : Sig) (σ : Type) := (o : S.Op) → σ → S.Res o × σ

/-- One executed operation: the state it met and the state it left. -/
structure Event (S : Sig) (σ : Type) where
  op : S.Op
  pre : σ
  post : σ

namespace Prog
variable {S : Sig} {ε α β σ : Type}

protected def bind : Prog S ε α → (α → Prog S ε β) → Prog S ε β
  | .ret a, f => f a
  | .err e, _ => .err e
  | .op o k, f => .op o fun r => (k r).bind f

/-- `try p except e: h e`. -/
protected def tryCatch : Prog S ε α → (ε → Prog S ε α) → Prog S ε α
  | .ret a, _ => .ret a
  | .err e, h => h e
  | .op o k, h => .op o fun r => (k r).tryCatch h

instance : Monad (Prog S ε) where
  pure := .ret
  bind := Prog.bind

instance : MonadExceptOf ε (Prog S ε) where
  throw := .err
  tryCatch := Prog.tryCatch

/-- A single operation. -/
def call (o : S.Op) : Prog S ε (S.Res o) := .op o .ret

/-- An operation that may itself fail, its failure raised. -/
def ofExcept : Except ε α → Prog S ε α
  | .ok a => .ret a
  | .error e => .err e

@[simp] theorem pure_eq (a : α) : (pure a : Prog S ε α) = .ret a := rfl

@[simp] theorem throw_eq (e : ε) : (throw e : Prog S ε α) = .err e := rfl

@[simp] theorem ret_bind (a : α) (f : α → Prog S ε β) : (Prog.ret a >>= f) = f a := rfl

@[simp] theorem err_bind (e : ε) (f : α → Prog S ε β) : (Prog.err e >>= f) = .err e := rfl

@[simp] theorem op_bind (o : S.Op) (k : S.Res o → Prog S ε α) (f : α → Prog S ε β) :
    (Prog.op o k >>= f) = .op o fun r => k r >>= f := rfl

@[simp] theorem call_bind (o : S.Op) (f : S.Res o → Prog S ε β) : (call o >>= f) = .op o f := rfl

@[simp] theorem ofExcept_ok (a : α) : (ofExcept (.ok a) : Prog S ε α) = .ret a := rfl

@[simp] theorem ofExcept_error (e : ε) : (ofExcept (.error e) : Prog S ε α) = .err e := rfl

protected theorem bind_assoc {γ : Type} (f : α → Prog S ε β) (g : β → Prog S ε γ) :
    ∀ p : Prog S ε α, (p >>= f >>= g) = p >>= fun a => f a >>= g
  | .ret _ => rfl
  | .err _ => rfl
  | .op o k => by
    simp only [op_bind]
    exact congrArg (Prog.op o) (funext fun r => Prog.bind_assoc f g (k r))

theorem bind_ret : ∀ p : Prog S ε α, (p >>= Prog.ret) = p
  | .ret _ => rfl
  | .err _ => rfl
  | .op o k => congrArg (Prog.op o) (funext fun r => bind_ret (k r))

/-! ## Running alone -/

def run (H : Handler S σ) : Prog S ε α → σ → Except ε α × σ
  | .ret a, s => (.ok a, s)
  | .err e, s => (.error e, s)
  | .op o k, s => (k (H o s).1).run H (H o s).2

def trace (H : Handler S σ) : Prog S ε α → σ → List (Event S σ)
  | .ret _, _ => []
  | .err _, _ => []
  | .op o k, s => ⟨o, s, (H o s).2⟩ :: (k (H o s).1).trace H (H o s).2

/-- The state after the first `n` operations. -/
def crash (H : Handler S σ) : Nat → Prog S ε α → σ → σ
  | n + 1, .op o k, s => crash H n (k (H o s).1) (H o s).2
  | _, _, s => s

/-- The first `n` operations executed. -/
def executed (H : Handler S σ) (n : Nat) (p : Prog S ε α) (s : σ) : List (Event S σ) :=
  (p.trace H s).take n

@[simp] theorem run_ret (H : Handler S σ) (a : α) (s : σ) :
    (Prog.ret a : Prog S ε α).run H s = (.ok a, s) := rfl

@[simp] theorem run_err (H : Handler S σ) (e : ε) (s : σ) :
    (Prog.err e : Prog S ε α).run H s = (.error e, s) := rfl

@[simp] theorem run_op (H : Handler S σ) (o : S.Op) (k : S.Res o → Prog S ε α) (s : σ) :
    (Prog.op o k).run H s = (k (H o s).1).run H (H o s).2 := rfl

theorem trace_post {H : Handler S σ} : ∀ {p : Prog S ε α} {s : σ},
    ∀ e ∈ p.trace H s, e.post = (H e.op e.pre).2
  | .ret _, _, e, he => by cases he
  | .err _, _, e, he => by cases he
  | .op o k, s, e, he => by
    rcases List.mem_cons.mp he with rfl | he
    · rfl
    · exact trace_post e he

/-- A run that ends a condition has a step that ends it. -/
theorem trace_change {H : Handler S σ} {I : σ → Prop} : ∀ {p : Prog S ε α} {s : σ},
    I s → ¬ I (p.run H s).2 → ∃ e ∈ p.trace H s, I e.pre ∧ ¬ I e.post
  | .ret _, _, hs, hend => absurd hs hend
  | .err _, _, hs, hend => absurd hs hend
  | .op o k, s, hs, hend => by
    by_cases hstep : I (H o s).2
    · obtain ⟨e, he, hchange⟩ := trace_change (p := k (H o s).1) hstep hend
      exact ⟨e, List.mem_cons_of_mem _ he, hchange⟩
    · exact ⟨_, List.mem_cons_self, hs, hstep⟩

/-- A run, from its result alone. -/
theorem run_of_result {H : Handler S σ} {p : Prog S ε α} {s : σ} {r : Except ε α}
    (h : (p.run H s).1 = r) : p.run H s = (r, (p.run H s).2) := Prod.ext h rfl

theorem run_bind (H : Handler S σ) (f : α → Prog S ε β) : ∀ (p : Prog S ε α) (s : σ),
    (p >>= f).run H s = match p.run H s with
      | (.ok a, s') => (f a).run H s'
      | (.error e, s') => (.error e, s')
  | .ret _, _ => rfl
  | .err _, _ => rfl
  | .op o k, s => run_bind H f (k (H o s).1) (H o s).2

/-- Both parts of a bound program that returns have returned. -/
theorem run_bind_ok {H : Handler S σ} {f : α → Prog S ε β} {p : Prog S ε α} {s t : σ} {b : β}
    (h : (p >>= f).run H s = (.ok b, t)) :
    ∃ a u, p.run H s = (.ok a, u) ∧ (f a).run H u = (.ok b, t) := by
  rw [run_bind] at h
  cases hp : p.run H s with
  | mk r u =>
    rw [hp] at h
    cases r with
    | error e => cases h
    | ok a => exact ⟨a, u, rfl, h⟩

/-- What the second of two programs executes, after the end of the first. -/
def thenTrace (H : Handler S σ) (f : α → Prog S ε β) : Except ε α × σ → List (Event S σ)
  | (.ok a, s) => (f a).trace H s
  | (.error _, _) => []

theorem trace_bind (H : Handler S σ) (f : α → Prog S ε β) : ∀ (p : Prog S ε α) (s : σ),
    (p >>= f).trace H s = p.trace H s ++ thenTrace H f (p.run H s)
  | .ret _, _ => rfl
  | .err _, _ => rfl
  | .op o k, s => by
    simp only [op_bind, trace, run_op, List.cons_append]
    rw [trace_bind]

/-- The operations of a run. -/
def ops (H : Handler S σ) (p : Prog S ε α) (s : σ) : List S.Op := (p.trace H s).map (·.op)

@[simp] theorem ops_ret (H : Handler S σ) (a : α) (s : σ) :
    (Prog.ret a : Prog S ε α).ops H s = [] := rfl

@[simp] theorem ops_err (H : Handler S σ) (e : ε) (s : σ) :
    (Prog.err e : Prog S ε α).ops H s = [] := rfl

@[simp] theorem ops_op (H : Handler S σ) (o : S.Op) (k : S.Res o → Prog S ε α) (s : σ) :
    (Prog.op o k).ops H s = o :: (k (H o s).1).ops H (H o s).2 := rfl

theorem ops_bind_ok {H : Handler S σ} {f : α → Prog S ε β} {p : Prog S ε α} {s t : σ} {a : α}
    (h : p.run H s = (.ok a, t)) : (p >>= f).ops H s = p.ops H s ++ (f a).ops H t := by
  rw [ops, trace_bind, h, List.map_append]; rfl

theorem ops_bind_error {H : Handler S σ} {f : α → Prog S ε β} {p : Prog S ε α} {s t : σ} {e : ε}
    (h : p.run H s = (.error e, t)) : (p >>= f).ops H s = p.ops H s := by
  rw [ops, trace_bind, h, List.map_append]; exact List.append_nil _

/-! ## What holds at the end of a run -/

/-- The run from `s` ends in `Q`. -/
@[irreducible] def Wp (H : Handler S σ) (p : Prog S ε α) (s : σ) (Q : Except ε α → σ → Prop) :
    Prop := Q (p.run H s).1 (p.run H s).2

section Wp
variable {H : Handler S σ} {s : σ}

theorem wp_iff {p : Prog S ε α} {Q : Except ε α → σ → Prop} :
    p.Wp H s Q ↔ Q (p.run H s).1 (p.run H s).2 := by
  unfold Wp; exact Iff.rfl

@[simp] theorem wp_ret {a : α} {Q : Except ε α → σ → Prop} :
    (Prog.ret a : Prog S ε α).Wp H s Q ↔ Q (.ok a) s := wp_iff

@[simp] theorem wp_err {e : ε} {Q : Except ε α → σ → Prop} :
    (Prog.err e : Prog S ε α).Wp H s Q ↔ Q (.error e) s := wp_iff

@[simp] theorem wp_op {o : S.Op} {k : S.Res o → Prog S ε α} {Q : Except ε α → σ → Prop} :
    (Prog.op o k).Wp H s Q ↔ (k (H o s).1).Wp H (H o s).2 Q := by
  simp only [wp_iff, run_op]

theorem wp_mono {p : Prog S ε α} {Q Q' : Except ε α → σ → Prop} (hQ : ∀ r t, Q r t → Q' r t)
    (h : p.Wp H s Q) : p.Wp H s Q' := wp_iff.mpr (hQ _ _ (wp_iff.mp h))

theorem wp_and {p : Prog S ε α} {Q Q' : Except ε α → σ → Prop} (h : p.Wp H s Q)
    (h' : p.Wp H s Q') : p.Wp H s fun r t => Q r t ∧ Q' r t :=
  wp_iff.mpr ⟨wp_iff.mp h, wp_iff.mp h'⟩

/-- What a bound program needs of its first part. -/
def thenWp (H : Handler S σ) (f : α → Prog S ε β) (Q : Except ε β → σ → Prop) :
    Except ε α → σ → Prop
  | .ok a, t => (f a).Wp H t Q
  | .error e, t => Q (.error e) t

@[simp] theorem thenWp_ok {f : α → Prog S ε β} {Q : Except ε β → σ → Prop} {a : α} :
    thenWp H f Q (.ok a) s ↔ (f a).Wp H s Q := Iff.rfl

@[simp] theorem thenWp_error {f : α → Prog S ε β} {Q : Except ε β → σ → Prop} {e : ε} :
    thenWp H f Q (.error e) s ↔ Q (.error e) s := Iff.rfl

theorem wp_bind {p : Prog S ε α} {f : α → Prog S ε β} {Q : Except ε β → σ → Prop} :
    (p >>= f).Wp H s Q ↔ p.Wp H s (thenWp H f Q) := by
  simp only [wp_iff, run_bind]
  rcases p.run H s with ⟨e | a, t⟩
  · exact Iff.rfl
  · exact wp_iff.symm

/-- What a guarded program needs of its body. -/
def catchWp (H : Handler S σ) (h : ε → Prog S ε α) (Q : Except ε α → σ → Prop) :
    Except ε α → σ → Prop
  | .ok a, t => Q (.ok a) t
  | .error e, t => (h e).Wp H t Q

theorem wp_tryCatch {h : ε → Prog S ε α} {Q : Except ε α → σ → Prop} :
    ∀ {p : Prog S ε α} {s : σ}, (p.tryCatch h).Wp H s Q ↔ p.Wp H s (catchWp H h Q)
  | .ret _, _ => by rw [Prog.tryCatch, wp_ret, wp_ret]; exact Iff.rfl
  | .err _, _ => by rw [Prog.tryCatch, wp_err]; exact Iff.rfl
  | .op o k, s => by rw [Prog.tryCatch, wp_op, wp_op]; exact wp_tryCatch

/-- The end of a run that returns; nothing is said of one that raises. -/
def onOk (Q : α → σ → Prop) : Except ε α → σ → Prop
  | .ok a, t => Q a t
  | .error _, _ => True

@[simp] theorem onOk_ok {Q : α → σ → Prop} {a : α} :
    onOk Q (.ok a : Except ε α) s ↔ Q a s := Iff.rfl

@[simp] theorem onOk_error {Q : α → σ → Prop} {e : ε} : onOk Q (.error e) s ↔ True := Iff.rfl

theorem wp_bind_onOk {p : Prog S ε α} {f : α → Prog S ε β} {Q : α → σ → Prop} {R : β → σ → Prop}
    (hp : p.Wp H s (onOk Q)) (hf : ∀ a t, Q a t → (f a).Wp H t (onOk R)) :
    (p >>= f).Wp H s (onOk R) := by
  refine wp_bind.mpr (wp_mono ?_ hp)
  rintro (e | a) t h
  · trivial
  · exact hf a t h

end Wp

/-! ## What holds along a run -/

/-- Every operation of the run from `s` satisfies `G`, and the run ends in `Q`. -/
def Along (H : Handler S σ) (G : S.Op → σ → σ → Prop) :
    Prog S ε α → σ → (Except ε α → σ → Prop) → Prop
  | .ret a, s, Q => Q (.ok a) s
  | .err e, s, Q => Q (.error e) s
  | .op o k, s, Q => G o s (H o s).2 ∧ (k (H o s).1).Along H G (H o s).2 Q

section Along
variable {H : Handler S σ} {G : S.Op → σ → σ → Prop}

@[simp] theorem along_ret {a : α} {s : σ} {Q : Except ε α → σ → Prop} :
    (Prog.ret a : Prog S ε α).Along H G s Q ↔ Q (.ok a) s := Iff.rfl

@[simp] theorem along_err {e : ε} {s : σ} {Q : Except ε α → σ → Prop} :
    (Prog.err e : Prog S ε α).Along H G s Q ↔ Q (.error e) s := Iff.rfl

@[simp] theorem along_op {o : S.Op} {k : S.Res o → Prog S ε α} {s : σ}
    {Q : Except ε α → σ → Prop} :
    (Prog.op o k).Along H G s Q ↔
      G o s (H o s).2 ∧ (k (H o s).1).Along H G (H o s).2 Q := Iff.rfl

theorem along_mono {Q Q' : Except ε α → σ → Prop} (hQ : ∀ r s, Q r s → Q' r s) :
    ∀ {p : Prog S ε α} {s : σ}, p.Along H G s Q → p.Along H G s Q'
  | .ret _, _, h => hQ _ _ h
  | .err _, _, h => hQ _ _ h
  | .op _ _, _, h => ⟨h.1, along_mono hQ h.2⟩

/-- The postcondition of a bound program: continue on a result, stop on an
exception. -/
def thenPost (H : Handler S σ) (G : S.Op → σ → σ → Prop) (f : α → Prog S ε β)
    (Q : Except ε β → σ → Prop) : Except ε α → σ → Prop
  | .ok a, s => (f a).Along H G s Q
  | .error e, s => Q (.error e) s

theorem along_bind {f : α → Prog S ε β} {Q : Except ε β → σ → Prop} :
    ∀ {p : Prog S ε α} {s : σ},
      (p >>= f).Along H G s Q ↔ p.Along H G s (thenPost H G f Q)
  | .ret _, _ => Iff.rfl
  | .err _, _ => Iff.rfl
  | .op _ _, _ => and_congr Iff.rfl along_bind

/-- What the run does, as facts about its trace and its end. -/
theorem along_iff {Q : Except ε α → σ → Prop} : ∀ {p : Prog S ε α} {s : σ},
    p.Along H G s Q ↔
      (∀ e ∈ p.trace H s, G e.op e.pre e.post) ∧ Q (p.run H s).1 (p.run H s).2
  | .ret _, _ => by simp [trace, run]
  | .err _, _ => by simp [trace, run]
  | .op o k, s => by
    simp only [along_op, trace, List.mem_cons, forall_eq_or_imp, run_op]
    rw [along_iff, and_assoc]

theorem wp_of_along {Q : Except ε α → σ → Prop} {p : Prog S ε α} {s : σ} (h : p.Along H G s Q) :
    p.Wp H s Q := wp_iff.mpr (along_iff.mp h).2

theorem along_run {Q : Except ε α → σ → Prop} {p : Prog S ε α} {s : σ} (h : p.Along H G s Q) :
    Q (p.run H s).1 (p.run H s).2 := (along_iff.mp h).2

theorem along_trace {Q : Except ε α → σ → Prop} {p : Prog S ε α} {s : σ} (h : p.Along H G s Q) :
    ∀ e ∈ p.trace H s, G e.op e.pre e.post := (along_iff.mp h).1

end Along

/-! ## What holds while a condition is met -/

/-- While the operations of the run from `s` meet `C`, each satisfies `G`; a run
all of whose operations meet it ends in `Q`. -/
def Given (H : Handler S σ) (C : S.Op → σ → Prop) (G : S.Op → σ → σ → Prop) :
    Prog S ε α → σ → (Except ε α → σ → Prop) → Prop
  | .ret a, s, Q => Q (.ok a) s
  | .err e, s, Q => Q (.error e) s
  | .op o k, s, Q => C o s → G o s (H o s).2 ∧ (k (H o s).1).Given H C G (H o s).2 Q

section Given
variable {H : Handler S σ} {C : S.Op → σ → Prop} {G : S.Op → σ → σ → Prop}

@[simp] theorem given_ret {a : α} {s : σ} {Q : Except ε α → σ → Prop} :
    (Prog.ret a : Prog S ε α).Given H C G s Q ↔ Q (.ok a) s := Iff.rfl

@[simp] theorem given_err {e : ε} {s : σ} {Q : Except ε α → σ → Prop} :
    (Prog.err e : Prog S ε α).Given H C G s Q ↔ Q (.error e) s := Iff.rfl

@[simp] theorem given_op {o : S.Op} {k : S.Res o → Prog S ε α} {s : σ}
    {Q : Except ε α → σ → Prop} :
    (Prog.op o k).Given H C G s Q ↔
      (C o s → G o s (H o s).2 ∧ (k (H o s).1).Given H C G (H o s).2 Q) := Iff.rfl

theorem given_mono {Q Q' : Except ε α → σ → Prop} (hQ : ∀ r s, Q r s → Q' r s) :
    ∀ {p : Prog S ε α} {s : σ}, p.Given H C G s Q → p.Given H C G s Q'
  | .ret _, _, h => hQ _ _ h
  | .err _, _, h => hQ _ _ h
  | .op _ _, _, h => fun hC => ⟨(h hC).1, given_mono hQ (h hC).2⟩

/-- The postcondition of a bound program. -/
def thenGiven (H : Handler S σ) (C : S.Op → σ → Prop) (G : S.Op → σ → σ → Prop)
    (f : α → Prog S ε β) (Q : Except ε β → σ → Prop) : Except ε α → σ → Prop
  | .ok a, s => (f a).Given H C G s Q
  | .error e, s => Q (.error e) s

@[simp] theorem thenGiven_ok {f : α → Prog S ε β} {Q : Except ε β → σ → Prop} {a : α} {s : σ} :
    thenGiven H C G f Q (.ok a) s ↔ (f a).Given H C G s Q := Iff.rfl

theorem given_bind {f : α → Prog S ε β} {Q : Except ε β → σ → Prop} :
    ∀ {p : Prog S ε α} {s : σ},
      (p >>= f).Given H C G s Q ↔ p.Given H C G s (thenGiven H C G f Q)
  | .ret _, _ => Iff.rfl
  | .err _, _ => Iff.rfl
  | .op _ _, _ => imp_congr Iff.rfl (and_congr Iff.rfl given_bind)

theorem given_of_along {Q : Except ε α → σ → Prop} :
    ∀ {p : Prog S ε α} {s : σ}, p.Along H G s Q → p.Given H C G s Q
  | .ret _, _, h => h
  | .err _, _, h => h
  | .op _ _, _, h => fun _ => ⟨h.1, given_of_along h.2⟩

/-- A run whose operations all meet the condition. -/
theorem given_trace {Q : Except ε α → σ → Prop} : ∀ {p : Prog S ε α} {s : σ},
    p.Given H C G s Q → (∀ e ∈ p.trace H s, C e.op e.pre) →
      (∀ e ∈ p.trace H s, G e.op e.pre e.post) ∧ Q (p.run H s).1 (p.run H s).2
  | .ret _, _, h, _ => ⟨by simp [trace], h⟩
  | .err _, _, h, _ => ⟨by simp [trace], h⟩
  | .op o k, s, h, hC => by
    simp only [trace, List.mem_cons, forall_eq_or_imp] at hC ⊢
    obtain ⟨hG, hk⟩ := h hC.1
    obtain ⟨hrest, hend⟩ := given_trace hk hC.2
    exact ⟨⟨hG, hrest⟩, hend⟩

end Given

/-! ## What a program may call -/

/-- Every operation occurring in the program satisfies `P`, whatever the answers. -/
inductive Calls (P : S.Op → Prop) : Prog S ε α → Prop
  | ret {a : α} : Calls P (.ret a)
  | err {e : ε} : Calls P (.err e)
  | op {o : S.Op} {k : S.Res o → Prog S ε α} (ho : P o) (hk : ∀ r, Calls P (k r)) :
      Calls P (.op o k)

theorem Calls.next {P : S.Op → Prop} {o : S.Op} {k : S.Res o → Prog S ε α}
    (h : (Prog.op o k).Calls P) (r : S.Res o) : (k r).Calls P := by
  cases h with
  | op _ hk => exact hk r

theorem Calls.ite {P : S.Op → Prop} {c : Prop} [Decidable c] {p q : Prog S ε α}
    (hp : p.Calls P) (hq : q.Calls P) : (if c then p else q).Calls P := by
  split
  · exact hp
  · exact hq

theorem Calls.bind {P : S.Op → Prop} {f : α → Prog S ε β} {p : Prog S ε α} (hp : p.Calls P)
    (hf : ∀ a, (f a).Calls P) : (p >>= f).Calls P := by
  induction hp with
  | ret => exact hf _
  | err => exact .err
  | op ho _ ih => exact .op ho ih

theorem Calls.forM {P : S.Op → Prop} {f : β → Prog S ε PUnit} (hf : ∀ b, (f b).Calls P) :
    ∀ bs : List β, (bs.forM f).Calls P
  | [] => .ret
  | b :: bs => (hf b).bind fun _ => Calls.forM hf bs

theorem Calls.tryCatch {P : S.Op → Prop} {h : ε → Prog S ε α} {p : Prog S ε α} (hp : p.Calls P)
    (hh : ∀ e, (h e).Calls P) : (p.tryCatch h).Calls P := by
  induction hp with
  | ret => exact .ret
  | err => exact hh _
  | op ho _ ih => exact .op ho ih

/-- Every result the program can return satisfies `P`, whatever the answers. -/
def Yields (P : α → Prop) : Prog S ε α → Prop
  | .ret a => P a
  | .err _ => True
  | .op _ k => ∀ r, (k r).Yields P

theorem yields_bind {P : β → Prop} {R : α → Prop} {f : α → Prog S ε β} :
    ∀ {p : Prog S ε α}, p.Yields R → (∀ a, R a → (f a).Yields P) → (p >>= f).Yields P
  | .ret a, hp, hf => hf a hp
  | .err _, _, _ => trivial
  | .op _ _, hp, hf => fun r => yields_bind (hp r) hf

theorem Yields.mono {P R : α → Prop} (h : ∀ a, P a → R a) :
    ∀ {p : Prog S ε α}, p.Yields P → p.Yields R
  | .ret a, hp => h a hp
  | .err _, _ => trivial
  | .op _ _, hp => fun r => (hp r).mono h

theorem Yields.of_run {P : α → Prop} {H : Handler S σ} : ∀ {p : Prog S ε α} {s : σ} {a : α},
    p.Yields P → (p.run H s).1 = .ok a → P a
  | .ret _, _, _, hp, hr => by cases hr; exact hp
  | .err _, _, _, _, hr => by cases hr
  | .op _ _, _, _, hp, hr => (hp _).of_run hr

theorem yields_true : ∀ {p : Prog S ε α}, p.Yields fun _ => True
  | .ret _ => trivial
  | .err _ => trivial
  | .op _ _ => fun _ => yields_true

/-- The operations of a run are among those of the program. -/
theorem Calls.ops {P : S.Op → Prop} {H : Handler S σ} {p : Prog S ε α} (hp : p.Calls P) :
    ∀ s, ∀ o ∈ p.ops H s, P o := by
  induction hp with
  | ret => intro s o ho; cases ho
  | err => intro s o ho; cases ho
  | @op o k ho _ ih =>
    intro s o' ho'
    rcases List.mem_cons.mp ho' with rfl | hk
    · exact ho
    · exact ih _ _ _ hk

/-- A stretch of operations of `P`: each keeps `G`, and together they stay
within `R`. -/
theorem Calls.along {P : S.Op → Prop} {H : Handler S σ} {G : S.Op → σ → σ → Prop}
    {R : σ → σ → Prop} (hr : ∀ s, R s s) (ht : ∀ s t u, R s t → R t u → R s u)
    (hP : ∀ o s, P o → G o s (H o s).2 ∧ R s (H o s).2) {Q : Except ε α → σ → Prop}
    {p : Prog S ε α} {s : σ} (hp : p.Calls P) (hQ : ∀ r t, R s t → Q r t) : p.Along H G s Q := by
  induction hp generalizing s with
  | ret => exact hQ _ s (hr s)
  | err => exact hQ _ s (hr s)
  | @op o _ ho _ ih =>
    exact ⟨(hP o s ho).1, ih _ fun r t hR => hQ r t (ht _ _ _ (hP o s ho).2 hR)⟩

/-- A stretch of operations that keep `G` unconditionally, with what is known of
its end. -/
theorem Calls.along_wp {P : S.Op → Prop} {H : Handler S σ} {G : S.Op → σ → σ → Prop}
    (hP : ∀ o s, P o → G o s (H o s).2) {Q : Except ε α → σ → Prop} {p : Prog S ε α} {s : σ}
    (hp : p.Calls P) (h : p.Wp H s Q) : p.Along H G s Q := by
  induction hp generalizing s with
  | ret => exact wp_ret.mp h
  | err => exact wp_err.mp h
  | @op o _ ho _ ih => exact ⟨hP o s ho, ih _ (wp_op.mp h)⟩

theorem Calls.imp {P P' : S.Op → Prop} {p : Prog S ε α} (hp : p.Calls P) (h : ∀ o, P o → P' o) :
    p.Calls P' := by
  induction hp with
  | ret => exact .ret
  | err => exact .err
  | op ho _ ih => exact .op (h _ ho) ih

/-! ## Invariants -/

/-- Operations of `P` keep the invariant `I` and, while it holds, satisfy `G`. -/
theorem Calls.along_inv {P : S.Op → Prop} {H : Handler S σ} {G : S.Op → σ → σ → Prop}
    {I : σ → Prop} (hP : ∀ o s, P o → I s → G o s (H o s).2 ∧ I (H o s).2) {p : Prog S ε α} {s : σ}
    (hp : p.Calls P) (hs : I s) : p.Along H G s fun _ t => I t := by
  induction hp generalizing s with
  | ret => exact hs
  | err => exact hs
  | @op o _ ho _ ih => exact ⟨(hP o s ho hs).1, ih _ (hP o s ho hs).2⟩

theorem along_bind_inv {H : Handler S σ} {G : S.Op → σ → σ → Prop} {I J : σ → Prop}
    {p : Prog S ε α} {f : α → Prog S ε β} {s : σ} (hIJ : ∀ t, I t → J t)
    (hp : p.Along H G s fun _ t => I t)
    (hf : ∀ a t, I t → (f a).Along H G t fun _ u => J u) :
    (p >>= f).Along H G s fun _ u => J u := by
  refine along_bind.mpr (along_mono ?_ hp)
  rintro (e | a) t ht
  · exact hIJ t ht
  · exact hf a t ht

/-- An invariant of every operation that meets `C` survives a run all of whose
operations meet it. -/
theorem run_inv {H : Handler S σ} {C : S.Op → σ → Prop} {I : σ → Prop}
    (hI : ∀ o s, C o s → I s → I (H o s).2) :
    ∀ {p : Prog S ε α} {s : σ}, (∀ e ∈ p.trace H s, C e.op e.pre) → I s → I (p.run H s).2
  | .ret _, _, _, hs => hs
  | .err _, _, _, hs => hs
  | .op o k, s, hC, hs => by
    simp only [trace, List.mem_cons, forall_eq_or_imp] at hC
    exact run_inv (p := k (H o s).1) hI hC.2 (hI o s hC.1 hs)

/-- The end of a stretch of operations that stay within `R`. -/
theorem Calls.wp {P : S.Op → Prop} {H : Handler S σ} {R : σ → σ → Prop} (hr : ∀ s, R s s)
    (ht : ∀ s t u, R s t → R t u → R s u) (hP : ∀ o s, P o → R s (H o s).2)
    {Q : Except ε α → σ → Prop} {p : Prog S ε α} {s : σ} (hp : p.Calls P)
    (hQ : ∀ r t, R s t → Q r t) : p.Wp H s Q :=
  wp_of_along (hp.along (G := fun _ _ _ => True) hr ht (fun o s ho => ⟨trivial, hP o s ho⟩) hQ)

end Prog
end Nightfall.Core
