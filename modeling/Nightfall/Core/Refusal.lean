import Nightfall.Core.Pool

/-!
# Operations that raise

`p.refuse bad` is the program `p` where the operations in `bad` raise instead of
being carried out. `bad` sees the operation alone, not the state.

* `run_refuse`: a run that comes to none of them does not notice.
* `refuse_cases`: it returns as before, or raises as before, or ends at the first
  of them.
-/
namespace Nightfall.Core.Prog
variable {S : Sig} {ε α β σ : Type} {bad : S.Op → Option ε} {H : Handler S σ}

def refuse (bad : S.Op → Option ε) : Prog S ε α → Prog S ε α
  | .ret a => .ret a
  | .err e => .err e
  | .op o k =>
    match bad o with
    | some e => .err e
    | none => .op o fun r => (k r).refuse bad

@[simp] theorem refuse_ret (a : α) : (Prog.ret a : Prog S ε α).refuse bad = .ret a := rfl

@[simp] theorem refuse_err (e : ε) : (Prog.err e : Prog S ε α).refuse bad = .err e := rfl

theorem refuse_op_none {o : S.Op} {k : S.Res o → Prog S ε α} (h : bad o = none) :
    (Prog.op o k).refuse bad = .op o fun r => (k r).refuse bad := by
  rw [refuse, h]

theorem refuse_op_some {o : S.Op} {k : S.Res o → Prog S ε α} {e : ε} (h : bad o = some e) :
    (Prog.op o k).refuse bad = .err e := by
  rw [refuse, h]

theorem refuse_bind (f : α → Prog S ε β) : ∀ p : Prog S ε α,
    (p >>= f).refuse bad = p.refuse bad >>= fun a => (f a).refuse bad
  | .ret _ => rfl
  | .err _ => rfl
  | .op o k => by
    cases h : bad o with
    | some e => rw [op_bind, refuse_op_some h, refuse_op_some h, err_bind]
    | none =>
      rw [op_bind, refuse_op_none h, refuse_op_none h, op_bind]
      exact congrArg (Prog.op o) (funext fun r => refuse_bind f (k r))

theorem Calls.refuse {P : S.Op → Prop} {p : Prog S ε α} (hp : p.Calls P) :
    (p.refuse bad).Calls P := by
  induction hp with
  | ret => exact .ret
  | err => exact .err
  | @op o k ho _ ih =>
    cases h : bad o with
    | some e =>
      rw [refuse_op_some h]
      exact .err
    | none =>
      rw [refuse_op_none h]
      exact .op ho ih

/-- A program without refused operations. -/
theorem refuse_of_calls {p : Prog S ε α} (hp : p.Calls fun o => bad o = none) :
    p.refuse bad = p := by
  induction hp with
  | ret => rfl
  | err => rfl
  | @op o k ho _ ih =>
    rw [refuse_op_none ho]
    exact congrArg (Prog.op o) (funext ih)

/-- Nothing of the run is refused. -/
theorem run_refuse : ∀ {p : Prog S ε α} {s : σ}, (∀ o ∈ p.ops H s, bad o = none) →
    (p.refuse bad).run H s = p.run H s ∧ (p.refuse bad).trace H s = p.trace H s
  | .ret _, _, _ => ⟨rfl, rfl⟩
  | .err _, _, _ => ⟨rfl, rfl⟩
  | .op o k, s, h => by
    have ho : bad o = none := h o List.mem_cons_self
    have hrest := run_refuse (p := k (H o s).1) (s := (H o s).2) fun o' ho' =>
      h o' (List.mem_cons_of_mem o ho')
    rw [refuse_op_none ho]
    exact ⟨hrest.1, congrArg (List.cons _) hrest.2⟩

/-- The run of a program with refused operations ends at the first of them, having
executed what stands before it. -/
theorem refuse_cases (H : Handler S σ) (bad : S.Op → Option ε) : ∀ (p : Prog S ε α) (s : σ),
    (∀ o ∈ p.ops H s, bad o = none) ∨
    ∃ before ev rest e, p.trace H s = before ++ ev :: rest ∧ (∀ e' ∈ before, bad e'.op = none) ∧
      bad ev.op = some e ∧ (p.refuse bad).run H s = (.error e, ev.pre) ∧
      (p.refuse bad).trace H s = before
  | .ret _, _ => .inl (by simp)
  | .err _, _ => .inl (by simp)
  | .op o k, s => by
    cases ho : bad o with
    | some e =>
      refine .inr ⟨[], ⟨o, s, (H o s).2⟩, _, e, rfl, by simp, ho, ?_, ?_⟩
      · rw [refuse_op_some ho, run_err]
      · rw [refuse_op_some ho, trace]
    | none =>
      rcases refuse_cases H bad (k (H o s).1) (H o s).2 with
        hnone | ⟨before, ev, rest, e, htrace, hbefore, hev, hrun, hend⟩
      · left
        intro o' ho'
        rcases List.mem_cons.mp ho' with rfl | ho'
        · exact ho
        · exact hnone o' ho'
      · refine .inr ⟨⟨o, s, (H o s).2⟩ :: before, ev, rest, e, ?_, ?_, hev, ?_, ?_⟩
        · rw [trace, htrace, List.cons_append]
        · intro e' he'
          rcases List.mem_cons.mp he' with rfl | he'
          · exact ho
          · exact hbefore e' he'
        · rw [refuse_op_none ho, run_op, hrun]
        · rw [refuse_op_none ho, trace, hend]

/-- What returns has met no refusal. -/
theorem run_of_refuse_ok {p : Prog S ε α} {s t : σ} {a : α}
    (h : (p.refuse bad).run H s = (.ok a, t)) :
    p.run H s = (.ok a, t) ∧ (p.refuse bad).trace H s = p.trace H s := by
  rcases refuse_cases H bad p s with
    hnone | ⟨before, ev, rest, e, -, -, -, hrun, -⟩
  · obtain ⟨hrun, htrace⟩ := run_refuse hnone
    exact ⟨hrun.symm.trans h, htrace⟩
  · rw [h] at hrun
    cases hrun

/-- A party that may raise at any point may be refused at any operation. -/
theorem safe_refuse {C : Contract S σ} {Q : Except ε α → List (Event S σ) → σ → Prop}
    (hQ : ∀ e h s, Q (.error e) h s) : ∀ {p : Prog S ε α} {h : List (Event S σ)} {s : σ},
    Safe H C Q p h s → Safe H C Q (p.refuse bad) h s
  | .ret _, _, _, hp => hp
  | .err _, _, _, hp => hp
  | .op o k, h, s, hp => by
    cases ho : bad o with
    | some e =>
      rw [refuse_op_some ho]
      exact fun s' _ => hQ e h s'
    | none =>
      rw [refuse_op_none ho]
      exact fun s' hr hc => ⟨(hp s' hr hc).1, safe_refuse hQ (hp s' hr hc).2⟩

end Nightfall.Core.Prog
