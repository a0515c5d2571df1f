import Nightfall.Core.Prog

/-!
# One program under two handlers

A handler may know more of the state than another. As long as a program calls only
operations on which the two agree, it does not show.

* `Calls.run_proj`: a run under the finer handler, seen from the coarser one.
-/
namespace Nightfall.Core.Prog
variable {S : Sig} {ε α σ τ : Type}

/-- `f` forgets a part of the state. In the states of `I`, which the operations of `P`
keep, these do the same with it and without. -/
theorem Calls.run_proj {P : S.Op → Prop} {H : Handler S σ} {H' : Handler S τ} {f : σ → τ}
    {I : σ → Prop} (hstep : ∀ o s, P o → I s →
      (H o s).1 = (H' o (f s)).1 ∧ f (H o s).2 = (H' o (f s)).2 ∧ I (H o s).2)
    {p : Prog S ε α} (hp : p.Calls P) : ∀ {s : σ}, I s →
      (p.run H s).1 = (p.run H' (f s)).1 ∧ f (p.run H s).2 = (p.run H' (f s)).2 := by
  induction hp with
  | ret => exact fun _ => ⟨rfl, rfl⟩
  | err => exact fun _ => ⟨rfl, rfl⟩
  | op ho _ ih =>
    intro s hs
    obtain ⟨hanswer, hstate, hnext⟩ := hstep _ s ho hs
    have hrest := ih (H _ s).1 hnext
    rw [hstate, hanswer] at hrest
    rw [run_op, run_op, hanswer]
    exact hrest

end Nightfall.Core.Prog
