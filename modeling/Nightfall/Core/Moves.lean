import Mathlib.Tactic.Common

/-!
# Runs of a partial step function

* `moves`: a list of moves, `none` when one of them is not possible.
* `moves_inv`: what every move keeps holds after a run.
-/
namespace Nightfall.Core

variable {σ μ : Type} {step : σ → μ → Option σ}

def moves (step : σ → μ → Option σ) : List μ → σ → Option σ
  | [], s => some s
  | m :: ms, s => (step s m).bind (moves step ms)

theorem moves_cons {m : μ} {ms : List μ} {s s' : σ} :
    moves step (m :: ms) s = some s' ↔ ∃ s₁, step s m = some s₁ ∧ moves step ms s₁ = some s' :=
  Option.bind_eq_some_iff

theorem moves_append {ms ms' : List μ} {s s' s'' : σ} (h : moves step ms s = some s')
    (h' : moves step ms' s' = some s'') : moves step (ms ++ ms') s = some s'' := by
  induction ms generalizing s with
  | nil =>
    obtain rfl := Option.some.inj h
    exact h'
  | cons m ms ih =>
    obtain ⟨s₁, hm, hms⟩ := moves_cons.mp h
    exact moves_cons.mpr ⟨s₁, hm, ih hms⟩

theorem moves_inv {I : σ → Prop} (hstep : ∀ s m s', I s → step s m = some s' → I s')
    {ms : List μ} {s s' : σ} (hs : I s) (h : moves step ms s = some s') : I s' := by
  induction ms generalizing s with
  | nil =>
    obtain rfl := Option.some.inj h
    exact hs
  | cons m ms ih =>
    obtain ⟨s₁, hm, hms⟩ := moves_cons.mp h
    exact ih (hstep s m s₁ hs hm) hms

end Nightfall.Core
