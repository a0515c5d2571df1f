import Nightfall.Core.Prog

/-!
# Crash points

A process may die between any two operations; the state then left is `crash n`
and the operations behind it are `executed n`. `Track Φ p h s Q`: when `p` runs
from `s`, after the operations `h`, every operation is about to start in a state
and with a history that satisfy `Φ`, and the run ends in `Q`.

* `track_bind`: how it composes.
* `track_stretch`: a stretch of operations of one kind, with what is known of
  its end.
* `track_crash`: `Φ` holds at every crash point.
-/
namespace Nightfall.Core.Prog
variable {S : Sig} {ε α β σ : Type}

def Track (H : Handler S σ) (Φ : List (Event S σ) → σ → Prop) :
    Prog S ε α → List (Event S σ) → σ → (Except ε α → List (Event S σ) → σ → Prop) → Prop
  | .ret a, h, s, Q => Q (.ok a) h s
  | .err e, h, s, Q => Q (.error e) h s
  | .op o k, h, s, Q =>
    Φ h s ∧ (k (H o s).1).Track H Φ (h ++ [⟨o, s, (H o s).2⟩]) (H o s).2 Q

variable {H : Handler S σ} {Φ : List (Event S σ) → σ → Prop} {h : List (Event S σ)} {s : σ}

@[simp] theorem track_ret {a : α} {Q : Except ε α → List (Event S σ) → σ → Prop} :
    (Prog.ret a : Prog S ε α).Track H Φ h s Q ↔ Q (.ok a) h s := Iff.rfl

@[simp] theorem track_err {e : ε} {Q : Except ε α → List (Event S σ) → σ → Prop} :
    (Prog.err e : Prog S ε α).Track H Φ h s Q ↔ Q (.error e) h s := Iff.rfl

@[simp] theorem track_op {o : S.Op} {k : S.Res o → Prog S ε α}
    {Q : Except ε α → List (Event S σ) → σ → Prop} :
    (Prog.op o k).Track H Φ h s Q ↔
      Φ h s ∧ (k (H o s).1).Track H Φ (h ++ [⟨o, s, (H o s).2⟩]) (H o s).2 Q := Iff.rfl

/-- The postcondition of a bound program. -/
def thenTrack (H : Handler S σ) (Φ : List (Event S σ) → σ → Prop) (f : α → Prog S ε β)
    (Q : Except ε β → List (Event S σ) → σ → Prop) :
    Except ε α → List (Event S σ) → σ → Prop
  | .ok a, h, s => (f a).Track H Φ h s Q
  | .error e, h, s => Q (.error e) h s

theorem track_bind {f : α → Prog S ε β} {Q : Except ε β → List (Event S σ) → σ → Prop} :
    ∀ {p : Prog S ε α} {h : List (Event S σ)} {s : σ},
      (p >>= f).Track H Φ h s Q ↔ p.Track H Φ h s (thenTrack H Φ f Q)
  | .ret _, _, _ => Iff.rfl
  | .err _, _, _ => Iff.rfl
  | .op _ _, _, _ => and_congr Iff.rfl track_bind

theorem track_mono {Q Q' : Except ε α → List (Event S σ) → σ → Prop}
    (hQ : ∀ r h s, Q r h s → Q' r h s) :
    ∀ {p : Prog S ε α} {h : List (Event S σ)} {s : σ},
      p.Track H Φ h s Q → p.Track H Φ h s Q'
  | .ret _, _, _, hp => hQ _ _ _ hp
  | .err _, _, _, hp => hQ _ _ _ hp
  | .op _ _, _, _, hp => ⟨hp.1, track_mono hQ hp.2⟩

/-- A stretch of operations of `A`, which together stay within `R`; what is
known of its end comes from `Wp`. -/
theorem track_stretch {A : S.Op → Prop} {R : σ → σ → Prop} (hr : ∀ s, R s s)
    (ht : ∀ s t u, R s t → R t u → R s u) (hA : ∀ o s, A o → R s (H o s).2) {p : Prog S ε α}
    {W : Except ε α → σ → Prop} {Q : Except ε α → List (Event S σ) → σ → Prop} (hp : p.Calls A)
    (hw : p.Wp H s W) (hΦ : ∀ h' t, R s t → (∀ e ∈ h', A e.op) → Φ (h ++ h') t)
    (hQ : ∀ r h' t, W r t → R s t → (∀ e ∈ h', A e.op) → Q r (h ++ h') t) :
    p.Track H Φ h s Q := by
  induction hp generalizing h s with
  | ret => simpa using hQ _ [] s (wp_ret.mp hw) (hr s) (by simp)
  | err => simpa using hQ _ [] s (wp_err.mp hw) (hr s) (by simp)
  | @op o k ho _ ih =>
    refine ⟨by simpa using hΦ [] s (hr s) (by simp), ih _ (wp_op.mp hw) ?_ ?_⟩
    · intro h' t hR hh
      have := hΦ (⟨o, s, (H o s).2⟩ :: h') t (ht _ _ _ (hA o s ho) hR)
        (List.forall_mem_cons.mpr ⟨ho, hh⟩)
      simpa using this
    · intro r h' t hW hR hh
      have := hQ r (⟨o, s, (H o s).2⟩ :: h') t hW (ht _ _ _ (hA o s ho) hR)
        (List.forall_mem_cons.mpr ⟨ho, hh⟩)
      simpa using this

@[simp] theorem crash_zero (H : Handler S σ) (p : Prog S ε α) (s : σ) : p.crash H 0 s = s := by
  cases p <;> rfl

/-- Every crash point of the run satisfies `Φ`. -/
theorem track_crash {Q : Except ε α → List (Event S σ) → σ → Prop} :
    ∀ {p : Prog S ε α} {h : List (Event S σ)} {s : σ}, p.Track H Φ h s Q →
      ∀ n < (p.trace H s).length, Φ (h ++ p.executed H n s) (p.crash H n s)
  | .ret _, _, _, _, n, hn => by simp [trace] at hn
  | .err _, _, _, _, n, hn => by simp [trace] at hn
  | .op o k, h, s, hp, 0, _ => by simpa [executed, crash] using hp.1
  | .op o k, h, s, hp, n + 1, hn => by
    have := track_crash hp.2 n (by simpa [trace] using hn)
    simpa [executed, crash, trace] using this

end Nightfall.Core.Prog
