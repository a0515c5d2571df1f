import Mathlib.Data.List.Chain
import Mathlib.Logic.Relation

/-!
# The branches of an ordered graph

The successors of a node are a list, and a walk takes them in order. A node is left of
another one when a walk meets it in an earlier branch: `next` gives the successors, and a
branch below a path avoids the path.

* `Reach`: a way that avoids a set.
* `reach_of_closed`, `reach_around`, `reach_first`: ways that meet a closed set, that go
  around one, and that leave their first node for good.
* `LeftOf`: the order of the branches, without reference to a search.
* `ClosedWalk`: a cycle that avoids a set.
-/
namespace Nightfall.Core

variable {α : Type} {E : α → α → Prop} {avoid avoid' : α → Prop}

/-! ## Ways -/

/-- A way from `a` to `b` whose nodes, both ends included, are not to be avoided. -/
def Reach (E : α → α → Prop) (avoid : α → Prop) (a b : α) : Prop :=
  ¬ avoid a ∧ Relation.ReflTransGen (fun x y => E x y ∧ ¬ avoid y) a b

theorem Reach.refl {a : α} (ha : ¬ avoid a) : Reach E avoid a a := ⟨ha, .refl⟩

theorem Reach.left {a b : α} (h : Reach E avoid a b) : ¬ avoid a := h.1

theorem Reach.right {a b : α} (h : Reach E avoid a b) : ¬ avoid b := by
  rcases Relation.ReflTransGen.cases_tail h.2 with rfl | ⟨_, _, hstep⟩
  · exact h.1
  · exact hstep.2

theorem Reach.tail {a b c : α} (h : Reach E avoid a b) (hbc : E b c) (hc : ¬ avoid c) :
    Reach E avoid a c := ⟨h.1, h.2.tail ⟨hbc, hc⟩⟩

theorem Reach.head {a b c : α} (ha : ¬ avoid a) (hab : E a b) (h : Reach E avoid b c) :
    Reach E avoid a c := ⟨ha, .head ⟨hab, h.1⟩ h.2⟩

theorem Reach.mono {a b : α} (h : Reach E avoid a b) (hle : ∀ x, avoid' x → avoid x) :
    Reach E avoid' a b := by
  obtain ⟨ha, h⟩ := h
  refine ⟨fun hno => ha (hle a hno), ?_⟩
  induction h with
  | refl => exact .refl
  | tail _ hstep ih => exact ih.tail ⟨hstep.1, fun hno => hstep.2 (hle _ hno)⟩

/-- No way leaves a set that is closed up to what the way avoids. -/
theorem reach_of_closed {B : α → Prop} (hclosed : ∀ b, B b → ∀ d, E b d → B d ∨ avoid d)
    {a b : α} (ha : B a) (h : Reach E avoid a b) : B b := by
  obtain ⟨-, h⟩ := h
  induction h with
  | refl => exact ha
  | tail _ hstep ih => exact (hclosed _ ih _ hstep.1).resolve_right hstep.2

/-- A way to a node outside of a closed set goes around it. -/
theorem reach_around {B : α → Prop} (hclosed : ∀ b, B b → ∀ d, E b d → B d ∨ avoid d)
    {a b : α} (hb : ¬ B b) (h : Reach E avoid a b) : Reach E (fun x => avoid x ∨ B x) a b := by
  obtain ⟨ha, h⟩ := h
  induction h with
  | refl => exact .refl fun hno => hno.elim ha hb
  | @tail b c hab hbc ih =>
    have hout : ¬ B b := fun hin => hb ((hclosed b hin c hbc.1).resolve_right hbc.2)
    exact (ih hout).tail hbc.1 fun hno => hno.elim hbc.2 hb

/-- A way leaves its first node for the last time and then avoids it. -/
theorem reach_first {a b : α} (h : Reach E avoid a b) :
    b = a ∨ ∃ m, E a m ∧ Reach E (fun x => avoid x ∨ x = a) m b := by
  obtain ⟨ha, h⟩ := h
  induction h with
  | refl => exact .inl rfl
  | @tail b c _ hbc ih =>
    by_cases hc : c = a
    · exact .inl hc
    · have hout : ¬ (avoid c ∨ c = a) := fun hno => hno.elim hbc.2 hc
      rcases ih with rfl | ⟨m, ham, hmb⟩
      · exact .inr ⟨c, hbc.1, .refl hout⟩
      · exact .inr ⟨m, ham, hmb.tail hbc.1 hout⟩

theorem reach_iff_first {a b : α} (ha : ¬ avoid a) :
    Reach E avoid a b ↔ b = a ∨ ∃ m, E a m ∧ Reach E (fun x => avoid x ∨ x = a) m b := by
  refine ⟨reach_first, ?_⟩
  rintro (rfl | ⟨m, ham, hmb⟩)
  · exact .refl ha
  · exact .head ha ham (hmb.mono fun _ => .inl)

/-- Along a chain every node leads to the last one. -/
theorem reach_of_isChain : ∀ {path : List α} {n g : α}, (path ++ [n]).IsChain E →
    (∀ v ∈ path ++ [n], ¬ avoid v) → g ∈ path ++ [n] → Reach E avoid g n
  | [], n, g, _, hfree, hg => by
    rw [List.mem_singleton.mp hg]
    exact .refl (hfree n List.mem_cons_self)
  | p :: path, n, g, hchain, hfree, hg => by
    rw [List.cons_append, List.isChain_cons] at hchain
    have hrest : ∀ {g}, g ∈ path ++ [n] → Reach E avoid g n :=
      reach_of_isChain hchain.2 fun v hv => hfree v (List.mem_cons_of_mem _ hv)
    rcases List.mem_cons.mp hg with rfl | hg
    · obtain ⟨y, hy⟩ : ∃ y, (path ++ [n]).head? = some y := by
        cases path <;> simp
      exact .head (hfree g List.mem_cons_self) (hchain.1 y hy) (hrest (List.mem_of_head? hy))
    · exact hrest hg

/-! ## Cycles -/

/-- A walk from `x` back to `x` with no node to be avoided. -/
def ClosedWalk (E : α → α → Prop) (avoid : α → Prop) (x : α) : Prop :=
  Relation.TransGen (fun a b => E a b ∧ ¬ avoid b) x x

theorem ClosedWalk.congr {x : α} (h : ∀ y, avoid y ↔ avoid' y) :
    ClosedWalk E avoid x ↔ ClosedWalk E avoid' x := by
  obtain rfl : avoid = avoid' := funext fun y => propext (h y)
  rfl

theorem ClosedWalk.cycle {x : α} (h : ClosedWalk E avoid x) : Relation.TransGen E x x :=
  Relation.TransGen.mono (fun _ _ hstep => hstep.1) x x h

/-! ## Branches -/

section Branches

/-- The edges of an ordered graph. -/
def Next (next : α → List α) (a b : α) : Prop := b ∈ next a

/-- Below `path`, among the branches `ns`, the node `y` is met in an earlier branch than
`x`: in a branch that does not lead to `x`, before one that does, or, where the first
branch that leads to `x` leads on, further down. -/
inductive LeftOf (next : α → List α) : List α → List α → α → α → Prop
  | here {path ns : List α} {n y x : α} : Reach (Next next) (· ∈ path) n y →
      ¬ Reach (Next next) (· ∈ path) n x → LeftOf next path (n :: ns) y x
  | skip {path ns : List α} {n y x : α} : ¬ Reach (Next next) (· ∈ path) n x →
      LeftOf next path ns y x → LeftOf next path (n :: ns) y x
  | into {path ns : List α} {n y x : α} : Reach (Next next) (· ∈ path) n x → n ≠ x →
      LeftOf next (path ++ [n]) (next n) y x → LeftOf next path (n :: ns) y x

variable {next : α → List α} {path ns : List α} {n x y : α}

/-- A branch that does not lead to `x` is left of it. -/
theorem leftOf_cons_of_not (h : ¬ Reach (Next next) (· ∈ path) n x) :
    LeftOf next path (n :: ns) y x ↔
      Reach (Next next) (· ∈ path) n y ∨ LeftOf next path ns y x := by
  constructor
  · intro hleft
    cases hleft with
    | here hy _ => exact .inl hy
    | skip _ hleft => exact .inr hleft
    | into hx _ _ => exact absurd hx h
  · rintro (hy | hleft)
    · exact .here hy h
    · exact .skip h hleft

/-- The first branch that leads to `x` decides. -/
theorem leftOf_cons_of_reach (h : Reach (Next next) (· ∈ path) n x) :
    LeftOf next path (n :: ns) y x ↔ n ≠ x ∧ LeftOf next (path ++ [n]) (next n) y x := by
  constructor
  · intro hleft
    cases hleft with
    | here _ hno => exact absurd h hno
    | skip hno _ => exact absurd h hno
    | into _ hne hleft => exact ⟨hne, hleft⟩
  · exact fun ⟨hne, hleft⟩ => .into h hne hleft

end Branches
end Nightfall.Core
