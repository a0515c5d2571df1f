import Mathlib.Data.List.Nodup
import Mathlib.Data.List.Perm.Subperm
import Nightfall.Core.Branches

/-!
# Dependency cycles (`metrics/runner/backend_collector.py`, `frontend_collector.py`)

Both collectors have the same `_detect_cycles`: one depth-first search that marks, at each
edge back to its own path, the nodes of the path from there on. A node whose cycles all
pass through nodes the search has left already is not marked.

* `detectCycles`: the search, with its four collections; it counts its depth down from the
  number of keys, which `detectCycles_eq` shows to be enough.
* `Explores`: what a run over some branches adds, in terms of the graph alone.
* `detectCycles_iff`: exactly when the marked nodes are the nodes on cycles.
-/
namespace Nightfall.Metrics
open Nightfall.Core

/-- `dict[str, list[str]]`, the keys in the order they were inserted. -/
abbrev Adjacency := List (String × List String)

def keys (adj : Adjacency) : List String := adj.map (·.1)

/-- `adj.get(node, [])`. -/
def neighbors (adj : Adjacency) (node : String) : List String := (adj.lookup node).getD []

structure Search where
  inCycle : List String
  visited : List String
  gray : List String
  path : List String
  deriving DecidableEq, Repr

def Search.enter (s : Search) (node : String) : Search :=
  { s with visited := node :: s.visited, gray := node :: s.gray, path := s.path ++ [node] }

def Search.leave (s : Search) (node : String) : Search :=
  { s with path := s.path.dropLast, gray := s.gray.erase node }

/-- The body of the loop over the neighbors. -/
def visitNeighbor (adj : Adjacency) (visit : String → Search → Option Search) (s : Search)
    (neighbor : String) : Option Search :=
  if neighbor ∉ keys adj then some s
  else if neighbor ∈ s.gray then
    some { s with inCycle := s.inCycle ++ s.path.drop (s.path.idxOf neighbor) }
  else if neighbor ∉ s.visited then visit neighbor s
  else some s

def dfs (adj : Adjacency) : Nat → String → Search → Option Search
  | 0, _, _ => none
  | fuel + 1, node, s => do
    let s ← (neighbors adj node).foldlM (visitNeighbor adj (dfs adj fuel)) (s.enter node)
    return s.leave node

/-- The body of the loop over the keys. -/
def visitStart (adj : Adjacency) (s : Search) (start : String) : Option Search :=
  if start ∉ s.visited then dfs adj (adj.length + 1) start { s with path := [] } else some s

/-- mirrors metrics/runner/backend_collector.py:70-95 and
metrics/runner/frontend_collector.py:501-526 -/
def detectCycles (adj : Adjacency) : Option (List String) := do
  let s ← (keys adj).foldlM (visitStart adj) ⟨[], [], [], []⟩
  return s.inCycle

/-! ## The graph -/

/-- The neighbors that are keys. -/
def next (adj : Adjacency) (node : String) : List String :=
  (neighbors adj node).filter (· ∈ keys adj)

/-- An edge between keys. -/
abbrev Edge (adj : Adjacency) : String → String → Prop := Next (next adj)

variable {adj : Adjacency} {s s' s₁ : Search} {ns : List String} {n : String}

/-- The state between two steps: the path is a chain of keys, the gray nodes are those of
the path, and what has been left leads to visited nodes only. -/
structure Ready (adj : Adjacency) (s : Search) : Prop where
  nodup : s.path.Nodup
  keys : ∀ v ∈ s.path, v ∈ keys adj
  gray : s.gray = s.path.reverse
  visited : ∀ v ∈ s.path, v ∈ s.visited
  chain : s.path.IsChain (Edge adj)
  closed : ∀ b ∈ s.visited, b ∉ s.path → ∀ d, Edge adj b d → d ∈ s.visited

/-- A node the search has left. -/
def Black (s : Search) (b : String) : Prop := b ∈ s.visited ∧ b ∉ s.path

/-- A node the branches lead to below the path. -/
def Met (adj : Adjacency) (s : Search) (ns : List String) (v : String) : Prop :=
  ∃ n ∈ ns, Reach (Edge adj) (· ∈ s.path) n v

/-- `x` stands at `g` or behind it on the path. -/
def Behind (path : List String) (g x : String) : Prop := g ∈ path ∧ x ∈ path.drop (path.idxOf g)

/-- An edge from the branches, or from a new node below them, leads back to `g`. -/
def LeadsBack (adj : Adjacency) (s : Search) (ns : List String) (g : String) : Prop :=
  g ∈ ns ∨ ∃ u, u ∉ s.visited ∧ Met adj s ns u ∧ Edge adj u g

/-- What a run over the branches marks: on the path, the nodes behind the end of an edge
back; below it, the new nodes with a cycle of nodes that were not left before. -/
def Marks (adj : Adjacency) (s : Search) (ns : List String) (x : String) : Prop :=
  (∃ g, Behind s.path g x ∧ LeadsBack adj s ns g) ∨
    x ∉ s.visited ∧ Met adj s ns x ∧
      ClosedWalk (Edge adj) (fun y => Black s y ∨ LeftOf (next adj) s.path ns y x) x

/-- What a run over the branches `ns` does. -/
structure Explores (adj : Adjacency) (s : Search) (ns : List String) (s' : Search) : Prop where
  path : s'.path = s.path
  gray : s'.gray = s.gray
  visited : ∀ v, v ∈ s'.visited ↔ v ∈ s.visited ∨ Met adj s ns v
  inCycle : ∀ x, x ∈ s'.inCycle ↔ x ∈ s.inCycle ∨ Marks adj s ns x

/-! ## One branch after the other -/

theorem Ready.black_closed (h : Ready adj s) :
    ∀ b, Black s b → ∀ d, Edge adj b d → Black s d ∨ d ∈ s.path := by
  rintro b ⟨hb, hpath⟩ d hd
  by_cases hin : d ∈ s.path
  · exact .inr hin
  · exact .inl ⟨h.closed b hb hpath d hd, hin⟩

theorem met_cons {v : String} : Met adj s (n :: ns) v ↔
    Reach (Edge adj) (· ∈ s.path) n v ∨ Met adj s ns v := by
  simp [Met]

theorem met_singleton {v : String} : Met adj s [n] v ↔ Reach (Edge adj) (· ∈ s.path) n v := by
  simp [Met]

theorem met_congr {v : String} (hpath : s₁.path = s.path) : Met adj s₁ ns v ↔ Met adj s ns v := by
  rw [Met, Met, hpath]

theorem Explores.ready (h : Explores adj s ns s') (hs : Ready adj s) : Ready adj s' := by
  refine ⟨h.path ▸ hs.nodup, h.path ▸ hs.keys, by rw [h.gray, h.path, hs.gray], fun v hv => ?_,
    h.path ▸ hs.chain, fun b hb hpath d hd => ?_⟩
  · rw [h.path] at hv
    exact (h.visited v).mpr (.inl (hs.visited v hv))
  · rw [h.path] at hpath
    refine (h.visited d).mpr ?_
    rcases (h.visited b).mp hb with hb | ⟨n, hn, hreach⟩
    · exact .inl (hs.closed b hb hpath d hd)
    · by_cases hin : d ∈ s.path
      · exact .inl (hs.visited d hin)
      · exact .inr ⟨n, hn, hreach.tail hd hin⟩

theorem explores_nil : Explores adj s [] s := by
  have hmet : ∀ v, ¬ Met adj s [] v := by simp [Met]
  refine ⟨rfl, rfl, fun v => by simp [hmet], fun x => ?_⟩
  have hno : ¬ Marks adj s [] x := by
    rintro (⟨g, -, hg | ⟨u, -, hu, -⟩⟩ | ⟨-, hx, -⟩)
    · cases hg
    · exact hmet u hu
    · exact hmet x hx
  simp [hno]

/-- The nodes left behind the first branch are those before it and those it leads to. -/
theorem Explores.black_iff (h : Explores adj s [n] s₁) {b : String} :
    Black s₁ b ↔ Black s b ∨ Reach (Edge adj) (· ∈ s.path) n b := by
  rw [Black, Black, h.path, h.visited, met_singleton]
  constructor
  · rintro ⟨hb | hb, hpath⟩
    · exact .inl ⟨hb, hpath⟩
    · exact .inr hb
  · rintro (⟨hb, hpath⟩ | hb)
    · exact ⟨.inl hb, hpath⟩
    · exact ⟨.inr hb, hb.right⟩

/-- An edge back is found in the first branch or in the others. -/
theorem Explores.leadsBack_cons (h : Explores adj s [n] s₁) {g : String} :
    LeadsBack adj s (n :: ns) g ↔ LeadsBack adj s [n] g ∨ LeadsBack adj s₁ ns g := by
  constructor
  · rintro (hg | ⟨u, hu, hmet, hug⟩)
    · rcases List.mem_cons.mp hg with rfl | hg
      · exact .inl (.inl List.mem_cons_self)
      · exact .inr (.inl hg)
    · rcases met_cons.mp hmet with hreach | hmet
      · exact .inl (.inr ⟨u, hu, met_singleton.mpr hreach, hug⟩)
      · by_cases hreach : Reach (Edge adj) (· ∈ s.path) n u
        · exact .inl (.inr ⟨u, hu, met_singleton.mpr hreach, hug⟩)
        · refine .inr (.inr ⟨u, fun hin => ?_, (met_congr h.path).mpr hmet, hug⟩)
          exact ((h.visited u).mp hin).elim hu fun hmet => hreach (met_singleton.mp hmet)
  · rintro ((hg | ⟨u, hu, hmet, hug⟩) | hg | ⟨u, hu, hmet, hug⟩)
    · exact .inl (List.mem_singleton.mp hg ▸ List.mem_cons_self)
    · exact .inr ⟨u, hu, met_cons.mpr (.inl (met_singleton.mp hmet)), hug⟩
    · exact .inl (List.mem_cons_of_mem _ hg)
    · exact .inr ⟨u, fun hin => hu ((h.visited u).mpr (.inl hin)),
        met_cons.mpr (.inr ((met_congr h.path).mp hmet)), hug⟩

/-- What the first branch marks and what the others mark afterwards. -/
theorem Explores.marks_cons (h : Explores adj s [n] s₁) {x : String} :
    Marks adj s (n :: ns) x ↔ Marks adj s [n] x ∨ Marks adj s₁ ns x := by
  have hback : (∃ g, Behind s.path g x ∧ LeadsBack adj s (n :: ns) g) ↔
      (∃ g, Behind s.path g x ∧ LeadsBack adj s [n] g) ∨
        ∃ g, Behind s₁.path g x ∧ LeadsBack adj s₁ ns g := by
    rw [h.path, ← exists_or]
    exact exists_congr fun g => by rw [h.leadsBack_cons, and_or_left]
  have hnew : (x ∉ s.visited ∧ Met adj s (n :: ns) x ∧
        ClosedWalk (Edge adj) (fun y => Black s y ∨ LeftOf (next adj) s.path (n :: ns) y x) x) ↔
      (x ∉ s.visited ∧ Met adj s [n] x ∧
          ClosedWalk (Edge adj) (fun y => Black s y ∨ LeftOf (next adj) s.path [n] y x) x) ∨
        x ∉ s₁.visited ∧ Met adj s₁ ns x ∧
          ClosedWalk (Edge adj) (fun y => Black s₁ y ∨ LeftOf (next adj) s₁.path ns y x) x := by
    rw [met_cons, met_singleton, h.visited, met_singleton, met_congr h.path, h.path]
    by_cases hreach : Reach (Edge adj) (· ∈ s.path) n x
    · -- the first branch leads to it, and decides alone
      simp only [hreach, true_or, or_true, not_true_eq_false, false_and, or_false, true_and,
        leftOf_cons_of_reach hreach]
    · -- the nodes of the first branch are left of it
      have havoid : ∀ y, (Black s y ∨ LeftOf (next adj) s.path (n :: ns) y x) ↔
          (Black s₁ y ∨ LeftOf (next adj) s.path ns y x) := by
        intro y
        rw [leftOf_cons_of_not hreach, h.black_iff, or_assoc]
      rw [ClosedWalk.congr havoid]
      simp only [hreach, false_or, or_false, false_and, and_false]
  rw [Marks, Marks, Marks, hback, hnew]
  simp only [or_assoc, or_left_comm]

theorem explores_cons (h : Explores adj s [n] s₁) (h' : Explores adj s₁ ns s') :
    Explores adj s (n :: ns) s' := by
  refine ⟨h'.path.trans h.path, h'.gray.trans h.gray, fun v => ?_, fun x => ?_⟩
  · rw [h'.visited, h.visited, met_congr h.path, met_singleton, met_cons, or_assoc]
  · rw [h'.inCycle, h.inCycle, or_assoc, ← h.marks_cons]

/-! ## One branch -/

/-- An edge back to the path. -/
theorem explores_gray (hn : n ∈ s.path) : Explores adj s [n]
    { s with inCycle := s.inCycle ++ s.path.drop (s.path.idxOf n) } := by
  have hmet : ∀ v, ¬ Met adj s [n] v := fun v hv => (met_singleton.mp hv).left hn
  refine ⟨rfl, rfl, fun v => by simp [hmet], fun x => ?_⟩
  rw [List.mem_append]
  refine or_congr Iff.rfl ⟨fun hx => .inl ⟨n, ⟨hn, hx⟩, .inl List.mem_cons_self⟩, ?_⟩
  rintro (⟨g, hg, hin | ⟨u, -, hu, -⟩⟩ | ⟨-, hx, -⟩)
  · exact List.mem_singleton.mp hin ▸ hg.2
  · exact absurd hu (hmet u)
  · exact absurd hx (hmet x)

/-- A branch whose node was left before. -/
theorem explores_black (hs : Ready adj s) (hn : Black s n) : Explores adj s [n] s := by
  have hmet : ∀ v, Met adj s [n] v → v ∈ s.visited := fun v hv =>
    (reach_of_closed hs.black_closed hn (met_singleton.mp hv)).1
  refine ⟨rfl, rfl, fun v => ⟨.inl, fun hv => hv.elim id (hmet v)⟩, fun x => ?_⟩
  have hno : ¬ Marks adj s [n] x := by
    rintro (⟨g, hg, hin | ⟨u, hu, hmetu, -⟩⟩ | ⟨hx, hmetx, -⟩)
    · exact hn.2 (List.mem_singleton.mp hin ▸ hg.1)
    · exact hu (hmet u hmetu)
    · exact hx (hmet x hmetx)
  simp [hno]

theorem Ready.enter (hs : Ready adj s) (hkey : n ∈ Metrics.keys adj) (hn : n ∉ s.visited)
    (hedge : ∀ p ∈ s.path.getLast?, Edge adj p n) : Ready adj (s.enter n) := by
  have hpath : n ∉ s.path := fun hin => hn (hs.visited n hin)
  refine ⟨?_, fun v hv => ?_, ?_, fun v hv => ?_, ?_, fun b hb hout d hd => ?_⟩
  · refine List.nodup_append.mpr ⟨hs.nodup, List.nodup_singleton n, ?_⟩
    rintro v hv w hw rfl
    exact hpath (List.mem_singleton.mp hw ▸ hv)
  · rcases List.mem_append.mp hv with hv | hv
    · exact hs.keys v hv
    · exact List.mem_singleton.mp hv ▸ hkey
  · simp [Search.enter, hs.gray]
  · rcases List.mem_append.mp hv with hv | hv
    · exact List.mem_cons_of_mem _ (hs.visited v hv)
    · exact List.mem_singleton.mp hv ▸ List.mem_cons_self
  · exact hs.chain.append (.singleton n) fun p hp v hv => by
      cases hv
      exact hedge p hp
  · obtain ⟨hb', hne⟩ : b ∉ s.path ∧ b ≠ n := by simpa [Search.enter] using hout
    rcases List.mem_cons.mp hb with rfl | hb
    · exact absurd rfl hne
    · exact List.mem_cons_of_mem _ (hs.closed b hb hb' d hd)

theorem met_enter {v : String} : Met adj (s.enter n) (next adj n) v ↔
    ∃ m, Edge adj n m ∧ Reach (Edge adj) (fun x => x ∈ s.path ∨ x = n) m v := by
  have havoid : (fun x => x ∈ (s.enter n).path) = fun x => x ∈ s.path ∨ x = n := by
    funext x
    simp [Search.enter]
  rw [Met, havoid]
  rfl

/-- A branch leads to its node and to what its successors lead to. -/
theorem reach_enter {v : String} (hn : n ∉ s.path) : Reach (Edge adj) (· ∈ s.path) n v ↔
    v = n ∨ Met adj (s.enter n) (next adj n) v := by
  rw [met_enter]
  exact reach_iff_first hn

theorem leadsBack_enter {g : String} (hn : n ∉ s.path) (hvisited : n ∉ s.visited) :
    LeadsBack adj (s.enter n) (next adj n) g ↔
      ∃ u, u ∉ s.visited ∧ Reach (Edge adj) (· ∈ s.path) n u ∧ Edge adj u g := by
  constructor
  · rintro (hg | ⟨u, hu, hmet, hug⟩)
    · exact ⟨n, hvisited, .refl hn, hg⟩
    · exact ⟨u, fun hin => hu (List.mem_cons_of_mem _ hin), (reach_enter hn).mpr (.inr hmet), hug⟩
  · rintro ⟨u, hu, hreach, hug⟩
    by_cases hun : u = n
    · exact .inl (hun ▸ hug)
    · exact .inr ⟨u, fun hin => (List.mem_cons.mp hin).elim hun hu,
        ((reach_enter hn).mp hreach).resolve_left hun, hug⟩

theorem leadsBack_singleton {g : String} (hg : g ≠ n) : LeadsBack adj s [n] g ↔
    ∃ u, u ∉ s.visited ∧ Reach (Edge adj) (· ∈ s.path) n u ∧ Edge adj u g := by
  simp [LeadsBack, met_singleton, hg]

theorem behind_append {g x : String} (hn : n ∉ s.path) (hx : x ∈ s.path) :
    Behind (s.enter n).path g x ↔ Behind s.path g x := by
  have hne : x ≠ n := fun heq => hn (heq ▸ hx)
  unfold Behind Search.enter
  dsimp only
  by_cases hg : g ∈ s.path
  · rw [List.idxOf_append_of_mem hg,
      List.drop_append_of_le_length (Nat.le_of_lt (List.idxOf_lt_length_of_mem hg))]
    simp [hg, hne]
  · by_cases hgn : g = n
    · subst hgn
      rw [List.idxOf_append_of_notMem hg]
      simp [hg, hne]
    · simp [hg, hgn]

/-- Everything on the path leads down to its last node. -/
theorem behind_last {g : String} (hn : n ∉ s.path) :
    Behind (s.enter n).path g n ↔ g ∈ (s.enter n).path := by
  unfold Behind Search.enter
  dsimp only
  refine ⟨And.left, fun hg => ⟨hg, ?_⟩⟩
  rcases List.mem_append.mp hg with hg | hg
  · rw [List.idxOf_append_of_mem hg,
      List.drop_append_of_le_length (Nat.le_of_lt (List.idxOf_lt_length_of_mem hg))]
    simp
  · rw [List.mem_singleton.mp hg, List.idxOf_append_of_notMem hn]
    simp

/-- A cycle through a new node that avoids the nodes left before comes back to the path at
an edge from a node the new one leads to; and any such edge closes one. -/
theorem closedWalk_iff (hs : Ready adj s) (henter : Ready adj (s.enter n)) (hn : n ∉ s.visited) :
    ClosedWalk (Edge adj) (Black s) n ↔ ∃ g ∈ (s.enter n).path, ∃ u, u ∉ s.visited ∧
      Reach (Edge adj) (· ∈ s.path) n u ∧ Edge adj u g := by
  have hpath : n ∉ s.path := fun hin => hn (hs.visited n hin)
  constructor
  · intro hwalk
    suffices hall : ∀ a, a ∉ s.visited → Reach (Edge adj) (· ∈ s.path) n a →
        Relation.TransGen (fun a b => Edge adj a b ∧ ¬ Black s b) a n →
        ∃ g ∈ (s.enter n).path, ∃ u, u ∉ s.visited ∧ Reach (Edge adj) (· ∈ s.path) n u ∧
          Edge adj u g from hall n hn (.refl hpath) hwalk
    intro a ha hreach hback
    induction hback using Relation.TransGen.head_induction_on with
    | single hstep => exact ⟨n, by simp [Search.enter], _, ha, hreach, hstep.1⟩
    | @head a b hstep _ ih =>
      by_cases hb : b ∈ s.path
      · exact ⟨b, List.mem_append_left _ hb, a, ha, hreach, hstep.1⟩
      · have hnew : b ∉ s.visited := fun hin => hstep.2 ⟨hin, hb⟩
        exact ih hnew (hreach.tail hstep.1 hb)
  · rintro ⟨g, hg, u, hu, hreach, hug⟩
    have hfree : ∀ v ∈ (s.enter n).path, ¬ Black s v := by
      intro v hv hblack
      rcases List.mem_append.mp hv with hv | hv
      · exact hblack.2 hv
      · exact hn (List.mem_singleton.mp hv ▸ hblack.1)
    have hdown : Reach (Edge adj) (Black s) n u :=
      (reach_around hs.black_closed (fun hblack => hu hblack.1) hreach).mono fun _ => .inr
    have hup : Reach (Edge adj) (Black s) g n := reach_of_isChain henter.chain hfree hg
    exact (Relation.TransGen.tail' hdown.2 ⟨hug, hup.left⟩).trans_left hup.2

theorem black_enter (hn : n ∉ s.visited) {b : String} : Black (s.enter n) b ↔ Black s b := by
  have hne : b ∈ s.visited → b ≠ n := fun hb heq => hn (heq ▸ hb)
  simp only [Black, Search.enter, List.mem_cons, List.mem_append, List.not_mem_nil, or_false,
    not_or]
  constructor
  · rintro ⟨rfl | hb, hpath, hbn⟩
    · exact absurd rfl hbn
    · exact ⟨hb, hpath⟩
  · exact fun ⟨hb, hpath⟩ => ⟨.inr hb, hpath, hne hb⟩

/-- What is marked below a new node is what is marked in its branch. -/
theorem marks_enter (hs : Ready adj s) (henter : Ready adj (s.enter n)) (hn : n ∉ s.visited)
    {x : String} : Marks adj (s.enter n) (next adj n) x ↔ Marks adj s [n] x := by
  have hpath : n ∉ s.path := fun hin => hn (hs.visited n hin)
  unfold Marks
  rw [met_singleton]
  by_cases hx : x ∈ s.path
  · -- on the path: the ends of the edges back are other nodes than the new one
    have hvisited : x ∈ s.visited := hs.visited x hx
    have hold : ¬ x ∉ (s.enter n).visited := fun h => h (List.mem_cons_of_mem _ hvisited)
    simp only [hold, hvisited, not_true_eq_false, false_and, or_false]
    refine exists_congr fun g => ?_
    rw [behind_append hpath hx]
    refine and_congr_right fun hg => ?_
    have hne : g ≠ n := fun heq => hpath (heq ▸ hg.1)
    rw [leadsBack_enter hpath hn, leadsBack_singleton hne]
  · have hbehind : ∀ g, ¬ Behind s.path g x := fun g hg => hx (List.mem_of_mem_drop hg.2)
    simp only [hbehind, false_and, exists_false, false_or]
    by_cases hxn : x = n
    · -- the new node itself: its cycles come back to the path
      subst hxn
      have hold : ¬ x ∉ (s.enter x).visited := fun h => h List.mem_cons_self
      have hreach : Reach (Edge adj) (· ∈ s.path) x x := .refl hpath
      have havoid : ∀ y, (Black s y ∨ LeftOf (next adj) s.path [x] y x) ↔ Black s y := by
        intro y
        rw [leftOf_cons_of_reach hreach]
        simp
      simp only [hold, false_and, or_false, hn, not_false_eq_true, hreach, true_and,
        behind_last hpath, leadsBack_enter hpath hn]
      rw [ClosedWalk.congr havoid, closedWalk_iff hs henter hn]
    · -- a node below: the branch is the one its cycles were searched in
      have hbehind' : ∀ g, ¬ Behind (s.enter n).path g x := by
        intro g hg
        rcases List.mem_append.mp (List.mem_of_mem_drop hg.2) with hin | hin
        · exact hx hin
        · exact hxn (List.mem_singleton.mp hin)
      have hvisited : x ∉ (s.enter n).visited ↔ x ∉ s.visited := by
        simp [Search.enter, hxn]
      simp only [hbehind', false_and, exists_false, false_or, hvisited]
      refine and_congr_right fun _ => ?_
      by_cases hreach : Reach (Edge adj) (· ∈ s.path) n x
      · have hmet := ((reach_enter hpath).mp hreach).resolve_left hxn
        have havoid : ∀ y, (Black (s.enter n) y ∨
            LeftOf (next adj) (s.enter n).path (next adj n) y x) ↔
            (Black s y ∨ LeftOf (next adj) s.path [n] y x) := by
          intro y
          rw [black_enter hn, leftOf_cons_of_reach hreach]
          exact or_congr Iff.rfl ⟨fun h => ⟨Ne.symm hxn, h⟩, And.right⟩
        simp only [hmet, hreach, true_and]
        rw [ClosedWalk.congr havoid]
      · have hmet : ¬ Met adj (s.enter n) (next adj n) x := fun hmet =>
          hreach ((reach_enter hpath).mpr (.inr hmet))
        simp only [hmet, hreach, false_and]

theorem explores_white (hs : Ready adj s) (henter : Ready adj (s.enter n)) (hn : n ∉ s.visited)
    (h : Explores adj (s.enter n) (next adj n) s₁) : Explores adj s [n] (s₁.leave n) := by
  have hpath : n ∉ s.path := fun hin => hn (hs.visited n hin)
  refine ⟨?_, ?_, fun v => ?_, fun x => ?_⟩
  · simp [Search.leave, h.path, Search.enter]
  · simp [Search.leave, h.gray, Search.enter]
  · rw [met_singleton, reach_enter hpath]
    refine (h.visited v).trans ?_
    simp only [Search.enter, List.mem_cons, or_assoc, or_left_comm]
  · exact (h.inCycle x).trans (or_congr Iff.rfl (marks_enter hs henter hn))

/-! ## The whole search -/

/-- A loop whose steps each explore one branch explores them all. -/
theorem foldlM_explores (step : Search → String → Option Search) (path : List String) :
    ∀ (ns : List String) {s : Search}, (∀ s n, n ∈ ns → Ready adj s → s.path = path →
        ∃ s', step s n = some s' ∧ Explores adj s [n] s') → Ready adj s → s.path = path →
      ∃ s', ns.foldlM step s = some s' ∧ Explores adj s ns s'
  | [], s, _, _, _ => ⟨s, rfl, explores_nil⟩
  | n :: ns, s, hstep, hs, hpath => by
    obtain ⟨s₁, hs₁, h⟩ := hstep s n List.mem_cons_self hs hpath
    obtain ⟨s', hs', h'⟩ := foldlM_explores step path ns
      (fun s m hm => hstep s m (List.mem_cons_of_mem _ hm)) (h.ready hs) (h.path.trans hpath)
    refine ⟨s', ?_, explores_cons h h'⟩
    rw [List.foldlM_cons, hs₁]
    exact hs'

/-- A neighbor that is no key is passed over. -/
theorem foldlM_filter {visit : String → Search → Option Search} :
    ∀ (ns : List String) (s : Search), ns.foldlM (visitNeighbor adj visit) s =
      (ns.filter (· ∈ keys adj)).foldlM (visitNeighbor adj visit) s
  | [], _ => rfl
  | n :: ns, s => by
    by_cases hn : n ∈ keys adj
    · rw [List.filter_cons_of_pos (by simpa using hn), List.foldlM_cons, List.foldlM_cons]
      exact congrArg _ (funext fun s => foldlM_filter ns s)
    · rw [List.filter_cons_of_neg (by simpa using hn), List.foldlM_cons, visitNeighbor, if_pos hn]
      exact foldlM_filter ns s

theorem visitNeighbor_explores {visit : String → Search → Option Search} (hs : Ready adj s)
    (hkey : n ∈ keys adj)
    (hvisit : n ∉ s.visited → ∃ s', visit n s = some s' ∧ Explores adj s [n] s') :
    ∃ s', visitNeighbor adj visit s n = some s' ∧ Explores adj s [n] s' := by
  have hgray : n ∈ s.gray ↔ n ∈ s.path := by rw [hs.gray, List.mem_reverse]
  unfold visitNeighbor
  rw [if_neg (not_not.mpr hkey)]
  by_cases hpath : n ∈ s.path
  · rw [if_pos (hgray.mpr hpath)]
    exact ⟨_, rfl, explores_gray hpath⟩
  · rw [if_neg (fun h => hpath (hgray.mp h))]
    by_cases hvisited : n ∈ s.visited
    · rw [if_neg (not_not.mpr hvisited)]
      exact ⟨s, rfl, explores_black hs ⟨hvisited, hpath⟩⟩
    · rw [if_pos hvisited]
      exact hvisit hvisited

/-- With more steps than there are keys off the path, the search from a new node returns and
has explored its branch. -/
theorem dfs_explores : ∀ (fuel : Nat) {s : Search} {n : String}, Ready adj s → n ∈ keys adj →
    n ∉ s.visited → (∀ p ∈ s.path.getLast?, Edge adj p n) →
    (keys adj).length < fuel + s.path.length →
    ∃ s', dfs adj fuel n s = some s' ∧ Explores adj s [n] s'
  | 0, s, n, hs, _, _, _, hfuel => by
    have hle := (List.subperm_of_subset hs.nodup hs.keys).length_le
    omega
  | fuel + 1, s, n, hs, hkey, hn, hedge, hfuel => by
    have henter := hs.enter hkey hn hedge
    have hlast : (s.enter n).path.getLast? = some n := by simp [Search.enter]
    have hlength : (s.enter n).path.length = s.path.length + 1 := by simp [Search.enter]
    obtain ⟨s₁, hs₁, h⟩ := foldlM_explores (visitNeighbor adj (dfs adj fuel))
      (s.enter n).path (next adj n) (fun t m hm (ht : Ready adj t) hpath => by
        have hm' : m ∈ keys adj := of_decide_eq_true (List.mem_filter.mp hm).2
        refine visitNeighbor_explores ht hm' fun hnew => dfs_explores fuel ht hm' hnew ?_ ?_
        · intro p hp
          rw [hpath, hlast] at hp
          cases hp
          exact hm
        · rw [hpath, hlength]
          omega) henter rfl
    refine ⟨s₁.leave n, ?_, explores_white hs henter hn h⟩
    rw [dfs, foldlM_filter]
    exact congrArg (Option.bind · fun s => some (s.leave n)) hs₁

theorem ready_start : Ready adj ⟨[], [], [], []⟩ :=
  ⟨List.nodup_nil, by simp, rfl, by simp, .nil, by simp⟩

/-- The marked nodes are those with a cycle no node of which is left of them. -/
theorem detectCycles_eq (adj : Adjacency) : ∃ r, detectCycles adj = some r ∧
    ∀ x, x ∈ r ↔ ClosedWalk (Edge adj) (fun y => LeftOf (next adj) [] (keys adj) y x) x := by
  obtain ⟨s', hs', h⟩ := foldlM_explores (visitStart adj) []
    (keys adj) (fun s n hn (hs : Ready adj s) hpath => by
      unfold visitStart
      by_cases hvisited : n ∈ s.visited
      · rw [if_neg (not_not.mpr hvisited)]
        exact ⟨s, rfl, explores_black hs ⟨hvisited, by simp [hpath]⟩⟩
      · have hself : { s with path := [] } = s := by
          cases s
          cases hpath
          rfl
        rw [if_pos hvisited, hself]
        refine dfs_explores _ hs hn hvisited (by simp [hpath]) ?_
        rw [keys, List.length_map]
        omega) ready_start rfl
  refine ⟨s'.inCycle, ?_, fun x => ?_⟩
  · rw [detectCycles, hs']
    rfl
  · have hblack : ∀ y, (Black ⟨[], [], [], []⟩ y ∨ LeftOf (next adj) [] (keys adj) y x) ↔
        LeftOf (next adj) [] (keys adj) y x := by simp [Black]
    rw [h.inCycle]
    constructor
    · rintro (hx | ⟨g, hg, -⟩ | ⟨-, -, hwalk⟩)
      · cases hx
      · cases hg.1
      · exact (ClosedWalk.congr hblack).mp hwalk
    · intro hwalk
      obtain ⟨u, -, hux⟩ := Relation.TransGen.tail'_iff.mp hwalk
      have hkey : x ∈ keys adj := of_decide_eq_true (List.mem_filter.mp hux.1).2
      exact .inr (.inr ⟨by simp, ⟨x, hkey, .refl (by simp)⟩, (ClosedWalk.congr hblack).mpr hwalk⟩)

/-- The marked nodes are the nodes that lie on a cycle. -/
def Exact (adj : Adjacency) : Prop :=
  ∃ r, detectCycles adj = some r ∧ ∀ x, x ∈ r ↔ Relation.TransGen (Edge adj) x x

/-- For every adjacency, its keys and neighbors in any order: the search returns the nodes on
cycles exactly when each of them lies on a cycle with no node left of it. -/
theorem detectCycles_iff (adj : Adjacency) : Exact adj ↔
    ∀ x, Relation.TransGen (Edge adj) x x →
      ClosedWalk (Edge adj) (fun y => LeftOf (next adj) [] (keys adj) y x) x := by
  obtain ⟨r, hr, hmarked⟩ := detectCycles_eq adj
  constructor
  · rintro ⟨r', hr', hexact⟩ x hx
    obtain rfl := Option.some.inj (hr.symm.trans hr')
    exact (hmarked x).mp ((hexact x).mpr hx)
  · exact fun hall => ⟨r, hr, fun x => ⟨fun hx => ((hmarked x).mp hx).cycle,
      fun hx => (hmarked x).mpr (hall x hx)⟩⟩

/-- `C` lies on the cycle through `A` and `B`, but is met after `B` is left. -/
def lateJoiner : Adjacency := [("A", ["B", "C"]), ("B", ["A"]), ("C", ["B"])]

/-- The node is missed, and is found when the neighbors of `A` change places. -/
theorem late_joiner_missed : ¬ Exact lateJoiner ∧
    ∃ r, detectCycles [("A", ["C", "B"]), ("B", ["A"]), ("C", ["B"])] = some r ∧ "C" ∈ r := by
  constructor
  · rintro ⟨r, hr, hexact⟩
    have hmarked : detectCycles lateJoiner = some ["A", "B"] := by decide +kernel
    obtain rfl := Option.some.inj (hmarked.symm.trans hr)
    have hedge : Edge lateJoiner "C" "B" ∧ Edge lateJoiner "B" "A" ∧ Edge lateJoiner "A" "C" := by
      unfold Edge Next
      decide +kernel
    have hcycle : Relation.TransGen (Edge lateJoiner) "C" "C" :=
      .tail (.tail (.single hedge.1) hedge.2.1) hedge.2.2
    exact absurd ((hexact "C").mpr hcycle) (by decide)
  · exact ⟨["A", "C", "B"], by decide +kernel, by decide⟩

end Nightfall.Metrics
