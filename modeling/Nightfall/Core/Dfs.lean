import Mathlib.Logic.Relation
import Mathlib.Data.List.Nodup
import Mathlib.Data.List.Perm.Subperm

/-!
# Depth-first search

A search that lists the nodes in the order it finishes them and raises at the
first node it meets on its own path. Successors may fail to be known, and each
one may be checked before it is visited.

* `depthFirst_finishes`: a search that returns has listed the node and what it
  reaches, each node behind its successors.
* `depthFirst_total`: where a rank falls along every edge, the search returns.
* `depthFirst_ne_limit`: with as many steps as there are nodes, the limit is never
  reached.
* `topo_acyclic`, `depthFirst_cycle`: a search that returns has seen no cycle, and one that
  fails otherwise than at the limit has found one.
-/
namespace Nightfall.Core

section Search
variable {α ε : Type} [DecidableEq α]

/-- One visit after the other, each with what the earlier ones finished. -/
def visitAll (visit : α → List α → Except ε (List α)) : List α → List α → Except ε (List α)
  | [], done => .ok done
  | n :: ns, done =>
    match visit n done with
    | .ok done => visitAll visit ns done
    | .error e => .error e

/-- The search from `node`; `path` leads to it and `done` is finished already. -/
def depthFirst (succ : α → Except ε (List α)) (check : α → α → Except ε Unit) (cycle : List α → α → ε)
    (limit : ε) : Nat → List α → α → List α → Except ε (List α)
  | 0, _, _, _ => .error limit
  | fuel + 1, path, node, done =>
    if node ∈ path then .error (cycle path node)
    else if node ∈ done then .ok done
    else
      match succ node with
      | .error e => .error e
      | .ok deps =>
        let visit := fun dep done =>
          match check node dep with
          | .error e => .error e
          | .ok () => depthFirst succ check cycle limit fuel (path ++ [node]) dep done
        match visitAll visit deps done with
        | .error e => .error e
        | .ok done => .ok (done ++ [node])

variable {succ : α → Except ε (List α)} {check : α → α → Except ε Unit}
  {cycle : List α → α → ε} {limit : ε}

/-! ## What is listed -/

def HasSucc (succ : α → Except ε (List α)) (n d : α) : Prop := ∃ deps, succ n = .ok deps ∧ d ∈ deps

/-- Every node stands behind all its successors. -/
def Topo (E : α → α → Prop) (l : List α) : Prop :=
  ∀ pre n post, l = pre ++ n :: post → ∀ d, E n d → d ∈ pre

omit [DecidableEq α] in
theorem topo_nil (E : α → α → Prop) : Topo E [] := by
  intro pre n post h
  simp at h

omit [DecidableEq α] in
theorem topo_snoc {E : α → α → Prop} {l : List α} {n : α} (hl : Topo E l)
    (hn : ∀ d, E n d → d ∈ l) : Topo E (l ++ [n]) := by
  intro pre m post h d hd
  rcases List.append_eq_append_iff.mp h with ⟨mid, rfl, hmid⟩ | ⟨mid, rfl, hmid⟩
  · cases mid with
    | nil =>
      simp only [List.nil_append, List.cons.injEq] at hmid
      obtain ⟨rfl, -⟩ := hmid
      simpa using hn d hd
    | cons x mid => simp at hmid
  · cases mid with
    | nil =>
      simp only [List.nil_append, List.cons.injEq] at hmid
      obtain ⟨rfl, -⟩ := hmid
      simpa using hn d hd
    | cons x mid =>
      simp only [List.cons_append, List.cons.injEq] at hmid
      obtain ⟨rfl, -⟩ := hmid
      exact hl pre _ mid rfl d hd

/-- What a search from `roots` adds to what was finished. -/
structure Finishes (E : α → α → Prop) (path roots done done' : List α) : Prop where
  grows : done <+: done'
  fresh : ∀ x ∈ done', x ∈ done ∨ x ∉ path
  reached : ∀ x ∈ done', x ∈ done ∨ ∃ r ∈ roots, Relation.ReflTransGen E r x
  listed : ∀ r ∈ roots, r ∈ done'
  topo : Topo E done → Topo E done'
  nodup : done.Nodup → done'.Nodup

omit [DecidableEq α] in
theorem visitAll_finishes {E : α → α → Prop} {path : List α}
    {visit : α → List α → Except ε (List α)}
    (hvisit : ∀ n done done', visit n done = .ok done' → Finishes E path [n] done done') :
    ∀ {ns done done'}, visitAll visit ns done = .ok done' → Finishes E path ns done done'
  | [], done, done', h => by
    cases h
    exact ⟨List.prefix_refl _, fun x hx => .inl hx, fun x hx => .inl hx, by simp, id, id⟩
  | n :: ns, done, done', h => by
    rw [visitAll] at h
    cases hn : visit n done with
    | error e => simp [hn] at h
    | ok mid =>
      rw [hn] at h
      have hfirst := hvisit n done mid hn
      have hrest := visitAll_finishes hvisit h
      refine ⟨hfirst.grows.trans hrest.grows, fun x hx => ?_, fun x hx => ?_, ?_,
        hrest.topo ∘ hfirst.topo, hrest.nodup ∘ hfirst.nodup⟩
      · exact (hrest.fresh x hx).elim (hfirst.fresh x) .inr
      · rcases hrest.reached x hx with hmid | ⟨r, hr, hreach⟩
        · rcases hfirst.reached x hmid with hdone | ⟨r, hr, hreach⟩
          · exact .inl hdone
          · exact .inr ⟨r, by simp_all, hreach⟩
        · exact .inr ⟨r, List.mem_cons_of_mem _ hr, hreach⟩
      · rintro r (_ | ⟨_, hr⟩)
        · exact hrest.grows.subset (hfirst.listed n List.mem_cons_self)
        · exact hrest.listed r hr

/-- A search that returns has listed its node and what that reaches. -/
theorem depthFirst_finishes : ∀ (fuel : Nat) (path : List α) (node : α) (done done' : List α),
    depthFirst succ check cycle limit fuel path node done = .ok done' →
      Finishes (HasSucc succ) path [node] done done'
  | 0, _, _, _, _, h => by cases h
  | fuel + 1, path, node, done, done', h => by
    rw [depthFirst] at h
    split at h
    · cases h
    next hpath =>
    split at h
    next hdone =>
      cases h
      exact ⟨List.prefix_refl _, fun x hx => .inl hx, fun x hx => .inl hx, by simpa, id, id⟩
    next hdone =>
    cases hsucc : succ node with
    | error e => simp [hsucc] at h
    | ok deps =>
      simp only [hsucc] at h
      split at h
      · cases h
      next mid hmid =>
      cases h
      have hdeps : Finishes (HasSucc succ) (path ++ [node]) deps done mid := by
        refine visitAll_finishes (fun n done done' hn => ?_) hmid
        cases hcheck : check node n with
        | error e => simp [hcheck] at hn
        | ok u =>
          simp only [hcheck] at hn
          exact depthFirst_finishes fuel _ n done done' hn
      have hnode : node ∉ mid := fun hin =>
        (hdeps.fresh node hin).elim hdone fun hfresh => hfresh (by simp)
      refine ⟨hdeps.grows.trans (List.prefix_append _ _), fun x hx => ?_, fun x hx => ?_,
        by simp, fun ht => ?_, fun hnd => ?_⟩
      · rcases List.mem_append.mp hx with hx | hx
        · exact (hdeps.fresh x hx).imp_right fun hfresh hin => hfresh (by simp [hin])
        · exact .inr (List.mem_singleton.mp hx ▸ hpath)
      · rcases List.mem_append.mp hx with hx | hx
        · rcases hdeps.reached x hx with hin | ⟨d, hd, hreach⟩
          · exact .inl hin
          · exact .inr ⟨node, by simp, .head ⟨deps, hsucc, hd⟩ hreach⟩
        · exact .inr ⟨node, by simp, List.mem_singleton.mp hx ▸ .refl⟩
      · refine topo_snoc (hdeps.topo ht) fun d hd => ?_
        obtain ⟨deps', hdeps', hmem⟩ := hd
        rw [hsucc, Except.ok.injEq] at hdeps'
        exact hdeps.listed d (hdeps' ▸ hmem)
      · refine List.nodup_append.mpr ⟨hdeps.nodup hnd, by simp, ?_⟩
        rintro x hx y hy rfl
        exact hnode (List.mem_singleton.mp hy ▸ hx)

/-! ## Searches that return -/

/-- In a list with successors first, positions fall along every edge. -/
theorem topo_rank {E : α → α → Prop} {l : List α} (hl : Topo E l) {n d : α} (hn : n ∈ l)
    (hd : E n d) : d ∈ l ∧ l.idxOf d < l.idxOf n := by
  obtain ⟨pre, post, rfl, hpre⟩ := List.eq_append_cons_of_mem hn
  have hmem : d ∈ pre := hl pre n post rfl d hd
  refine ⟨List.mem_append_left _ hmem, ?_⟩
  rw [List.idxOf_append_of_mem hmem, List.idxOf_append_of_notMem hpre]
  have := List.idxOf_lt_length_of_mem hmem
  omega

/-- The nodes of `V` have known successors, in `V`, of lower rank and past the
check. -/
def Falls (succ : α → Except ε (List α)) (check : α → α → Except ε Unit) (V : α → Prop)
    (rank : α → Nat) : Prop :=
  ∀ n, V n → ∃ deps, succ n = .ok deps ∧
    ∀ d ∈ deps, V d ∧ rank d < rank n ∧ check n d = .ok ()

omit [DecidableEq α] in
theorem visitAll_total (visit : α → List α → Except ε (List α)) :
    ∀ (ns done : List α), (∀ n ∈ ns, ∀ done, ∃ done', visit n done = .ok done') →
      ∃ done', visitAll visit ns done = .ok done'
  | [], done, _ => ⟨done, rfl⟩
  | n :: ns, done, h => by
    obtain ⟨mid, hmid⟩ := h n List.mem_cons_self done
    obtain ⟨done', hdone'⟩ := visitAll_total visit ns mid
      fun m hm => h m (List.mem_cons_of_mem _ hm)
    exact ⟨done', by rw [visitAll, hmid]; exact hdone'⟩

theorem depthFirst_total {V : α → Prop} {rank : α → Nat} (hV : Falls succ check V rank) :
    ∀ (fuel : Nat) (path : List α) (node : α) (done : List α), V node → rank node < fuel →
      (∀ p ∈ path, rank node < rank p) →
      ∃ done', depthFirst succ check cycle limit fuel path node done = .ok done'
  | 0, _, _, _, _, hfuel, _ => absurd hfuel (Nat.not_lt_zero _)
  | fuel + 1, path, node, done, hnode, hfuel, hpath => by
    have hnot : node ∉ path := fun h => Nat.lt_irrefl _ (hpath node h)
    rw [depthFirst, if_neg hnot]
    split
    · exact ⟨done, rfl⟩
    · obtain ⟨deps, hdeps, hall⟩ := hV node hnode
      simp only [hdeps]
      obtain ⟨mid, hmid⟩ := visitAll_total
        (fun dep done =>
          match check node dep with
          | .error e => .error e
          | .ok () => depthFirst succ check cycle limit fuel (path ++ [node]) dep done) deps done
        fun d hd done => by
        obtain ⟨hVd, hrank, hcheck⟩ := hall d hd
        rw [hcheck]
        refine depthFirst_total hV fuel _ d done hVd (by omega) fun p hp => ?_
        rcases List.mem_append.mp hp with hp | hp
        · exact Nat.lt_trans hrank (hpath p hp)
        · exact List.mem_singleton.mp hp ▸ hrank
      rw [hmid]
      exact ⟨_, rfl⟩

/-! ## The limit -/

omit [DecidableEq α] in
theorem visitAll_ne {visit : α → List α → Except ε (List α)} {e : ε} :
    ∀ {ns done : List α}, (∀ n ∈ ns, ∀ done, visit n done ≠ .error e) →
      visitAll visit ns done ≠ .error e
  | [], _, _ => by simp [visitAll]
  | n :: ns, done, h => by
    rw [visitAll]
    cases hn : visit n done with
    | error e' =>
      intro heq
      exact h n List.mem_cons_self done (by rw [hn]; simpa using heq)
    | ok mid => exact visitAll_ne fun m hm => h m (List.mem_cons_of_mem _ hm)

/-- The path has distinct nodes of `V`, so it is no longer than `V`. -/
theorem depthFirst_ne_limit {V : List α} (hclosed : ∀ n ∈ V, ∀ d, HasSucc succ n d → d ∈ V)
    (hsucc : ∀ n, succ n ≠ .error limit) (hcheck : ∀ n d, check n d ≠ .error limit)
    (hcycle : ∀ path n, cycle path n ≠ limit) :
    ∀ (fuel : Nat) (path : List α) (node : α) (done : List α), node ∈ V → path.Nodup →
      (∀ p ∈ path, p ∈ V) → V.length < fuel + path.length →
      depthFirst succ check cycle limit fuel path node done ≠ .error limit
  | 0, path, _, _, _, hnd, hsub, hlen => by
    have := (List.subperm_of_subset hnd hsub).length_le
    omega
  | fuel + 1, path, node, done, hnode, hnd, hsub, hlen => by
    rw [depthFirst]
    split
    · simpa using hcycle path node
    next hpath =>
    split
    · simp
    · cases hdeps : succ node with
      | error e =>
        intro heq
        exact hsucc node (by rw [hdeps]; simpa using heq)
      | ok deps =>
        have hall : visitAll (fun dep done =>
            match check node dep with
            | .error e => .error e
            | .ok () => depthFirst succ check cycle limit fuel (path ++ [node]) dep done) deps done ≠
            .error limit := by
          refine visitAll_ne fun d hd done => ?_
          cases hd' : check node d with
          | error e =>
            intro heq
            exact hcheck node d (by rw [hd']; simpa using heq)
          | ok u =>
            have hnd' : (path ++ [node]).Nodup := by
              refine List.nodup_append.mpr ⟨hnd, by simp, ?_⟩
              rintro x hx y hy rfl
              exact hpath (List.mem_singleton.mp hy ▸ hx)
            refine depthFirst_ne_limit hclosed hsucc hcheck hcycle fuel _ d done
              (hclosed node hnode d ⟨deps, hdeps, hd⟩) hnd' (fun p hp => ?_) ?_
            · rcases List.mem_append.mp hp with hp | hp
              · exact hsub p hp
              · exact List.mem_singleton.mp hp ▸ hnode
            · rw [List.length_append, List.length_singleton]
              omega
        simp only
        intro heq
        split at heq
        next e he => exact hall (by rw [he]; simpa using heq)
        · cases heq

/-! ## Cycles -/

theorem topo_acyclic {E : α → α → Prop} {l : List α} (hl : Topo E l) {n : α} (hn : n ∈ l) :
    ¬ Relation.TransGen E n n := by
  have hfalls : ∀ d, Relation.TransGen E n d → d ∈ l ∧ l.idxOf d < l.idxOf n := by
    intro d hd
    induction hd with
    | single hedge => exact topo_rank hl hn hedge
    | tail _ hedge ih =>
      obtain ⟨hmem, hlt⟩ := topo_rank hl ih.1 hedge
      exact ⟨hmem, Nat.lt_trans hlt ih.2⟩
  exact fun hcycle => Nat.lt_irrefl _ (hfalls n hcycle).2

omit [DecidableEq α] in
theorem visitAll_error {visit : α → List α → Except ε (List α)} {e : ε} :
    ∀ {ns done : List α}, visitAll visit ns done = .error e →
      ∃ n ∈ ns, ∃ done, visit n done = .error e
  | [], _, h => by cases h
  | n :: ns, done, h => by
    rw [visitAll] at h
    cases hn : visit n done with
    | error e' =>
      rw [hn] at h
      exact ⟨n, List.mem_cons_self, done, hn.trans h⟩
    | ok mid =>
      rw [hn] at h
      obtain ⟨m, hm, hvisit⟩ := visitAll_error h
      exact ⟨m, List.mem_cons_of_mem _ hm, hvisit⟩

/-- Where successors are known and pass the check, a search fails on a cycle: the path to
the node is a chain that leads back to it. -/
theorem depthFirst_cycle (hsucc : ∀ n, ∃ deps, succ n = .ok deps)
    (hcheck : ∀ n d, check n d = .ok ()) :
    ∀ (fuel : Nat) (path : List α) (node : α) (done : List α) {e : ε},
      depthFirst succ check cycle limit fuel path node done = .error e → e ≠ limit →
      (∀ p ∈ path, Relation.TransGen (HasSucc succ) p node) →
      ∃ x, Relation.TransGen (HasSucc succ) x x
  | 0, _, _, _, e, h, he, _ => absurd (Except.error.inj h).symm he
  | fuel + 1, path, node, done, e, h, he, hpath => by
    rw [depthFirst] at h
    split at h
    next hnode => exact ⟨node, hpath node hnode⟩
    split at h
    · cases h
    obtain ⟨deps, hdeps⟩ := hsucc node
    simp only [hdeps] at h
    split at h
    next e' hvisit =>
      cases h
      obtain ⟨dep, hdep, done', herror⟩ := visitAll_error hvisit
      simp only [hcheck] at herror
      have hedge : HasSucc succ node dep := ⟨deps, hdeps, hdep⟩
      refine depthFirst_cycle hsucc hcheck fuel _ dep done' herror he fun p hp => ?_
      rcases List.mem_append.mp hp with hp | hp
      · exact (hpath p hp).tail hedge
      · exact List.mem_singleton.mp hp ▸ .single hedge
    · cases h

end Search
end Nightfall.Core
