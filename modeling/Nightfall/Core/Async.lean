import Mathlib.Tactic.Common

/-!
# Asynchronous calls over a store and a server

A page calls the functions of a store. A function runs up to its first `await`,
with the request it made there; later the server answers the request, and later
still the reply is delivered and the function runs on, to its next request or to
its end. Calls overlap as they like, and replies arrive in any order.

* `Async`: the store, the server, the calls that wait and those that have settled.
* `App.step`: what one event does; `App.Step` says the same with the waiting
  call taken out of its place in the list.
* `App.Runs`: the runs whose events all meet a condition.
* `Runs.inv`: what every event keeps holds at the end of every such run;
  `Runs.always`: and in every state on the way.
* `Numbered`: a call has the number of calls made before it.
-/
namespace Nightfall.Core

/-- A call that waits for the reply to its request. `since` counts the calls that
had settled when it was made. -/
structure AsyncCall (κ ρ : Type) where
  id : Nat
  since : Nat
  task : κ
  reply : Option ρ

/-- A call that has ended, with its last request and the reply to it. -/
structure AsyncEnd (κ ρ : Type) where
  id : Nat
  task : κ
  reply : ρ

structure Async (σ ω κ ρ : Type) where
  store : σ
  server : ω
  waiting : List (AsyncCall κ ρ)
  settled : List (AsyncEnd κ ρ)
  /-- how many calls were made -/
  made : Nat

/-- The functions `α` of a store, the ways `ε` a request can be met, and what else
`δ` can happen to the server. -/
structure App (σ ω κ ρ α ε δ : Type) where
  call : α → σ → σ × Option κ
  serve : ε → κ → ω → ω × ρ
  resume : κ → ρ → σ → σ × Option κ
  change : δ → ω → ω

inductive AsyncEvent (α ε δ : Type) where
  | call (a : α)
  | serve (i : Nat) (how : ε)
  | deliver (i : Nat)
  | change (d : δ)
  deriving DecidableEq, Repr

section
variable {σ ω κ ρ α ε δ : Type}

/-- A store and a server before the first call. -/
def Async.start (store : σ) (server : ω) : Async σ ω κ ρ := ⟨store, server, [], [], 0⟩

namespace App

/-- `none` when no call waits at this place, or not for this. -/
def step (app : App σ ω κ ρ α ε δ) (s : Async σ ω κ ρ) : AsyncEvent α ε δ → Option (Async σ ω κ ρ)
  | .call a =>
    let after := app.call a s.store
    some { s with
      store := after.1
      waiting := s.waiting ++ after.2.toList.map fun task => ⟨s.made, s.settled.length, task, none⟩
      made := s.made + 1 }
  | .serve i how =>
    match s.waiting[i]? with
    | some ⟨id, since, task, none⟩ =>
      let after := app.serve how task s.server
      some { s with
        server := after.1
        waiting := s.waiting.set i ⟨id, since, task, some after.2⟩ }
    | _ => none
  | .deliver i =>
    match s.waiting[i]? with
    | some ⟨id, since, task, some reply⟩ =>
      match app.resume task reply s.store with
      | (store, some next) =>
        some { s with store := store, waiting := s.waiting.set i ⟨id, since, next, none⟩ }
      | (store, none) =>
        some { s with
          store := store
          waiting := s.waiting.eraseIdx i
          settled := s.settled ++ [⟨id, task, reply⟩] }
    | _ => none
  | .change d => some { s with server := app.change d s.server }

/-- One event after the other. -/
def exec (app : App σ ω κ ρ α ε δ) : List (AsyncEvent α ε δ) → Async σ ω κ ρ →
    Option (Async σ ω κ ρ)
  | [], s => some s
  | e :: es, s => (app.step s e).bind (app.exec es)

/-- `step`, one case for each thing that can happen. -/
inductive Step (app : App σ ω κ ρ α ε δ) :
    Async σ ω κ ρ → AsyncEvent α ε δ → Async σ ω κ ρ → Prop
  | end_ {store : σ} {server : ω} {ws : List (AsyncCall κ ρ)} {settled : List (AsyncEnd κ ρ)}
      {made : Nat} {a : α} {store' : σ} (h : app.call a store = (store', none)) :
      Step app ⟨store, server, ws, settled, made⟩ (.call a) ⟨store', server, ws, settled, made + 1⟩
  | ask {store : σ} {server : ω} {ws : List (AsyncCall κ ρ)} {settled : List (AsyncEnd κ ρ)}
      {made : Nat} {a : α} {store' : σ} {task : κ} (h : app.call a store = (store', some task)) :
      Step app ⟨store, server, ws, settled, made⟩ (.call a)
        ⟨store', server, ws ++ [⟨made, settled.length, task, none⟩], settled, made + 1⟩
  | serve {store : σ} {server : ω} {xs ys : List (AsyncCall κ ρ)} {settled : List (AsyncEnd κ ρ)}
      {made id since : Nat} {task : κ} {how : ε} {server' : ω} {reply : ρ}
      (h : app.serve how task server = (server', reply)) :
      Step app ⟨store, server, xs ++ ⟨id, since, task, none⟩ :: ys, settled, made⟩
        (.serve xs.length how)
        ⟨store, server', xs ++ ⟨id, since, task, some reply⟩ :: ys, settled, made⟩
  | again {store : σ} {server : ω} {xs ys : List (AsyncCall κ ρ)} {settled : List (AsyncEnd κ ρ)}
      {made id since : Nat} {task next : κ} {reply : ρ} {store' : σ}
      (h : app.resume task reply store = (store', some next)) :
      Step app ⟨store, server, xs ++ ⟨id, since, task, some reply⟩ :: ys, settled, made⟩
        (.deliver xs.length)
        ⟨store', server, xs ++ ⟨id, since, next, none⟩ :: ys, settled, made⟩
  | settle {store : σ} {server : ω} {xs ys : List (AsyncCall κ ρ)} {settled : List (AsyncEnd κ ρ)}
      {made id since : Nat} {task : κ} {reply : ρ} {store' : σ}
      (h : app.resume task reply store = (store', none)) :
      Step app ⟨store, server, xs ++ ⟨id, since, task, some reply⟩ :: ys, settled, made⟩
        (.deliver xs.length)
        ⟨store', server, xs ++ ys, settled ++ [⟨id, task, reply⟩], made⟩
  | change {store : σ} {server : ω} {ws : List (AsyncCall κ ρ)} {settled : List (AsyncEnd κ ρ)}
      {made : Nat} {d : δ} :
      Step app ⟨store, server, ws, settled, made⟩ (.change d)
        ⟨store, app.change d server, ws, settled, made⟩

/-- The place of an element of a list. -/
theorem split_at {β : Type} {l : List β} {i : Nat} {b : β} (h : l[i]? = some b) :
    ∃ xs ys, l = xs ++ b :: ys ∧ i = xs.length := by
  obtain ⟨hi, rfl⟩ := List.getElem?_eq_some_iff.mp h
  refine ⟨l.take i, l.drop (i + 1), ?_, by simp; omega⟩
  rw [← List.drop_eq_getElem_cons hi, List.take_append_drop]

theorem at_place {β : Type} (xs ys : List β) (b : β) : (xs ++ b :: ys)[xs.length]? = some b := by
  simp

theorem step_of {app : App σ ω κ ρ α ε δ} {s s' : Async σ ω κ ρ} {e : AsyncEvent α ε δ}
    (h : app.step s e = some s') : app.Step s e s' := by
  obtain ⟨store, server, ws, settled, made⟩ := s
  cases e with
  | call a =>
    cases hcall : app.call a store with
    | mk store' task =>
      simp only [step, hcall, Option.some.injEq] at h
      subst h
      cases task with
      | none => simpa using Step.end_ hcall
      | some task => exact .ask hcall
  | serve i how =>
    simp only [step] at h
    split at h
    · next id since task hi =>
      obtain ⟨xs, ys, rfl, rfl⟩ := split_at hi
      obtain rfl := Option.some.inj h
      have hserve : app.serve how task server = (_, _) := (Prod.eta _).symm
      simpa using Step.serve hserve
    · cases h
  | deliver i =>
    simp only [step] at h
    split at h
    · next id since task reply hi =>
      obtain ⟨xs, ys, rfl, rfl⟩ := split_at hi
      split at h
      · next store' next hresume =>
        obtain rfl := Option.some.inj h
        simpa using Step.again hresume
      · next store' hresume =>
        obtain rfl := Option.some.inj h
        simpa [List.eraseIdx_append] using Step.settle hresume
    · cases h
  | change d =>
    obtain rfl := Option.some.inj h
    exact .change

/-! ## Runs -/

/-- The runs whose events all meet a condition on the state they find. -/
inductive Runs (app : App σ ω κ ρ α ε δ) (ok : Async σ ω κ ρ → AsyncEvent α ε δ → Prop) :
    Async σ ω κ ρ → List (AsyncEvent α ε δ) → Async σ ω κ ρ → Prop
  | nil {s : Async σ ω κ ρ} : Runs app ok s [] s
  | cons {s s₁ s₂ : Async σ ω κ ρ} {e : AsyncEvent α ε δ} {es : List (AsyncEvent α ε δ)}
      (hok : ok s e) (h : app.step s e = some s₁) (hes : Runs app ok s₁ es s₂) :
      Runs app ok s (e :: es) s₂

variable {app : App σ ω κ ρ α ε δ} {ok : Async σ ω κ ρ → AsyncEvent α ε δ → Prop}
  {I : Async σ ω κ ρ → Prop}

theorem Runs.inv (hstep : ∀ {s s' e}, ok s e → I s → app.Step s e s' → I s')
    {s s' : Async σ ω κ ρ} {es : List (AsyncEvent α ε δ)} (h : app.Runs ok s es s') :
    I s → I s' := by
  induction h with
  | nil => exact id
  | cons hok he _ ih => exact fun hs => ih (hstep hok hs (step_of he))

theorem Runs.exec {s s' : Async σ ω κ ρ} {es : List (AsyncEvent α ε δ)} (h : app.Runs ok s es s') :
    app.exec es s = some s' := by
  induction h with
  | nil => rfl
  | cons _ he _ ih => simp [App.exec, he, ih]

theorem Runs.mono {ok' : Async σ ω κ ρ → AsyncEvent α ε δ → Prop} (hok : ∀ {s e}, ok s e → ok' s e)
    {s s' : Async σ ω κ ρ} {es : List (AsyncEvent α ε δ)} (h : app.Runs ok s es s') :
    app.Runs ok' s es s' := by
  induction h with
  | nil => exact .nil
  | cons h he _ ih => exact .cons (hok h) he ih

/-- The run of these events, if each of them meets the condition. -/
def check (app : App σ ω κ ρ α ε δ) (ok : Async σ ω κ ρ → AsyncEvent α ε δ → Prop)
    [∀ s e, Decidable (ok s e)] : List (AsyncEvent α ε δ) → Async σ ω κ ρ → Option (Async σ ω κ ρ)
  | [], s => some s
  | e :: es, s => if ok s e then (app.step s e).bind (app.check ok es) else none

theorem runs_of_check [∀ s e, Decidable (ok s e)] : ∀ {es : List (AsyncEvent α ε δ)}
    {s s' : Async σ ω κ ρ}, app.check ok es s = some s' → app.Runs ok s es s'
  | [], s, s', h => by
    obtain rfl := Option.some.inj h
    exact .nil
  | e :: es, s, s', h => by
    simp only [check] at h
    split at h
    · next hok =>
      obtain ⟨s₁, he, hes⟩ := Option.bind_eq_some_iff.mp h
      exact .cons hok he (runs_of_check hes)
    · cases h

/-- In every state of a run, from the first to the last. -/
def Always (app : App σ ω κ ρ α ε δ) (P : Async σ ω κ ρ → Prop) (s : Async σ ω κ ρ)
    (es : List (AsyncEvent α ε δ)) : Prop :=
  ∀ es₁ s₁, es₁ <+: es → app.exec es₁ s = some s₁ → P s₁

theorem Always.head {s : Async σ ω κ ρ} {es : List (AsyncEvent α ε δ)} (h : app.Always I s es) :
    I s := h [] s List.nil_prefix rfl

theorem Always.tail {s s₁ : Async σ ω κ ρ} {e : AsyncEvent α ε δ} {es : List (AsyncEvent α ε δ)}
    (h : app.Always I s (e :: es)) (he : app.step s e = some s₁) : app.Always I s₁ es := by
  intro es₁ s₂ hpre hexec
  exact h (e :: es₁) s₂ ((List.prefix_cons_inj e).mpr hpre) (by simpa [App.exec, he] using hexec)

theorem Runs.always (hstep : ∀ {s s' e}, ok s e → I s → app.Step s e s' → I s')
    {s s' : Async σ ω κ ρ} {es : List (AsyncEvent α ε δ)} (h : app.Runs ok s es s') (hs : I s) :
    app.Always I s es := by
  induction h with
  | nil =>
    intro es₁ s₁ hpre hexec
    obtain rfl := List.prefix_nil.mp hpre
    obtain rfl := Option.some.inj hexec
    exact hs
  | cons hok he _ ih =>
    intro es₁ s₁ hpre hexec
    cases es₁ with
    | nil =>
      obtain rfl := Option.some.inj hexec
      exact hs
    | cons e' es₁ =>
      obtain ⟨rfl, htail⟩ := List.cons_prefix_cons.mp hpre
      simp only [App.exec, he, Option.bind_some] at hexec
      exact ih (hstep hok hs (step_of he)) es₁ s₁ htail hexec

end App

/-! ## Numbers -/

/-- A call was made before those with larger numbers. -/
def Numbered (s : Async σ ω κ ρ) : Prop :=
  ∀ w ∈ s.waiting, w.id < s.made ∧ w.since ≤ s.settled.length

theorem numbered_start (store : σ) (server : ω) : Numbered (.start store server : Async σ ω κ ρ) :=
  fun _ h => absurd h List.not_mem_nil

theorem numbered_step {app : App σ ω κ ρ α ε δ} {s s' : Async σ ω κ ρ} {e : AsyncEvent α ε δ}
    (h : Numbered s) (hstep : app.Step s e s') : Numbered s' := by
  cases hstep with
  | end_ => exact fun w hw => ⟨by have := (h w hw).1; simp only at this ⊢; omega, (h w hw).2⟩
  | ask =>
    intro w hw
    rcases List.mem_append.mp hw with hw | hw
    · have := h w hw
      simp only at this ⊢
      omega
    · obtain rfl := List.mem_singleton.mp hw
      simp
  | serve | again =>
    simp only [Numbered, List.forall_mem_append, List.forall_mem_cons] at h ⊢
    exact h
  | settle =>
    simp only [Numbered, List.forall_mem_append, List.forall_mem_cons, List.length_append,
      List.length_singleton] at h ⊢
    exact ⟨fun w hw => ⟨(h.1 w hw).1, by have := (h.1 w hw).2; omega⟩,
      fun w hw => ⟨(h.2.2 w hw).1, by have := (h.2.2 w hw).2; omega⟩⟩
  | change => exact h

end
end Nightfall.Core
