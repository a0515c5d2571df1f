import Nightfall.Core.Crash

/-!
# A database connection

A connection sees the last committed database, or the open transaction's copy of
it. Outside a transaction every statement commits on its own. `executescript`
commits what is open before its first statement. A process that dies takes the
open transaction with it, so what a crash leaves is `committed`.

Databases, statements and their effect are parameters.

* `crash_bind_of_le`, `crash_bind_add`: the crash points of a program in two
  parts.
* `committed_inv`: what every operation of a program keeps is kept in every
  database it commits.
-/
namespace Nightfall.Core

structure Conn (D : Type) where
  committed : D
  opened : Option D

namespace Conn
variable {D : Type}

/-- A connection with no transaction open. -/
def idle (d : D) : Conn D := ⟨d, none⟩

/-- What a query sees. -/
def view (c : Conn D) : D := c.opened.getD c.committed

/-- A statement's effect: into the open transaction, or committed at once. -/
def write (c : Conn D) (d : D) : Conn D :=
  match c.opened with
  | none => ⟨d, none⟩
  | some _ => ⟨c.committed, some d⟩

end Conn

inductive SqlOp (Stmt : Type) where
  | view
  | begin
  | execute (s : Stmt)
  | commit
  | rollback

@[reducible] def SqlOps (D Stmt ε : Type) : Sig where
  Op := SqlOp Stmt
  Res
    | .view => D
    | .begin => Except ε Unit
    | .execute _ => Except ε Unit
    | .commit => Unit
    | .rollback => Unit

/-- The effect of an operation, given that of a statement and what a nested
`BEGIN` raises. -/
def sqlHandle {D Stmt ε : Type} (exec : Stmt → D → Except ε D) (nested : ε) :
    Handler (SqlOps D Stmt ε) (Conn D)
  | .view, c => (c.view, c)
  | .begin, c =>
    match c.opened with
    | none => (.ok (), ⟨c.committed, some c.committed⟩)
    | some _ => (.error nested, c)
  | .execute s, c =>
    match exec s c.view with
    | .ok d => (.ok (), c.write d)
    | .error e => (.error e, c)
  | .commit, c => ((), .idle c.view)
  | .rollback, c => ((), .idle c.committed)

namespace Sql
variable {D Stmt ε α : Type}

abbrev Flow (D Stmt ε α : Type) := Prog (SqlOps D Stmt ε) ε α

def view : Flow D Stmt ε D := .op .view .ret

def begin : Flow D Stmt ε Unit := .op .begin Prog.ofExcept

def execute (s : Stmt) : Flow D Stmt ε Unit := .op (.execute s) Prog.ofExcept

def commit : Flow D Stmt ε Unit := .op .commit .ret

def rollback : Flow D Stmt ε Unit := .op .rollback .ret

def executeAll : List Stmt → Flow D Stmt ε Unit
  | [] => return ()
  | s :: ss => do execute s; executeAll ss

/-- `conn.executescript`. -/
def executescript (ss : List Stmt) : Flow D Stmt ε Unit := do commit; executeAll ss

/-- `with conn:`: commit at the end, roll back when the body raises. -/
def connected (p : Flow D Stmt ε α) : Flow D Stmt ε α := do
  let a ← p.tryCatch fun e => do rollback; throw e
  commit
  return a

/-! ## What a program of statements calls -/

section Calls
variable {P : SqlOp Stmt → Prop}

theorem calls_view (h : P .view) : (view : Flow D Stmt ε D).Calls P := .op h fun _ => .ret

theorem calls_commit (h : P .commit) : (commit : Flow D Stmt ε Unit).Calls P :=
  .op h fun _ => .ret

theorem calls_ofExcept (r : Except ε α) :
    (Prog.ofExcept r : Flow D Stmt ε α).Calls P := by
  cases r with
  | error e => exact .err
  | ok a => exact .ret

theorem calls_begin (h : P .begin) : (begin : Flow D Stmt ε Unit).Calls P := .op h calls_ofExcept

theorem calls_execute {s : Stmt} (h : P (.execute s)) :
    (execute s : Flow D Stmt ε Unit).Calls P := .op h calls_ofExcept

theorem calls_executeAll (ss : List Stmt) (h : ∀ s ∈ ss, P (.execute s)) :
    (executeAll ss : Flow D Stmt ε Unit).Calls P := by
  induction ss with
  | nil => exact .ret
  | cons s ss ih =>
    exact (calls_execute (h s List.mem_cons_self)).bind fun _ =>
      ih fun s hs => h s (List.mem_cons_of_mem _ hs)

theorem calls_executescript (ss : List Stmt) (hc : P .commit) (h : ∀ s ∈ ss, P (.execute s)) :
    (executescript ss : Flow D Stmt ε Unit).Calls P :=
  (calls_commit hc).bind fun _ => calls_executeAll ss h

theorem calls_connected {p : Flow D Stmt ε α} (hc : P .commit) (hr : P .rollback)
    (hp : p.Calls P) : (connected p).Calls P :=
  (hp.tryCatch fun _ => .op hr fun _ => .err).bind fun _ =>
    (calls_commit hc).bind fun _ => .ret

end Calls
end Sql

/-! ## Crash points -/

namespace Prog
variable {S : Sig} {ε α β σ : Type} {H : Handler S σ}

/-- What every operation leaves, every crash point has. -/
theorem crash_of_along {I : σ → Prop} {Q : Except ε α → σ → Prop} {p : Prog S ε α} {s : σ}
    (hs : I s) (h : p.Along H (fun _ _ t => I t) s Q) : ∀ n, I (p.crash H n s) := by
  intro n
  induction n generalizing p s with
  | zero => simpa using hs
  | succ n ih =>
    cases p with
    | ret => exact hs
    | err => exact hs
    | op o k => exact ih h.1 h.2

theorem crash_bind_of_le {f : α → Prog S ε β} {p : Prog S ε α} {s : σ} {n : Nat}
    (hn : n ≤ (p.trace H s).length) : (p >>= f).crash H n s = p.crash H n s := by
  induction n generalizing p s with
  | zero => simp
  | succ n ih =>
    cases p with
    | ret => simp [trace] at hn
    | err => simp [trace] at hn
    | op o k => exact ih (by simpa [trace] using hn)

theorem crash_bind_add {f : α → Prog S ε β} {p : Prog S ε α} {s t : σ} {a : α}
    (h : p.run H s = (.ok a, t)) (n : Nat) :
    (p >>= f).crash H ((p.trace H s).length + n) s = (f a).crash H n t := by
  induction p generalizing s with
  | ret b =>
    cases h
    simp [trace]
  | err e => cases h
  | op o k ih =>
    have hlen : ((Prog.op o k).trace H s).length + n =
        ((k (H o s).1).trace H (H o s).2).length + n + 1 := by
      simp only [trace, List.length_cons]
      omega
    rw [hlen]
    exact ih _ h

/-- After its last operation a program leaves what its run does. -/
theorem crash_of_length_le {p : Prog S ε α} {s : σ} {n : Nat} (hn : (p.trace H s).length ≤ n) :
    p.crash H n s = (p.run H s).2 := by
  induction n generalizing p s with
  | zero =>
    cases p with
    | ret => rfl
    | err => rfl
    | op o k => simp [trace] at hn
  | succ n ih =>
    cases p with
    | ret => rfl
    | err => rfl
    | op o k => exact ih (by simpa [trace] using hn)

/-- A program that returns never reaches its handler. -/
theorem crash_tryCatch {g : ε → Prog S ε α} {p : Prog S ε α} {s t : σ} {a : α}
    (h : p.run H s = (.ok a, t)) (n : Nat) : (p.tryCatch g).crash H n s = p.crash H n s := by
  induction n generalizing p s with
  | zero => simp
  | succ n ih =>
    cases p with
    | ret => rfl
    | err => cases h
    | op o k => exact ih h

theorem trace_tryCatch {g : ε → Prog S ε α} {p : Prog S ε α} {s t : σ} {a : α}
    (h : p.run H s = (.ok a, t)) : (p.tryCatch g).trace H s = p.trace H s := by
  induction p generalizing s with
  | ret => rfl
  | err => cases h
  | op o k ih => simpa only [Prog.tryCatch, trace, List.cons.injEq, true_and] using ih _ h

theorem run_tryCatch {g : ε → Prog S ε α} {p : Prog S ε α} {s : σ} :
    (p.tryCatch g).run H s = match p.run H s with
      | (.ok a, t) => (.ok a, t)
      | (.error e, t) => (g e).run H t := by
  induction p generalizing s with
  | ret => rfl
  | err => rfl
  | op o k ih => exact ih _

end Prog

/-! ## `with conn` -/

namespace Sql
variable {D Stmt ε α : Type} {exec : Stmt → D → Except ε D} {nested : ε} {p : Flow D Stmt ε α}

theorem run_connected_ok {c c' : Conn D} {a : α}
    (h : p.run (sqlHandle exec nested) c = (.ok a, c')) :
    (connected p).run (sqlHandle exec nested) c = (.ok a, .idle c'.view) := by
  rw [connected, Prog.run_bind, Prog.run_tryCatch, h]
  rfl

theorem run_connected_error {c c' : Conn D} {e : ε}
    (h : p.run (sqlHandle exec nested) c = (.error e, c')) :
    (connected p).run (sqlHandle exec nested) c = (.error e, .idle c'.committed) := by
  rw [connected, Prog.run_bind, Prog.run_tryCatch, h]
  rfl

/-- A block that commits its own work leaves the same databases with and without
the commit at its end. -/
theorem crash_connected {c : Conn D} {a : α} {d : D}
    (h : p.run (sqlHandle exec nested) c = (.ok a, .idle d)) (n : Nat) :
    ((connected p).crash (sqlHandle exec nested) n c).committed =
      (p.crash (sqlHandle exec nested) n c).committed := by
  have hrun : (p.tryCatch fun e => do rollback; throw e).run (sqlHandle exec nested) c =
      (.ok a, .idle d) := by rw [Prog.run_tryCatch, h]
  by_cases hn : n ≤ (p.trace (sqlHandle exec nested) c).length
  · rw [connected, Prog.crash_bind_of_le (by rwa [Prog.trace_tryCatch h]), Prog.crash_tryCatch h]
  · obtain ⟨k, rfl⟩ := Nat.exists_eq_add_of_le (Nat.le_of_not_le hn)
    rw [Prog.crash_of_length_le (Nat.le_add_right _ k), h, connected,
      ← Prog.trace_tryCatch h, Prog.crash_bind_add hrun]
    rcases k with _ | _ | k <;> rfl

end Sql

/-! ## Invariants -/

namespace Sql
variable {D Stmt ε α : Type} {exec : Stmt → D → Except ε D} {nested : ε} {P : D → Prop}

/-- A statement the operation runs takes a database with `P` to one with `P`. -/
def Keeps (exec : Stmt → D → Except ε D) (P : D → Prop) : SqlOp Stmt → Prop
  | .execute s => ∀ d d', exec s d = .ok d' → P d → P d'
  | _ => True

/-- Both the committed database and what the transaction sees. -/
structure Holds (P : D → Prop) (c : Conn D) : Prop where
  committed : P c.committed
  view : P c.view

theorem holds_idle {d : D} (h : P d) : Holds P (.idle d) := ⟨h, h⟩

theorem holds_step {o : SqlOp Stmt} (ho : Keeps exec P o) {c : Conn D} (h : Holds P c) :
    Holds P (sqlHandle exec nested o c).2 := by
  obtain ⟨committed, opened⟩ := c
  cases o with
  | view => exact h
  | begin =>
    cases opened with
    | none => exact ⟨h.committed, h.committed⟩
    | some d => exact h
  | commit => exact holds_idle h.view
  | rollback => exact holds_idle h.committed
  | execute s =>
    simp only [sqlHandle]
    split
    · next d hd =>
      have hP : P d := ho _ _ hd h.view
      cases opened with
      | none => exact ⟨hP, hP⟩
      | some _ => exact ⟨h.committed, hP⟩
    · exact h

/-- Every database the program commits keeps what its statements keep. -/
theorem committed_inv {p : Flow D Stmt ε α} (hp : p.Calls (Keeps exec P)) {c : Conn D}
    (hc : Holds P c) : ∀ e ∈ p.trace (sqlHandle exec nested) c, P e.post.committed :=
  Prog.along_trace (Prog.Calls.along_inv (I := Holds P) (G := fun _ _ c' => P c'.committed)
    (fun _ _ ho h => ⟨(holds_step ho h).committed, holds_step ho h⟩) hp hc)

end Sql
end Nightfall.Core
