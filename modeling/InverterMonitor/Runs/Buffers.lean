import Mathlib.Data.List.Induction

/-!
# Loops that consume a receive buffer

A loop takes items off the front of a buffer until it has to wait for more, and
chunks are appended to what it left.

* `drain_append`: a buffer that grows later is drained the same;
* `receiveAll_flatten`: so only the concatenation of the chunks matters.
-/

namespace Runs

variable {S B R : Type}

/-- One turn of the loop: what it emits, the state and the buffer after it, or
`none` where it waits.  More bytes behind do not change a turn. -/
structure Consumer (S B R : Type) where
  turn : S → List B → Option (List R × S × List B)
  shrinks : ∀ {s t : S} {buffer rest : List B} {emitted : List R},
    turn s buffer = some (emitted, t, rest) → rest.length < buffer.length
  stable : ∀ {s t : S} {buffer rest : List B} {emitted : List R} (later : List B),
    turn s buffer = some (emitted, t, rest) →
      turn s (buffer ++ later) = some (emitted, t, rest ++ later)

/-- What was emitted, the state, and what is left in the buffer. -/
structure Reception (S B R : Type) where
  emitted : List R := []
  state : S
  rest : List B := []

namespace Consumer

variable (c : Consumer S B R)

/-- At most so many turns. -/
def turns : Nat → S → List B → Reception S B R
  | 0, s, buffer => { state := s, rest := buffer }
  | n + 1, s, buffer =>
    match c.turn s buffer with
    | none => { state := s, rest := buffer }
    | some (emitted, t, rest) =>
      { turns n t rest with emitted := emitted ++ (turns n t rest).emitted }

/-- The loop until it waits: every turn shrinks the buffer. -/
def drain (s : S) (buffer : List B) : Reception S B R := c.turns buffer.length s buffer

/-- A chunk arrives, and the loop runs. -/
def receive (x : Reception S B R) (chunk : List B) : Reception S B R :=
  { c.drain x.state (x.rest ++ chunk) with
    emitted := x.emitted ++ (c.drain x.state (x.rest ++ chunk)).emitted }

def receiveAll (s : S) (chunks : List (List B)) : Reception S B R :=
  chunks.foldl c.receive { state := s }

variable {c}

theorem turn_nil (s : S) : c.turn s [] = none := by
  cases hturn : c.turn s [] with
  | none => rfl
  | some result => exact absurd (c.shrinks hturn) (Nat.not_lt_zero _)

/-- Turns beyond the length of the buffer do nothing. -/
theorem turns_eq {n m : Nat} {s : S} {buffer : List B} (hn : buffer.length ≤ n)
    (hm : buffer.length ≤ m) : c.turns n s buffer = c.turns m s buffer := by
  induction n generalizing m s buffer with
  | zero =>
    obtain rfl := List.eq_nil_of_length_eq_zero (Nat.le_zero.mp hn)
    cases m with
    | zero => rfl
    | succ m => simp only [turns, turn_nil]
  | succ n ih =>
    cases m with
    | zero =>
      obtain rfl := List.eq_nil_of_length_eq_zero (Nat.le_zero.mp hm)
      simp only [turns, turn_nil]
    | succ m =>
      unfold turns
      cases hturn : c.turn s buffer with
      | none => rfl
      | some result =>
        obtain ⟨emitted, t, rest⟩ := result
        have hshrinks := c.shrinks hturn
        have hrest := @ih m t rest (by omega) (by omega)
        simp only [hrest]

theorem drain_wait {s : S} {buffer : List B} (h : c.turn s buffer = none) :
    c.drain s buffer = { state := s, rest := buffer } := by
  unfold drain
  cases hlength : buffer.length with
  | zero => rfl
  | succ n => simp only [turns, h]

theorem drain_turn {s t : S} {buffer rest : List B} {emitted : List R}
    (h : c.turn s buffer = some (emitted, t, rest)) :
    c.drain s buffer =
      { c.drain t rest with emitted := emitted ++ (c.drain t rest).emitted } := by
  have hshrinks := c.shrinks h
  unfold drain
  obtain ⟨n, hn⟩ := Nat.exists_eq_succ_of_ne_zero (show buffer.length ≠ 0 by omega)
  rw [hn]
  simp only [turns, h, turns_eq (show rest.length ≤ n by omega) Nat.le.refl]

/-- The induction on the turns of a loop. -/
theorem drain_induction {P : S → List B → Prop}
    (hwait : ∀ s buffer, c.turn s buffer = none → P s buffer)
    (hturn : ∀ s buffer emitted t rest, c.turn s buffer = some (emitted, t, rest) →
      P t rest → P s buffer) (s : S) (buffer : List B) : P s buffer := by
  induction hlength : buffer.length using Nat.strongRecOn generalizing s buffer with
  | ind n ih =>
    subst hlength
    cases h : c.turn s buffer with
    | none => exact hwait s buffer h
    | some result =>
      obtain ⟨emitted, t, rest⟩ := result
      exact hturn s buffer emitted t rest h (ih rest.length (c.shrinks h) t rest rfl)

/-- A buffer that grows later is drained the same. -/
theorem drain_append (s : S) (buffer later : List B) :
    c.drain s (buffer ++ later) = c.receive (c.drain s buffer) later := by
  induction s, buffer using c.drain_induction with
  | hwait s buffer h =>
    rw [drain_wait h]
    rfl
  | hturn s buffer emitted t rest h ih =>
    rw [drain_turn h, drain_turn (c.stable later h), ih]
    simp only [receive, List.append_assoc]

/-- Only the concatenation of the chunks matters. -/
theorem receiveAll_flatten (s : S) (chunks : List (List B)) :
    c.receiveAll s chunks = c.drain s chunks.flatten := by
  induction chunks using List.reverseRecOn with
  | nil => exact (drain_wait (turn_nil s)).symm
  | append_singleton chunks chunk ih =>
    rw [List.flatten_append, List.flatten_singleton, drain_append, ← ih]
    unfold receiveAll
    rw [List.foldl_append]
    rfl

end Consumer

end Runs
