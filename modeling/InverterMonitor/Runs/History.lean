import Mathlib.Data.List.Basic

/-!
# Runs and their histories

A system takes steps between states; a step emits events, and a run collects
them in order.  An invariant may speak about the state and the history so far:

* `Run.invariant`: what one step preserves, a whole run preserves;
* `Lawful`: each event obeys a law that depends on the events before it;
* `follow`: a value that every event updates, and `follow_changed`, which finds
  the event that changed it;
* `last`: the last value that the events report.
-/

namespace Runs

variable {S E V : Type}

/-- `Run step start s history`: a run from `start` to `s`. -/
inductive Run (step : S → S → List E → Prop) (start : S) : S → List E → Prop
  | start : Run step start start []
  | next {s t : S} {history events : List E} :
      Run step start s history → step s t events → Run step start t (history ++ events)

namespace Run

variable {step : S → S → List E → Prop} {start : S}

/-- The induction rule for invariants over state and history. -/
theorem invariant {P : S → List E → Prop} (hstart : P start [])
    (hstep : ∀ s t history events, P s history → step s t events → P t (history ++ events))
    {s : S} {history : List E} (h : Run step start s history) : P s history := by
  induction h with
  | start => exact hstart
  | next _ hs ih => exact hstep _ _ _ _ ih hs

theorem trans {s t : S} {before after : List E} (h : Run step start s before)
    (hrest : Run step s t after) : Run step start t (before ++ after) := by
  induction hrest with
  | start =>
    rw [List.append_nil]
    exact h
  | next _ hs ih =>
    rw [← List.append_assoc]
    exact .next ih hs

/-- Steps of one kind are steps of another, all through a run. -/
theorem mono {step' : S → S → List E → Prop} (h : ∀ s t events, step s t events → step' s t events)
    {s : S} {history : List E} (hrun : Run step start s history) : Run step' start s history := by
  induction hrun with
  | start => exact .start
  | next _ hs ih => exact .next ih (h _ _ _ hs)

end Run

/-! ## Laws of single events -/

/-- Every event of the history obeys `law` after the events before it. -/
def Lawful (law : List E → E → Prop) (history : List E) : Prop :=
  ∀ before event after, history = before ++ event :: after → law before event

namespace Lawful

variable {law : List E → E → Prop}

theorem nil : Lawful law [] := by
  intro before event after h
  simp at h

theorem concat {history : List E} {event : E} (h : Lawful law history) (hlaw : law history event) :
    Lawful law (history ++ [event]) := by
  intro before e after heq
  rcases List.eq_nil_or_concat after with rfl | ⟨after, last, rfl⟩
  · obtain ⟨rfl, he⟩ := List.append_inj' heq rfl
    rw [← List.singleton_inj.mp he]
    exact hlaw
  · have heq' : history ++ [event] = (before ++ e :: after) ++ [last] := by
      simpa using heq
    obtain ⟨hhistory, _⟩ := List.append_inj' heq' rfl
    exact h before e after hhistory

theorem of_append {before after : List E} (h : Lawful law (before ++ after)) :
    Lawful law before := by
  intro early event late heq
  apply h early event (late ++ after)
  rw [heq, List.append_assoc, List.cons_append]

/-- The law at the last event. -/
theorem at_end {history : List E} {event : E} (h : Lawful law (history ++ [event])) :
    law history event := h history event [] rfl

theorem concat_iff {history : List E} {event : E} :
    Lawful law (history ++ [event]) ↔ Lawful law history ∧ law history event := by
  constructor
  · intro h
    exact ⟨h.of_append, h.at_end⟩
  · intro h
    exact h.1.concat h.2

end Lawful

/-! ## Values that events update -/

/-- The value of `update` after a history. -/
def follow (update : E → V → V) (history : List E) (value : V) : V :=
  history.foldl (fun value event => update event value) value

@[simp] theorem follow_nil (update : E → V → V) (value : V) : follow update [] value = value := rfl

@[simp] theorem follow_cons (update : E → V → V) (event : E) (history : List E) (value : V) :
    follow update (event :: history) value = follow update history (update event value) := rfl

@[simp] theorem follow_append (update : E → V → V) (before after : List E) (value : V) :
    follow update (before ++ after) value = follow update after (follow update before value) :=
  List.foldl_append

/-- A value that no event of the history changes stays. -/
theorem follow_unchanged {update : E → V → V} {history : List E} {value : V}
    (h : ∀ event ∈ history, update event value = value) : follow update history value = value := by
  induction history with
  | nil => rfl
  | cons event history ih =>
    rw [follow_cons, h event (by simp)]
    exact ih fun e he => h e (by simp [he])

/-- A value that has changed was changed by some event, the first one that did. -/
theorem follow_changed {update : E → V → V} {history : List E} {value : V}
    (h : follow update history value ≠ value) :
    ∃ before event after, history = before ++ event :: after ∧
      (∀ e ∈ before, update e value = value) ∧ update event value ≠ value := by
  induction history with
  | nil => exact absurd rfl h
  | cons event history ih =>
    by_cases hevent : update event value = value
    · rw [follow_cons, hevent] at h
      obtain ⟨before, e, after, rfl, hbefore, he⟩ := ih h
      refine ⟨event :: before, e, after, rfl, ?_, he⟩
      intro e' he'
      rcases List.mem_cons.mp he' with rfl | he'
      · exact hevent
      · exact hbefore e' he'
    · exact ⟨[], event, history, rfl, by simp, hevent⟩

/-! ## Last reports -/

/-- The last value that `report` finds in a history. -/
def last (report : E → Option V) (history : List E) : Option V :=
  (history.filterMap report).getLast?

@[simp] theorem last_nil (report : E → Option V) : last report [] = none := rfl

theorem last_cons (report : E → Option V) (event : E) (history : List E) :
    last report (event :: history) = (last report history).or (report event) := by
  unfold last
  cases hreport : report event with
  | none => rw [List.filterMap_cons_none hreport, Option.or_none]
  | some v =>
    rw [List.filterMap_cons_some hreport, List.getLast?_cons]
    cases (history.filterMap report).getLast? <;> rfl

theorem last_append (report : E → Option V) (before after : List E) :
    last report (before ++ after) = (last report after).or (last report before) := by
  induction before with
  | nil => simp
  | cons event before ih => rw [List.cons_append, last_cons, ih, last_cons, Option.or_assoc]

theorem last_concat (report : E → Option V) (history : List E) (event : E) :
    last report (history ++ [event]) = (report event).or (last report history) := by
  rw [last_append, last_cons, last_nil, Option.none_or]

theorem last_eq_none {report : E → Option V} {history : List E}
    (h : ∀ event ∈ history, report event = none) : last report history = none := by
  rw [last, List.filterMap_eq_nil_iff.mpr h]
  rfl

theorem last_mem {report : E → Option V} {history : List E} {v : V}
    (h : last report history = some v) : ∃ event ∈ history, report event = some v :=
  List.mem_filterMap.mp (List.mem_of_getLast? h)

end Runs
