import Mathlib.Data.List.Basic

/-!
# Machines that cannot be told apart

A machine performs operations; each one fails, or gives a state and the events on the way.

* `Matches`: two results with the same failure, or related states and events that look alike;
* `performAll_matches`: what each operation does alike, a sequence of them does.
-/

namespace Runs

variable {O S E F V : Type}

/-- The operations one after the other, up to the first that fails. -/
def performAll (perform : O → S → Except F (S × List E)) : List O → S → Except F (S × List E)
  | [], s => .ok (s, [])
  | operation :: operations, s => do
    let (t, events) ← perform operation s
    let (u, rest) ← performAll perform operations t
    return (u, events ++ rest)

/-- Two results that the relation and the view do not tell apart. -/
inductive Matches (R : S → S → Prop) (view : E → V) :
    Except F (S × List E) → Except F (S × List E) → Prop
  | ok {s t : S} {events events' : List E} (hstate : R s t)
      (hview : events.map view = events'.map view) :
      Matches R view (.ok (s, events)) (.ok (t, events'))
  | error (failure : F) : Matches R view (.error failure) (.error failure)

/-- The run lemma for a simulation. -/
theorem performAll_matches {perform : O → S → Except F (S × List E)} {R : S → S → Prop}
    {view : E → V}
    (hstep : ∀ operation s t, R s t →
      Matches R view (perform operation s) (perform operation t))
    (operations : List O) {s t : S} (h : R s t) :
    Matches R view (performAll perform operations s) (performAll perform operations t) := by
  induction operations generalizing s t with
  | nil => exact .ok h rfl
  | cons operation operations ih =>
    have hfirst := hstep operation s t h
    simp only [performAll]
    generalize perform operation s = result at hfirst ⊢
    generalize perform operation t = result' at hfirst ⊢
    cases hfirst with
    | error failure => exact .error failure
    | ok hstate hview =>
      have hrest := ih hstate
      change Matches R view ((performAll perform operations _).bind _)
        ((performAll perform operations _).bind _)
      generalize performAll perform operations _ = rest at hrest ⊢
      generalize performAll perform operations _ = rest' at hrest ⊢
      cases hrest with
      | error failure => exact .error failure
      | ok hstate' hview' =>
        refine .ok hstate' ?_
        rw [List.map_append, List.map_append, hview, hview']

end Runs
