import InverterMonitor.Runs.History
import Mathlib.Data.List.DropRight

/-!
# A working copy and its commits

Reads and writes go to a copy of what is stored, and some inputs try to commit the copy.

* `Commits.stored_foldl`: what is stored is the copy at the last commit that succeeded;
* `Commits.synced_foldl`: which is the copy itself, unless the last commit failed.
-/

namespace Storage
open Runs

variable {S E X : Type}

/-- `outcome` is the result of the commit that an input tries. -/
structure Commits (step : S → E → S) (copy stored : S → X) (outcome : E → Option Bool) : Prop where
  idle : ∀ s e, outcome e = none → copy (step s e) = copy s ∧ stored (step s e) = stored s
  done : ∀ s e, outcome e = some true → stored (step s e) = copy (step s e)
  failed : ∀ s e, outcome e = some false → stored (step s e) = stored s

namespace Commits

variable {step : S → E → S} {copy stored : S → X} {outcome : E → Option Bool} {s : S}

/-- The inputs up to the last commit that succeeded. -/
def committed (outcome : E → Option Bool) (inputs : List E) : List E :=
  inputs.rdropWhile fun e => outcome e != some true

theorem stored_foldl (h : Commits step copy stored outcome) (hs : stored s = copy s)
    (inputs : List E) :
    stored (inputs.foldl step s) = copy ((committed outcome inputs).foldl step s) := by
  induction inputs using List.reverseRecOn with
  | nil => exact hs
  | append_singleton inputs e ih =>
    unfold committed at ih ⊢
    rw [List.foldl_concat]
    cases he : outcome e with
    | none =>
      rw [List.rdropWhile_concat_pos _ _ _ (by simp [he]), (h.idle _ _ he).2, ih]
    | some result =>
      cases result with
      | false => rw [List.rdropWhile_concat_pos _ _ _ (by simp [he]), h.failed _ _ he, ih]
      | true =>
        rw [List.rdropWhile_concat_neg _ _ _ (by simp [he]), List.foldl_concat, h.done _ _ he]

theorem synced_foldl (h : Commits step copy stored outcome) (hs : stored s = copy s)
    {inputs : List E} (hlast : last outcome inputs ≠ some false) :
    stored (inputs.foldl step s) = copy (inputs.foldl step s) := by
  induction inputs using List.reverseRecOn with
  | nil => exact hs
  | append_singleton inputs e ih =>
    rw [last_concat] at hlast
    rw [List.foldl_concat]
    cases he : outcome e with
    | none =>
      rw [he, Option.none_or] at hlast
      rw [(h.idle _ _ he).1, (h.idle _ _ he).2, ih hlast]
    | some result =>
      cases result with
      | false => exact absurd (by rw [he, Option.some_or]) hlast
      | true => exact h.done _ _ he

end Commits

end Storage
