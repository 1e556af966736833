import InverterMonitor.Runs.History

/-!
# Reports of several sources

A history may merge what several sources report, each in its own order.

* `last_ofSource`: the last report of all is the last report of a source;
* `last_only_source`: where one source reports, the others do not matter.
-/

namespace Runs

variable {I E V : Type}

/-- The last report of all sources. -/
def lastOfAll (report : E → Option V) (items : List (I × E)) : Option V :=
  last (fun item => report item.2) items

theorem lastOfAll_eq (report : E → Option V) (items : List (I × E)) :
    lastOfAll report items = last report (items.map Prod.snd) := by
  rw [lastOfAll, last, last, List.filterMap_map]
  rfl

variable [DecidableEq I]

/-- The items of a source, in its order. -/
def ofSource (i : I) (items : List (I × E)) : List E :=
  items.filterMap fun item => if item.1 = i then some item.2 else none

theorem ofSource_append (i : I) (items rest : List (I × E)) :
    ofSource i (items ++ rest) = ofSource i items ++ ofSource i rest := List.filterMap_append

theorem ofSource_cons_self (i : I) (e : E) (items : List (I × E)) :
    ofSource i ((i, e) :: items) = e :: ofSource i items :=
  List.filterMap_cons_some (if_pos rfl)

theorem ofSource_cons_other {i j : I} (h : j ≠ i) (e : E) (items : List (I × E)) :
    ofSource i ((j, e) :: items) = ofSource i items :=
  List.filterMap_cons_none (if_neg h)

section

variable {report : E → Option V} {items : List (I × E)}

theorem last_ofSource_none (h : lastOfAll report items = none) (i : I) :
    last report (ofSource i items) = none := by
  refine last_eq_none fun e he => ?_
  obtain ⟨item, hitem, hsource⟩ := List.mem_filterMap.mp he
  obtain ⟨-, hvalue⟩ := Option.ite_none_right_eq_some.mp hsource
  rw [lastOfAll, last, List.getLast?_eq_none_iff, List.filterMap_eq_nil_iff] at h
  exact Option.some.inj hvalue ▸ h item hitem

/-- The last report of all is the last one of the source that it came from. -/
theorem last_ofSource {v : V} (h : lastOfAll report items = some v) :
    ∃ i, last report (ofSource i items) = some v := by
  induction items with
  | nil => cases h
  | cons item items ih =>
    obtain ⟨j, e⟩ := item
    rw [lastOfAll, last_cons] at h
    cases hrest : lastOfAll report items with
    | some w =>
      rw [lastOfAll] at hrest
      rw [hrest, Option.some_or] at h
      obtain ⟨i, hi⟩ := ih (hrest.trans h)
      by_cases hj : j = i
      · refine ⟨i, ?_⟩
        rw [hj, ofSource_cons_self, last_cons, hi, Option.some_or]
      · exact ⟨i, by rw [ofSource_cons_other hj, hi]⟩
    | none =>
      have hnone := last_ofSource_none hrest j
      rw [lastOfAll] at hrest
      rw [hrest, Option.none_or] at h
      refine ⟨j, ?_⟩
      rw [ofSource_cons_self, last_cons, hnone, Option.none_or]
      exact h

/-- Sources that do not report do not matter. -/
theorem last_only_source {i : I} (h : ∀ j, j ≠ i → last report (ofSource j items) = none) :
    lastOfAll report items = last report (ofSource i items) := by
  cases hall : lastOfAll report items with
  | none => exact (last_ofSource_none hall i).symm
  | some v =>
    obtain ⟨j, hj⟩ := last_ofSource hall
    by_cases hij : j = i
    · rw [← hij, hj]
    · rw [h j hij] at hj
      cases hj

end

end Runs
