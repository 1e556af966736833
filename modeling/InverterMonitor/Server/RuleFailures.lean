import InverterMonitor.Server.RuleArming

/-!
# Rule operations that report failure

`addRule`, `deleteRule` and `setRuleEnabled` change the store before they write
the rules file, and return whether it was written.

* `edit_refused`: an operation that is refused changes nothing;
* `edit_changes`: every other one does, whatever becomes of the file;
* `edit_failure_iff`: so a reported failure has no effect unless it is the file's.
-/

namespace InverterMonitor.Rules
open Text

/-- The operations of the command server on the rules. -/
inductive Edit
  | add (rule : Rule)
  | delete (id : UInt32)
  | setEnabled (id : UInt32) (enabled : Bool)

namespace Edit

def apply (saves : Bool) : Edit → RuleStore → Bool × RuleStore
  | add rule => addRule saves rule
  | delete id => deleteRule saves id
  | setEnabled id enabled => setRuleEnabled saves id enabled

/-- What an operation asks of the rules. -/
def Accepted (store : RuleStore) : Edit → Prop
  | add rule => rule.id = 0 ∨ rule.id ∉ store.ids
  | delete id => id ∈ store.ids
  | setEnabled id enabled =>
    ∃ rule, store.rules.find? (·.id = id) = some rule ∧ rule.enabled ≠ enabled

end Edit

theorem edit_refused {edit : Edit} {store : RuleStore} (h : ¬edit.Accepted store) (saves : Bool) :
    edit.apply saves store = (false, store) := by
  cases edit with
  | add rule =>
    rw [Edit.Accepted, not_or, not_not] at h
    exact if_pos h
  | delete id => exact if_neg h
  | setEnabled id enabled =>
    have hinternal : (setRuleEnabledInternal id enabled store).1 = false := by
      rw [← Bool.not_eq_true, setRuleEnabledInternal_iff]
      exact h
    simp only [Edit.apply, setRuleEnabled, hinternal, Bool.false_and,
      setRuleEnabledInternal_unchanged hinternal]

theorem edit_accepted {edit : Edit} {store : RuleStore} (h : edit.Accepted store) (saves : Bool) :
    (edit.apply saves store).1 = saves := by
  cases edit with
  | add rule =>
    rw [Edit.apply, addRule, if_neg (by rw [not_and_or, not_not]; exact h)]
  | delete id =>
    have hid : id ∈ store.ids := h
    rw [Edit.apply, deleteRule, if_pos hid]
  | setEnabled id enabled =>
    simp only [Edit.apply, setRuleEnabled, setRuleEnabledInternal_iff.mpr h, Bool.true_and]

theorem edit_changes {edit : Edit} {store : RuleStore} (h : edit.Accepted store) (saves : Bool) :
    (edit.apply saves store).2 ≠ store := by
  intro hsame
  have hrules := congrArg RuleStore.rules hsame
  cases edit with
  | add rule =>
    rw [Edit.apply, addRule, if_neg (by rw [not_and_or, not_not]; exact h)] at hrules
    simpa using congrArg List.length hrules
  | delete id =>
    -- No rule with the id is left.
    have hid : id ∈ store.ids := h
    rw [Edit.apply, deleteRule, if_pos hid] at hrules
    obtain ⟨rule, hrule, rfl⟩ := List.mem_map.mp hid
    have hkept := List.filter_eq_self.mp hrules rule hrule
    simp at hkept
  | setEnabled id enabled =>
    have hflag := setRuleEnabledInternal_flag id id enabled store
    rw [if_pos rfl] at hflag
    change (setRuleEnabledInternal id enabled store).2.rules = store.rules at hrules
    obtain ⟨rule, hfind, hne⟩ := h
    rw [hrules, flagOf, hfind] at hflag
    exact hne (Option.some.inj hflag)

/-- A failure that is reported has an effect exactly when the file could not be written. -/
theorem edit_failure_iff (edit : Edit) (saves : Bool) (store : RuleStore) :
    ((edit.apply saves store).1 = false → (edit.apply saves store).2 = store) ↔
      saves = true ∨ ¬edit.Accepted store := by
  by_cases h : edit.Accepted store
  · rw [edit_accepted h]
    cases saves with
    | true => simp
    | false => simp [edit_changes h, h]
  · rw [edit_refused h]
    simp [h]

/-- A new rule stays in the list although its file was not written. -/
theorem added_without_file :
    (Edit.apply false (.add { id := 1 }) {}).1 = false ∧
      (Edit.apply false (.add { id := 1 }) {}).2 ≠ {} := by
  refine ⟨rfl, fun h => ?_⟩
  have hrules := congrArg RuleStore.rules h
  cases hrules

end InverterMonitor.Rules
