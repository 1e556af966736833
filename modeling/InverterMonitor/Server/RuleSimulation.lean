import InverterMonitor.Runs.Simulation
import InverterMonitor.Server.RuleEngine
import InverterMonitor.Server.RulesRoundTrip

/-!
# Rules that act the same

A rule list that was saved and read back has the same rules up to what evaluation reads.

* `SameEngine`: two engines with such lists, the same latches and the same variables;
* `perform_matches`: they do the same in every operation, and stay so.
-/

namespace InverterMonitor.Rules
open Text Cxx Json Registers Runs

/-! ## Conditions -/

section Conditions

variable {c d : RuleCondition} (inputs : Inputs) (vars : Variables)

theorem SameCondition.input (h : SameCondition c d) (now : Nat) :
    getConditionInputValue inputs vars now c = getConditionInputValue inputs vars now d := by
  simp only [getConditionInputValue, h.inputType, h.inputAddress]

theorem SameCondition.value (h : SameCondition c d) (now : Nat) :
    getConditionValue inputs vars now c = getConditionValue inputs vars now d := by
  have hoperand := h.operand
  unfold getConditionValue
  rw [← h.valueInputType]
  split
  · next hconstant =>
    rw [if_pos hconstant] at hoperand
    rw [hoperand]
  · next hinput =>
    rw [if_neg hinput] at hoperand
    rw [hoperand]

theorem SameCondition.met (h : SameCondition c d) (clock : Nat → Nat) :
    conditionMet inputs vars clock c = conditionMet inputs vars clock d := by
  simp only [conditionMet, evaluateConditionValue, h.input inputs vars, h.value inputs vars, h.op]

theorem conditionsMet_same {cs ds : List RuleCondition} (h : List.Forall₂ SameCondition cs ds)
    (clock : Nat → Nat) : conditionsMet inputs vars clock cs = conditionsMet inputs vars clock ds := by
  induction h generalizing clock with
  | nil => rfl
  | cons hcd _ ih => simp only [conditionsMet, hcd.met inputs vars, ih]

end Conditions

/-! ## Lists and latches -/

theorem SameCondition.refl (c : RuleCondition) : SameCondition c c :=
  ⟨rfl, rfl, rfl, rfl, by split <;> rfl⟩

theorem SameRule.refl (r : Rule) : SameRule r r :=
  ⟨rfl, rfl, rfl, List.forall₂_same.mpr fun c _ => .refl c, rfl⟩

/-- What the events show of a rule. -/
def Rule.outline (r : Rule) : Rule := { r with conditions := [] }

theorem SameRule.outline {r t : Rule} (h : SameRule r t) : r.outline = t.outline := by
  unfold Rule.outline
  rw [h.id, h.enabled, h.name, h.commands]

theorem SameRule.enable {r t : Rule} (h : SameRule r t) (enabled : Bool) :
    SameRule { r with enabled := enabled } { t with enabled := enabled } :=
  ⟨h.id, rfl, h.name, h.conditions, h.commands⟩

theorem sameRules_ids {rules rules' : List Rule} (h : List.Forall₂ SameRule rules rules') :
    rules.map Rule.id = rules'.map Rule.id := by
  induction h with
  | nil => rfl
  | cons hsame _ ih => rw [List.map_cons, List.map_cons, hsame.id, ih]

structure SameStore (store store' : RuleStore) : Prop where
  rules : List.Forall₂ SameRule store.rules store'.rules
  latch : ∀ id, store.latch id = store'.latch id

theorem SameStore.refl (store : RuleStore) : SameStore store store :=
  ⟨List.forall₂_same.mpr fun r _ => .refl r, fun _ => rfl⟩

theorem SameStore.ids {store store' : RuleStore} (h : SameStore store store') :
    store.ids = store'.ids := sameRules_ids h.rules

theorem SameStore.setLatch {store store' : RuleStore} (h : SameStore store store') (id : UInt32)
    (value : Bool) : SameStore (store.setLatch id value) (store'.setLatch id value) := by
  refine ⟨h.rules, fun other => ?_⟩
  rw [RuleStore.latch_setLatch, RuleStore.latch_setLatch, h.latch]

theorem SameStore.setRules {store store' : RuleStore} (h : SameStore store store')
    {rules rules' : List Rule} (hrules : List.Forall₂ SameRule rules rules') :
    SameStore (store.setRules rules) (store'.setRules rules') := ⟨hrules, h.latch⟩

/-- A search by id finds the same rule, or none, in both lists. -/
theorem find?_same {rules rules' : List Rule} (h : List.Forall₂ SameRule rules rules')
    (id : UInt32) :
    Option.Rel SameRule (rules.find? (·.id = id)) (rules'.find? (·.id = id)) := by
  induction h with
  | nil => exact .none
  | @cons r t _ _ hsame _ ih =>
    by_cases hid : t.id = id
    · rw [List.find?_cons_of_pos (by simp [hsame.id, hid]), List.find?_cons_of_pos (by simp [hid])]
      exact .some hsame
    · rw [List.find?_cons_of_neg (by simp [hsame.id, hid]), List.find?_cons_of_neg (by simp [hid])]
      exact ih

theorem switchRule_same {rules rules' : List Rule} (h : List.Forall₂ SameRule rules rules')
    (id : UInt32) (enabled : Bool) :
    Option.Rel (List.Forall₂ SameRule) (switchRule id enabled rules)
      (switchRule id enabled rules') := by
  induction h with
  | nil => exact .none
  | @cons r t rules rules' hsame htail ih =>
    unfold switchRule
    by_cases hid : t.id = id
    · rw [if_pos (hsame.id.trans hid), if_pos hid, hsame.enabled]
      split
      · exact .none
      · exact .some (.cons (hsame.enable enabled) htail)
    · rw [if_neg (hsame.id ▸ hid), if_neg hid]
      generalize switchRule id enabled rules = switched at ih ⊢
      generalize switchRule id enabled rules' = switched' at ih ⊢
      cases ih with
      | none => exact .none
      | some hrest => exact .some (.cons hsame hrest)

theorem setRuleEnabledInternal_same {store store' : RuleStore} (h : SameStore store store')
    (id : UInt32) (enabled : Bool) :
    (setRuleEnabledInternal id enabled store).1 = (setRuleEnabledInternal id enabled store').1 ∧
      SameStore (setRuleEnabledInternal id enabled store).2
        (setRuleEnabledInternal id enabled store').2 := by
  have hswitch := switchRule_same h.rules id enabled
  unfold setRuleEnabledInternal
  generalize switchRule id enabled store.rules = switched at hswitch ⊢
  generalize switchRule id enabled store'.rules = switched' at hswitch ⊢
  cases hswitch with
  | none => exact ⟨rfl, h⟩
  | some hrules =>
    refine ⟨rfl, ?_⟩
    cases enabled with
    | true => exact h.setRules hrules
    | false => exact (h.setRules hrules).setLatch id false

/-! ## Commands and passes -/

structure SameEngine (engine engine' : Engine) : Prop where
  store : SameStore engine.store engine'.store
  vars : engine.vars = engine'.vars

theorem SameEngine.setStore {engine engine' : Engine} (h : SameEngine engine engine')
    {store store' : RuleStore} (hstore : SameStore store store') :
    SameEngine (engine.setStore store) (engine'.setStore store') := ⟨hstore, h.vars⟩

theorem SameEngine.setVars {engine engine' : Engine} (h : SameEngine engine engine')
    (f : Variables → Variables) :
    SameEngine (engine.setVars (f engine.vars)) (engine'.setVars (f engine'.vars)) :=
  ⟨h.store, congrArg f h.vars⟩

theorem switchByCommand_same (enabled : Bool) (command : RuleCommand) {engine engine' : Engine}
    (h : SameEngine engine engine') :
    (switchByCommand enabled command engine).1 = (switchByCommand enabled command engine').1 ∧
      SameEngine (switchByCommand enabled command engine).2
        (switchByCommand enabled command engine').2 := by
  obtain ⟨hchanged, hstore⟩ :=
    setRuleEnabledInternal_same h.store (targetId command.data) enabled
  unfold switchByCommand
  by_cases htarget : 0 < targetId command.data
  · simp only [htarget, ↓reduceIte, hchanged, true_and]
    exact h.setStore hstore
  · simp only [htarget, ↓reduceIte, true_and]
    exact h

theorem executeRuleCommand_same (command : RuleCommand) {engine engine' : Engine}
    (h : SameEngine engine engine') :
    (executeRuleCommand command engine).1 = (executeRuleCommand command engine').1 ∧
      SameEngine (executeRuleCommand command engine).2
        (executeRuleCommand command engine').2 := by
  unfold executeRuleCommand
  cases command.type with
  | enable => exact switchByCommand_same true command h
  | disable => exact switchByCommand_same false command h
  | setVar | addVar | subVar => exact ⟨rfl, h.setVars _⟩
  | send | system | unknown => exact ⟨rfl, h⟩

theorem runCommands_same (commands : List RuleCommand) {engine engine' : Engine}
    (h : SameEngine engine engine') :
    (runCommands commands engine).1 = (runCommands commands engine').1 ∧
      SameEngine (runCommands commands engine).2 (runCommands commands engine').2 := by
  induction commands generalizing engine engine' with
  | nil => exact ⟨rfl, h⟩
  | cons command commands ih =>
    obtain ⟨hexecuted, hnext⟩ := executeRuleCommand_same command h
    obtain ⟨hrun, hend⟩ := ih hnext
    simp only [runCommands]
    exact ⟨by rw [hexecuted, hrun], hend⟩

/-- The event, with the outlines of its rules. -/
def Event.outline : Event → Event
  | .visit rule verdict run => .visit rule.outline verdict run
  | .loaded rules => .loaded (rules.map Rule.outline)
  | .added rule => .added rule.outline
  | event => event

theorem visitRule_same (inputs : Inputs) (k : Nat) {r t : Rule} (hrule : SameRule r t)
    {engine engine' : Engine} (h : SameEngine engine engine') :
    (visitRule inputs k r engine).1.outline = (visitRule inputs k t engine').1.outline ∧
      SameEngine (visitRule inputs k r engine).2 (visitRule inputs k t engine').2 := by
  have hmet := conditionsMet_same inputs engine.vars hrule.conditions (inputs.clock k)
  obtain ⟨hrun, hafter⟩ := runCommands_same r.commands h
  simp only [visitRule, ← hrule.id, ← hrule.enabled, ← hrule.commands, ← h.vars, ← hmet,
    ← h.store.latch]
  split
  · split
    · split
      · exact ⟨by rw [Event.outline, Event.outline, hrule.outline],
          h.setStore (h.store.setLatch _ _)⟩
      · exact ⟨by rw [Event.outline, Event.outline, hrule.outline, hrun],
          hafter.setStore (hafter.store.setLatch _ _)⟩
    · exact ⟨by rw [Event.outline, Event.outline, hrule.outline],
        h.setStore (h.store.setLatch _ _)⟩
  · exact ⟨by rw [Event.outline, Event.outline, hrule.outline],
      h.setStore (h.store.setLatch _ _)⟩

theorem getElem?_same {rules rules' : List Rule} (h : List.Forall₂ SameRule rules rules') (k : Nat) :
    Option.Rel SameRule rules[k]? rules'[k]? := by
  induction h generalizing k with
  | nil => exact .none
  | cons hsame _ ih =>
    cases k with
    | zero => exact .some hsame
    | succ k => exact ih k

theorem visitFrom_same (inputs : Inputs) (n k : Nat) {engine engine' : Engine}
    (h : SameEngine engine engine') :
    (visitFrom inputs n k engine).1.map Event.outline =
        (visitFrom inputs n k engine').1.map Event.outline ∧
      SameEngine (visitFrom inputs n k engine).2 (visitFrom inputs n k engine').2 := by
  induction n generalizing k engine engine' with
  | zero => exact ⟨rfl, h⟩
  | succ n ih =>
    have hrule := getElem?_same h.store.rules k
    simp only [visitFrom]
    generalize engine.store.rules[k]? = rule at hrule ⊢
    generalize engine'.store.rules[k]? = rule' at hrule ⊢
    cases hrule with
    | none => exact ⟨rfl, h⟩
    | some hsame =>
      obtain ⟨hevent, hnext⟩ := visitRule_same inputs k hsame h
      obtain ⟨hevents, hend⟩ := ih (k + 1) hnext
      exact ⟨by rw [List.map_cons, List.map_cons, hevent, hevents], hend⟩

theorem evaluateRules_same (inputs : Inputs) {engine engine' : Engine}
    (h : SameEngine engine engine') :
    (evaluateRules inputs engine).1.map Event.outline =
        (evaluateRules inputs engine').1.map Event.outline ∧
      SameEngine (evaluateRules inputs engine).2 (evaluateRules inputs engine').2 := by
  unfold evaluateRules
  rw [h.store.rules.length_eq]
  exact visitFrom_same inputs _ 0 h

theorem executeRuleCommands_same (saves : Bool) (id : UInt32) {engine engine' : Engine}
    (h : SameEngine engine engine') :
    (executeRuleCommands saves id engine).2.1.map Event.outline =
        (executeRuleCommands saves id engine').2.1.map Event.outline ∧
      SameEngine (executeRuleCommands saves id engine).2.2
        (executeRuleCommands saves id engine').2.2 := by
  have hrule := find?_same h.store.rules id
  unfold executeRuleCommands
  generalize engine.store.rules.find? (·.id = id) = rule at hrule ⊢
  generalize engine'.store.rules.find? (·.id = id) = rule' at hrule ⊢
  cases hrule with
  | none => exact ⟨rfl, h⟩
  | @some r t hsame =>
    obtain ⟨hrun, hend⟩ := runCommands_same r.commands h
    simp only [← hsame.commands]
    exact ⟨by rw [hrun], hend⟩

/-! ## The other operations -/

theorem nextRuleId_same {rules rules' : List Rule} (h : List.Forall₂ SameRule rules rules') :
    nextRuleId rules = nextRuleId rules' := by
  have hfold : ∀ rules : List Rule, nextRuleId rules =
      (rules.map Rule.id).foldl (fun nextId id => max nextId (id + 1)) 1 := by
    intro rules
    rw [List.foldl_map]
    rfl
  rw [hfold, hfold, sameRules_ids h]

theorem withRuleId_same {rules rules' : List Rule} (h : List.Forall₂ SameRule rules rules')
    (rule : Rule) : withRuleId rules rule = withRuleId rules' rule := by
  unfold withRuleId
  rw [nextRuleId_same h]

theorem addRule_same (saves : Bool) (rule : Rule) {store store' : RuleStore}
    (h : SameStore store store') :
    SameStore (addRule saves rule store).2 (addRule saves rule store').2 := by
  unfold addRule
  rw [h.ids, withRuleId_same h.rules]
  split
  · exact h
  · exact (h.setRules (List.rel_append h.rules (.cons (.refl _) .nil))).setLatch _ _

theorem filter_same {rules rules' : List Rule} (h : List.Forall₂ SameRule rules rules')
    (id : UInt32) :
    List.Forall₂ SameRule (rules.filter (·.id ≠ id)) (rules'.filter (·.id ≠ id)) := by
  induction h with
  | nil => exact .nil
  | @cons r t _ _ hsame _ ih =>
    by_cases hid : t.id = id
    · rw [List.filter_cons_of_neg (by simp [hsame.id, hid]), List.filter_cons_of_neg (by simp [hid])]
      exact ih
    · rw [List.filter_cons_of_pos (by simp [hsame.id, hid]), List.filter_cons_of_pos (by simp [hid])]
      exact .cons hsame ih

theorem latch_erase (store : RuleStore) (rules : List Rule) (id other : UInt32) :
    RuleStore.latch { rules := rules, ruleLastState := store.ruleLastState.erase id } other =
      if id = other then false else store.latch other := by
  by_cases h : id = other
  · subst h
    simp [RuleStore.latch]
  · simp [RuleStore.latch, Std.ExtTreeMap.getElem?_erase, h]

theorem deleteRule_same (saves : Bool) (id : UInt32) {store store' : RuleStore}
    (h : SameStore store store') :
    SameStore (deleteRule saves id store).2 (deleteRule saves id store').2 := by
  unfold deleteRule
  rw [h.ids]
  split
  · refine ⟨filter_same h.rules id, fun other => ?_⟩
    rw [latch_erase, latch_erase, h.latch]
  · exact h

/-- The step lemma: an operation does the same in both engines. -/
theorem perform_matches (operation : Operation) {engine engine' : Engine}
    (h : SameEngine engine engine') :
    Matches SameEngine Event.outline (perform operation engine) (perform operation engine') := by
  cases operation with
  | loadRules file =>
    cases file with
    | none => exact .ok (h.setStore (.refl _)) rfl
    | some content =>
      simp only [perform, loadRules]
      cases parseRulesArray content with
      | ok rules => exact .ok (h.setStore (.refl _)) rfl
      | error failure =>
        cases failure with
        | rejected => exact .ok h rfl
        | raised e => exact .error _
        | diverged => exact .error _
  | addRule saves rule =>
    simp only [perform, h.store.ids, withRuleId_same h.store.rules]
    split
    · exact .ok h rfl
    · exact .ok (h.setStore (addRule_same saves rule h.store)) rfl
  | deleteRule saves id =>
    simp only [perform, h.store.ids]
    exact .ok (h.setStore (deleteRule_same saves id h.store)) rfl
  | setRuleEnabled saves id enabled =>
    obtain ⟨hchanged, hstore⟩ := setRuleEnabledInternal_same h.store id enabled
    simp only [perform, setRuleEnabled, hchanged]
    exact .ok (h.setStore hstore) rfl
  | executeRuleCommands saves id =>
    obtain ⟨hevents, hend⟩ := executeRuleCommands_same saves id h
    exact .ok hend hevents
  | evaluateRules inputs =>
    obtain ⟨hevents, hend⟩ := evaluateRules_same inputs h
    exact .ok hend hevents
  | setVariable key value => exact .ok (h.setVars _) rfl

end InverterMonitor.Rules
