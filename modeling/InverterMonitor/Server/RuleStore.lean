import InverterMonitor.Server.Rules

/-!
# The rule list and its latches

`rules` and `ruleLastState` of `rules.hpp` with the operations that load and
edit them.  Whether `saveRules` can write its file is the parameter `saves`.
-/

namespace InverterMonitor.Rules
open Text Cxx Json

structure RuleStore where
  rules : List Rule := []
  ruleLastState : Std.ExtTreeMap UInt32 Bool := ∅

namespace RuleStore

/-- `ruleLastState[id]`, which reads `false` for an absent key. -/
def latch (store : RuleStore) (id : UInt32) : Bool := store.ruleLastState[id]?.getD false

/-- `ruleLastState[id] = value` -/
def setLatch (store : RuleStore) (id : UInt32) (value : Bool) : RuleStore :=
  { store with ruleLastState := store.ruleLastState.insert id value }

def setRules (store : RuleStore) (rules : List Rule) : RuleStore := { store with rules := rules }

def ids (store : RuleStore) : List UInt32 := store.rules.map Rule.id

@[simp] theorem setLatch_rules (store : RuleStore) (id : UInt32) (value : Bool) :
    (store.setLatch id value).rules = store.rules := rfl

@[simp] theorem setLatch_ids (store : RuleStore) (id : UInt32) (value : Bool) :
    (store.setLatch id value).ids = store.ids := rfl

theorem latch_setLatch (store : RuleStore) (id other : UInt32) (value : Bool) :
    (store.setLatch id value).latch other = if id = other then value else store.latch other := by
  by_cases h : id = other
  · subst h
    simp [latch, setLatch]
  · simp [latch, setLatch, Std.ExtTreeMap.getElem?_insert, h]

@[simp] theorem setRules_rules (store : RuleStore) (rules : List Rule) :
    (store.setRules rules).rules = rules := rfl

@[simp] theorem latch_setRules (store : RuleStore) (rules : List Rule) (id : UInt32) :
    (store.setRules rules).latch id = store.latch id := rfl

end RuleStore

/-- The store after a successful load: every rule listed, every latch off. -/
def loadedStore (rules : List Rule) : RuleStore where
  rules := rules
  ruleLastState := rules.foldl (fun latches rule => latches.insert rule.id false) ∅

/-- `none` stands for a file that cannot be opened. -/
def loadRules (file : Option Bytes) (store : RuleStore) : Except Failure (Bool × RuleStore) :=
  match file with
  | none => .ok (true, {})
  | some content =>
    match parseRulesArray content with
    | .ok rules => .ok (true, loadedStore rules)
    | .error .rejected => .ok (false, store)
    | .error failure => .error failure

/-- `false` without a change when the id is taken. -/
def addRule (saves : Bool) (rule : Rule) (store : RuleStore) : Bool × RuleStore :=
  if rule.id ≠ 0 ∧ rule.id ∈ store.ids then (false, store)
  else
    let newRule := withRuleId store.rules rule
    (saves, (store.setRules (store.rules ++ [newRule])).setLatch newRule.id false)

def deleteRule (saves : Bool) (id : UInt32) (store : RuleStore) : Bool × RuleStore :=
  if id ∈ store.ids then
    (saves, { rules := store.rules.filter (·.id ≠ id)
              ruleLastState := store.ruleLastState.erase id })
  else (false, store)

/-- The first rule with the id, set to `enabled`; `none` when there is none or it is so already. -/
def switchRule (id : UInt32) (enabled : Bool) : List Rule → Option (List Rule)
  | [] => none
  | rule :: rules =>
    if rule.id = id then
      if rule.enabled = enabled then none else some ({ rule with enabled := enabled } :: rules)
    else (switchRule id enabled rules).map (rule :: ·)

def setRuleEnabledInternal (id : UInt32) (enabled : Bool) (store : RuleStore) :
    Bool × RuleStore :=
  match switchRule id enabled store.rules with
  | none => (false, store)
  | some rules =>
    let store := store.setRules rules
    (true, if enabled then store else store.setLatch id false)

def setRuleEnabled (saves : Bool) (id : UInt32) (enabled : Bool) (store : RuleStore) :
    Bool × RuleStore :=
  let (changed, store) := setRuleEnabledInternal id enabled store
  (changed && saves, store)

/-- A rule is switched when the first one with the id is in the other state. -/
theorem setRuleEnabledInternal_iff {id : UInt32} {enabled : Bool} {store : RuleStore} :
    (setRuleEnabledInternal id enabled store).1 = true ↔
      ∃ rule, store.rules.find? (·.id = id) = some rule ∧ rule.enabled ≠ enabled := by
  have hswitch : ∀ rules : List Rule, (switchRule id enabled rules).isSome = true ↔
      ∃ rule, rules.find? (·.id = id) = some rule ∧ rule.enabled ≠ enabled := by
    intro rules
    induction rules with
    | nil => simp [switchRule]
    | cons rule rules ih =>
      unfold switchRule
      by_cases hid : rule.id = id
      · by_cases henabled : rule.enabled = enabled <;> simp [hid, henabled]
      · simp [hid, ih]
  rw [← hswitch]
  unfold setRuleEnabledInternal
  cases switchRule id enabled store.rules <;> simp

end InverterMonitor.Rules
