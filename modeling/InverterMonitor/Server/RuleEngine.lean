import InverterMonitor.Server.RuleStore
import InverterMonitor.Runs.History

/-!
# Evaluating rules

`evaluateRules` visits the rules in order; the commands of one visit may switch
rules before and after it.  Each operation of the engine emits the `Event`s that
its history needs: who was visited with what verdict, which commands ran, and
which rules were switched, loaded, added and deleted.
-/

namespace InverterMonitor.Rules
open Text Cxx Json Registers

/-! ## Variables -/

abbrev Variables := Std.ExtTreeMap UInt32 Float

def getVariable (vars : Variables) (key : UInt32) : Float := vars[key]?.getD 0.0

def setVariable (key : UInt32) (value : Float) (vars : Variables) : Variables :=
  vars.insert key value

def addToVariable (key : UInt32) (value : Float) (vars : Variables) : Variables :=
  vars.insert key (getVariable vars key + value)

def subtractFromVariable (key : UInt32) (value : Float) (vars : Variables) : Variables :=
  vars.insert key (getVariable vars key - value)

/-! ## Conditions -/

/-- What a pass reads from outside.  `clock k` gives the seconds of the day that
the time readings of the `k`-th visit see. -/
structure Inputs where
  lastValues : LastValues := ∅
  relays : RelayTable := relayMetadata
  clock : Nat → Nat → Nat := fun _ _ => 0

def getConditionInputValue (inputs : Inputs) (vars : Variables) (now : Nat)
    (condition : RuleCondition) : Option Float :=
  let address := condition.inputAddress.toUInt16
  match condition.inputType with
  | .register => inputs.lastValues[address]?.map (getScaledRegisterValue inputs.relays address)
  | .variable => some (getVariable vars condition.inputAddress)
  | .relay => inputs.lastValues[address]?.map doubleOfInt16
  | .time => some (Float.ofNat now)
  | .unknown => none

def getConditionValue (inputs : Inputs) (vars : Variables) (now : Nat)
    (condition : RuleCondition) : Option Float :=
  if condition.valueInputType = .unknown then some condition.valueNumber
  else getConditionInputValue inputs vars now
    { inputType := condition.valueInputType, inputAddress := condition.valueInputAddress }

def evaluateConditionValue (inputValue : Float) (condition : RuleCondition) : Bool :=
  let compareValue := condition.valueNumber
  match condition.op with
  | .equal => (inputValue - compareValue).abs < 1e-6
  | .notEqual => 1e-6 ≤ (inputValue - compareValue).abs
  | .less => inputValue < compareValue
  | .lessEqual => inputValue ≤ compareValue
  | .greater => compareValue < inputValue
  | .greaterEqual => compareValue ≤ inputValue
  | .unknown => false

/-- One round of the condition loop; each of the two readings has its own time. -/
def conditionMet (inputs : Inputs) (vars : Variables) (clock : Nat → Nat)
    (condition : RuleCondition) : Bool :=
  match getConditionInputValue inputs vars (clock 0) condition,
      getConditionValue inputs vars (clock 1) condition with
  | some inputValue, some compareValue =>
    evaluateConditionValue inputValue { condition with valueNumber := compareValue }
  | _, _ => false

def conditionsMet (inputs : Inputs) (vars : Variables) (clock : Nat → Nat) :
    List RuleCondition → Bool
  | [] => true
  | condition :: conditions =>
    conditionMet inputs vars clock condition &&
      conditionsMet inputs vars (fun reading => clock (reading + 2)) conditions

/-! ## Commands -/

structure Engine where
  store : RuleStore := {}
  vars : Variables := ∅

namespace Engine

def setStore (engine : Engine) (store : RuleStore) : Engine := { engine with store := store }

def setVars (engine : Engine) (vars : Variables) : Engine :=
  { engine with vars := vars }

@[simp] theorem setStore_store (engine : Engine) (store : RuleStore) :
    (engine.setStore store).store = store := rfl
@[simp] theorem setVars_store (engine : Engine) (vars : Variables) :
    (engine.setVars vars).store = engine.store := rfl

end Engine

/-- What a command hands to other parts of the server: a line for `parseCommand`
or a text for `std::system`. -/
inductive Issued
  | parseCommand (line : Bytes)
  | system (text : Bytes)
  deriving DecidableEq, Repr

/-- A command that has been run; `switched` tells a rule whose flag it changed. -/
structure Executed where
  command : RuleCommand
  switched : Option (UInt32 × Bool) := none
  issued : Option Issued := none
  deriving DecidableEq

/-- The rule id in a command's data, `0` when it is no number. -/
def targetId (data : Bytes) : UInt32 :=
  match stoul data with
  | .ok n => n.toUInt32
  | .error _ => 0

/-- The number in a command's data, `0` when there is none. -/
def commandValue (data : Bytes) : Float :=
  match stod data with
  | .ok value => value
  | .error _ => 0.0

/-- The branches `Enable` and `Disable`. -/
def switchByCommand (enabled : Bool) (command : RuleCommand) (engine : Engine) :
    Executed × Engine :=
  let id := targetId command.data
  if 0 < id then
    let (changed, store) := setRuleEnabledInternal id enabled engine.store
    ({ command := command, switched := if changed then some (id, enabled) else none },
      engine.setStore store)
  else ({ command := command }, engine)

def executeRuleCommand (command : RuleCommand) (engine : Engine) : Executed × Engine :=
  match command.type with
  | .send => ({ command := command, issued := some (.parseCommand command.data) }, engine)
  | .enable => switchByCommand true command engine
  | .disable => switchByCommand false command engine
  | .setVar => ({ command := command },
      engine.setVars
        (setVariable command.address (commandValue command.data) engine.vars))
  | .addVar => ({ command := command },
      engine.setVars
        (addToVariable command.address (commandValue command.data) engine.vars))
  | .subVar => ({ command := command },
      engine.setVars
        (subtractFromVariable command.address (commandValue command.data) engine.vars))
  | .system =>
    let issued := if command.data = [] then none else some (.system command.data)
    ({ command := command, issued := issued }, engine)
  | .unknown => ({ command := command }, engine)

def runCommands : List RuleCommand → Engine → List Executed × Engine
  | [], engine => ([], engine)
  | command :: commands, engine =>
    let (executed, engine) := executeRuleCommand command engine
    let (run, engine) := runCommands commands engine
    (executed :: run, engine)

/-- `rulesModified` -/
def modified (run : List Executed) : Bool := run.any (·.switched.isSome)

/-! ## Passes -/

inductive Verdict
  | disabled
  | unmet
  | met (fired : Bool)
  deriving DecidableEq, Repr

inductive Event
  | visit (rule : Rule) (verdict : Verdict) (run : List Executed)
  | executed (id : UInt32) (run : List Executed)
  | switched (id : UInt32) (enabled : Bool)
  | loaded (rules : List Rule)
  | added (rule : Rule)
  | deleted (id : UInt32)

/-- The body of the loop in `evaluateRules`, for the rule at index `k`. -/
def visitRule (inputs : Inputs) (k : Nat) (rule : Rule) (engine : Engine) : Event × Engine :=
  if rule.enabled then
    if conditionsMet inputs engine.vars (inputs.clock k) rule.conditions then
      let previouslyMet := engine.store.latch rule.id
      let (run, engine) := if previouslyMet then ([], engine) else runCommands rule.commands engine
      (.visit rule (.met (!previouslyMet)) run,
        engine.setStore (engine.store.setLatch rule.id true))
    else (.visit rule .unmet [], engine.setStore (engine.store.setLatch rule.id false))
  else (.visit rule .disabled [], engine.setStore (engine.store.setLatch rule.id false))

/-- The visits from index `k` on. -/
def visitFrom (inputs : Inputs) : Nat → Nat → Engine → List Event × Engine
  | 0, _, engine => ([], engine)
  | n + 1, k, engine =>
    match engine.store.rules[k]? with
    | none => ([], engine)
    | some rule =>
      let (event, engine) := visitRule inputs k rule engine
      let (events, engine) := visitFrom inputs n (k + 1) engine
      (event :: events, engine)

def evaluateRules (inputs : Inputs) (engine : Engine) : List Event × Engine :=
  visitFrom inputs engine.store.rules.length 0 engine

/-- `false` when there is no such rule or the changed list cannot be saved. -/
def executeRuleCommands (saves : Bool) (id : UInt32) (engine : Engine) :
    Bool × List Event × Engine :=
  match engine.store.rules.find? (·.id = id) with
  | none => (false, [], engine)
  | some rule =>
    let (run, engine) := runCommands rule.commands engine
    (!modified run || saves, [.executed id run], engine)

/-! ## Operations -/

inductive Operation
  | loadRules (file : Option Bytes)
  | addRule (saves : Bool) (rule : Rule)
  | deleteRule (saves : Bool) (id : UInt32)
  | setRuleEnabled (saves : Bool) (id : UInt32) (enabled : Bool)
  | executeRuleCommands (saves : Bool) (id : UInt32)
  | evaluateRules (inputs : Inputs)
  | setVariable (key : UInt32) (value : Float)

/-- An operation with the events it emits, unless an exception ends the server. -/
def perform (operation : Operation) (engine : Engine) : Except Failure (Engine × List Event) :=
  match operation with
  | .loadRules file =>
    match loadRules file engine.store with
    | .ok (true, store) => .ok (engine.setStore store, [.loaded store.rules])
    | .ok (false, _) => .ok (engine, [])
    | .error failure => .error failure
  | .addRule saves rule =>
    if rule.id ≠ 0 ∧ rule.id ∈ engine.store.ids then .ok (engine, [])
    else .ok (engine.setStore (addRule saves rule engine.store).2,
      [.added (withRuleId engine.store.rules rule)])
  | .deleteRule saves id =>
    .ok (engine.setStore (deleteRule saves id engine.store).2,
      if id ∈ engine.store.ids then [.deleted id] else [])
  | .setRuleEnabled saves id enabled =>
    .ok (engine.setStore (setRuleEnabled saves id enabled engine.store).2,
      if (setRuleEnabledInternal id enabled engine.store).1 then [.switched id enabled] else [])
  | .executeRuleCommands saves id =>
    let (_, events, engine) := executeRuleCommands saves id engine
    .ok (engine, events)
  | .evaluateRules inputs =>
    let (events, engine) := evaluateRules inputs engine
    .ok (engine, events)
  | .setVariable key value =>
    .ok (engine.setVars (setVariable key value engine.vars), [])

/-- A step of the engine that keeps the rule ids distinct. -/
def Step (engine engine' : Engine) (events : List Event) : Prop :=
  (∃ operation, perform operation engine = .ok (engine', events)) ∧ engine'.store.ids.Nodup

end InverterMonitor.Rules
