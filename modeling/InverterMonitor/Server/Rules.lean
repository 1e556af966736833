import InverterMonitor.Server.Json

/-!
# Rules and their parser

The data model of `rules.hpp` and `parseRulesArray` with the parsers below it.
-/

namespace InverterMonitor.Rules
open Text Cxx Json

/-! ## Data model -/

inductive ConditionInputType
  | register | variable | relay | time | unknown
  deriving DecidableEq, Repr

inductive ConditionOperator
  | equal | notEqual | less | lessEqual | greater | greaterEqual | unknown
  deriving DecidableEq, Repr

inductive CommandType
  | send | enable | disable | setVar | addVar | subVar | system | unknown
  deriving DecidableEq, Repr

structure RuleCondition where
  inputType : ConditionInputType := .unknown
  inputAddress : UInt32 := 0
  op : ConditionOperator := .unknown
  valueInputType : ConditionInputType := .unknown
  valueInputAddress : UInt32 := 0
  valueString : Bytes := []
  valueNumber : Float := 0.0
  valueIsString : Bool := false
  deriving DecidableEq

structure RuleCommand where
  type : CommandType := .unknown
  data : Bytes := []
  address : UInt32 := 0
  deriving DecidableEq

structure Rule where
  id : UInt32 := 0
  enabled : Bool := true
  name : Bytes := []
  conditions : List RuleCondition := []
  commands : List RuleCommand := []
  deriving DecidableEq

/-! ## Enumerations as text -/

def parseConditionInputType (value : Bytes) : ConditionInputType :=
  let lowered := lower value
  if lowered = ascii "register" then .register
  else if lowered = ascii "variable" then .variable
  else if lowered = ascii "relay" then .relay
  else if lowered = ascii "time" then .time
  else .unknown

def parseConditionOperator (value : Bytes) : ConditionOperator :=
  let lowered := lower value
  if lowered = ascii "equal" then .equal
  else if lowered = ascii "notequal" then .notEqual
  else if lowered = ascii "less" then .less
  else if lowered = ascii "lessequal" then .lessEqual
  else if lowered = ascii "greater" then .greater
  else if lowered = ascii "greaterequal" then .greaterEqual
  else .unknown

def parseCommandType (value : Bytes) : CommandType :=
  let lowered := lower value
  if lowered = ascii "send" then .send
  else if lowered = ascii "enable" then .enable
  else if lowered = ascii "disable" then .disable
  else if lowered = ascii "setvar" then .setVar
  else if lowered = ascii "addvar" then .addVar
  else if lowered = ascii "subvar" then .subVar
  else if lowered = ascii "system" then .system
  else .unknown

def ConditionInputType.text : ConditionInputType → Bytes
  | .register => ascii "register"
  | .variable => ascii "variable"
  | .relay => ascii "relay"
  | .time => ascii "time"
  | .unknown => ascii "unknown"

def ConditionOperator.text : ConditionOperator → Bytes
  | .equal => ascii "equal"
  | .notEqual => ascii "notEqual"
  | .less => ascii "less"
  | .lessEqual => ascii "lessEqual"
  | .greater => ascii "greater"
  | .greaterEqual => ascii "greaterEqual"
  | .unknown => ascii "unknown"

def CommandType.text : CommandType → Bytes
  | .send => ascii "send"
  | .enable => ascii "enable"
  | .disable => ascii "disable"
  | .setVar => ascii "setVar"
  | .addVar => ascii "addVar"
  | .subVar => ascii "subVar"
  | .system => ascii "system"
  | .unknown => ascii "unknown"

theorem parse_inputType_text (t : ConditionInputType) : parseConditionInputType t.text = t := by
  cases t <;> decide

theorem parse_operator_text (op : ConditionOperator) : parseConditionOperator op.text = op := by
  cases op <;> decide

theorem parse_commandType_text (t : CommandType) : parseCommandType t.text = t := by
  cases t <;> decide

/-! ## Values -/

/-- `-1` for a text that is no time of day. -/
def parseTimeStringToSeconds (value : Bytes) : Int :=
  match (do
      let (hours, s) ← extractInt 32 value
      let (colon1, s) ← extractChar s
      let (minutes, s) ← extractInt 32 s
      pure (hours, colon1, minutes, s)) with
  | none => -1
  | some (hours, colon1, minutes, s) =>
    if colon1 ≠ ':' then -1
    else
      match (do
          let (colon2, s) ← extractChar s
          let (seconds, _) ← extractInt 32 s
          pure (colon2, seconds)) with
      | none => inRange hours minutes 0
      | some (colon2, seconds) => if colon2 ≠ ':' then -1 else inRange hours minutes seconds
where
  inRange (hours minutes seconds : Int) : Int :=
    if hours < 0 ∨ 23 < hours ∨ minutes < 0 ∨ 59 < minutes ∨ seconds < 0 ∨ 59 < seconds then -1
    else hours * 3600 + minutes * 60 + seconds

/-- The comparison value a quoted text gives under an input type. -/
def stringValueNumber (inputType : ConditionInputType) (value : Bytes) : Except Exception Float :=
  if inputType = .time then
    let seconds := parseTimeStringToSeconds value
    .ok (if 0 ≤ seconds then Float.ofNat seconds.toNat else 0.0)
  else stod value

/-! ## Parsers -/

/-- `static_cast<uint32_t>(std::stoul(value))` for the next value. -/
def parseUInt32 (c : Cursor) : Except Failure (UInt32 × Cursor) := do
  let (value, c) ← parseJsonValueAsString c
  let n ← raise (stoul value.text)
  return (n.toUInt32, c)

def conditionValue (condition : RuleCondition) (value : JsonText) :
    Except Failure RuleCondition := do
  if value.isString then
    let number ← raise (stringValueNumber condition.inputType value.text)
    return { condition with
      valueIsString := true, valueString := value.text, valueNumber := number }
  else
    let number ← raise (stod value.text)
    return { condition with valueIsString := false, valueString := [], valueNumber := number }

def conditionMember (bound : Nat) (key : Bytes) (condition : RuleCondition) (c : Cursor) :
    Except Failure (RuleCondition × Cursor) := do
  if key = ascii "inputtype" then
    let (value, c) ← parseJsonValueAsString c
    return ({ condition with inputType := parseConditionInputType value.text }, c)
  else if key = ascii "inputaddress" then
    let (n, c) ← parseUInt32 c
    return ({ condition with inputAddress := n }, c)
  else if key = ascii "operator" then
    let (value, c) ← parseJsonValueAsString c
    return ({ condition with op := parseConditionOperator value.text }, c)
  else if key = ascii "valuetype" then
    let (value, c) ← parseJsonValueAsString c
    return ({ condition with valueInputType := parseConditionInputType value.text }, c)
  else if key = ascii "valueaddress" then
    let (n, c) ← parseUInt32 c
    return ({ condition with valueInputAddress := n }, c)
  else if key = ascii "value" then
    let (value, c) ← parseJsonValueAsString c
    return (← conditionValue condition value, c)
  else return (condition, ← skipJsonValue bound c)

def commandMember (bound : Nat) (key : Bytes) (command : RuleCommand) (c : Cursor) :
    Except Failure (RuleCommand × Cursor) := do
  if key = ascii "type" then
    let (value, c) ← parseJsonValueAsString c
    return ({ command with type := parseCommandType value.text }, c)
  else if key = ascii "data" then
    let (value, c) ← parseJsonValueAsString c
    return ({ command with data := value.text }, c)
  else if key = ascii "address" then
    let (n, c) ← parseUInt32 c
    return ({ command with address := n }, c)
  else return (command, ← skipJsonValue bound c)

def parseRuleCondition (bound : Nat) (c : Cursor) : Except Failure (RuleCondition × Cursor) :=
  parseObject (conditionMember bound) bound {} c

def parseRuleCommand (bound : Nat) (c : Cursor) : Except Failure (RuleCommand × Cursor) :=
  parseObject (commandMember bound) bound {} c

/-- `push_back` -/
def pushBack {α : Type} (xs : List α) (x : α) : List α := xs ++ [x]

def ruleMember (bound : Nat) (key : Bytes) (rule : Rule) (c : Cursor) :
    Except Failure (Rule × Cursor) := do
  if key = ascii "id" then
    let (n, c) ← parseUInt32 c
    return ({ rule with id := n }, c)
  else if key = ascii "enabled" then
    let (value, c) ← orReject (← parseJsonBool c)
    return ({ rule with enabled := value }, c)
  else if key = ascii "name" then
    let (value, c) ← orReject (parseJsonString c)
    return ({ rule with name := value }, c)
  else if key = ascii "conditions" then
    let (conditions, c) ← parseArray (parseRuleCondition bound) pushBack bound c
    return ({ rule with conditions := conditions }, c)
  else if key = ascii "commands" then
    let (commands, c) ← parseArray (parseRuleCommand bound) pushBack bound c
    return ({ rule with commands := commands }, c)
  else return (rule, ← skipJsonValue bound c)

def parseRuleObject (bound : Nat) (c : Cursor) : Except Failure (Rule × Cursor) :=
  parseObject (ruleMember bound) bound {} c

/-- The running maximum of `existing.id + 1`, in 32 bits. -/
def nextRuleId (existing : List Rule) : UInt32 :=
  existing.foldl (fun nextId rule => max nextId (rule.id + 1)) 1

def withRuleId (existing : List Rule) (rule : Rule) : Rule :=
  if rule.id = 0 then { rule with id := nextRuleId existing } else rule

def pushRule (out : List Rule) (rule : Rule) : List Rule := pushBack out (withRuleId out rule)

/-- More iterations than any loop over `data` makes. -/
def loopBound (data : Bytes) : Nat := 2 * data.length + 2

def parseRulesArray (data : Bytes) : Except Failure (List Rule) :=
  (parseArray (parseRuleObject (loopBound data)) pushRule (loopBound data) (.inside data)).map
    Prod.fst

end InverterMonitor.Rules
