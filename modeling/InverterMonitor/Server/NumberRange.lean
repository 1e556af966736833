import InverterMonitor.Server.CommandReplies

/-!
# Numbers of rules, variables and registers

Numbers are read with 64 bits and used with 32 or, for registers and relays, with 16.
For each place where a number is given: it acts on what has this very number exactly
when it fits, or when what it acts on instead is not there.
-/

namespace InverterMonitor.Http
open Text Cxx Json Registers Rules

/-! ## Numerals -/

/-- Decimal digits of a number below `2 ^ 64`. -/
structure Numeral (ds : Bytes) (n : Nat) : Prop where
  digits : Digits ds
  nonempty : ds ≠ []
  value : numeralValue ds = n
  fits : n < 2 ^ 64

theorem Numeral.reads {ds : Bytes} {n : Nat} (h : Numeral ds n) {gap rest : Bytes}
    (hgap : Blank gap) (hrest : Stops isDigit rest) :
    Cxx.Reads 64 (gap ++ (ds ++ rest)) n rest := by
  refine ⟨gap, [], ds, hgap, Or.inl rfl, h.digits, h.nonempty, hrest, ?_, ?_, rfl⟩
  · rw [h.value]
    exact h.fits
  · rw [h.value]
    rfl

theorem Numeral.stoul_eq {ds : Bytes} {n : Nat} (h : Numeral ds n) :
    stoul ds = .ok (UInt64.ofNat n) := by
  have hread := h.reads blank_nil (stops_nil isDigit)
  rw [List.nil_append, List.append_nil] at hread
  have hconverted := strtoul_eq_some_iff.mpr ⟨[], hread⟩
  simp only [stoul, hconverted, Bool.false_eq_true, ↓reduceIte]

theorem Numeral.targetId_eq {ds : Bytes} {n : Nat} (h : Numeral ds n) :
    targetId ds = n.toUInt32 := by
  simp only [targetId, h.stoul_eq]
  exact UInt64.toUInt32_ofNat' n

/-- A JSON number or string with these digits. -/
theorem Numeral.parseUInt32_eq {ds : Bytes} {n : Nat} (h : Numeral ds n) {isString : Bool}
    {c c' : Cursor} (hread : parseJsonValueAsString c = .ok (⟨ds, isString⟩, c')) :
    parseUInt32 c = .ok (n.toUInt32, c') := by
  have hvalue : (UInt64.ofNat n).toUInt32 = n.toUInt32 := UInt64.toUInt32_ofNat' n
  simp only [parseUInt32, hread, h.stoul_eq, ok_bind, raise_ok, pure_eq_ok, hvalue]

/-! ## Numbers that fit -/

/-- What is done with a number of at most so many bits, and `nothing` with the others. -/
def within {α : Type} (bits n : Nat) (act nothing : α) : α := if n < 2 ^ bits then act else nothing

theorem eq_within_iff {α : Type} {bits n : Nat} {act nothing : α} :
    act = within bits n act nothing ↔ n < 2 ^ bits ∨ act = nothing := by
  unfold within
  split
  · next h => simp [h]
  · next h => simp [h]

theorem insert_eq_self_iff {vars : Variables} {key : UInt32} {x : Float} :
    vars.insert key x = vars ↔ vars[key]? = some x := by
  constructor
  · intro h
    rw [← h, Std.ExtTreeMap.getElem?_insert_self]
  · intro h
    apply Std.ExtTreeMap.ext_getElem?
    intro k
    rw [Std.ExtTreeMap.getElem?_insert]
    split
    · next hk =>
      rw [← Std.LawfulEqCmp.eq_of_compare hk, h]
    · rfl

/-! ## Rules -/

/-- Whether a command succeeds, the rule commands it runs and the state behind it. -/
abbrev RuleOutcome := Bool × List Executed × Engine

def Handled.outcome (handled : Handled) : RuleOutcome :=
  (handled.success, handled.run, handled.engine)

def untouched (engine : Engine) : RuleOutcome := (false, [], engine)

def switched (env : Environment) (enabled : Bool) (id : UInt32) (engine : Engine) : RuleOutcome :=
  ((setRuleEnabled env.saves id enabled engine.store).1, [],
    engine.setStore (setRuleEnabled env.saves id enabled engine.store).2)

def executed (env : Environment) (id : UInt32) (engine : Engine) : RuleOutcome :=
  (engine.store.rules.find? (·.id = id)).elim (untouched engine) fun rule =>
    (!modified (runCommands rule.commands engine).1 || env.saves,
      (runCommands rule.commands engine).1, (runCommands rule.commands engine).2)

/-- The rule with the number `n` and no other; no rule has the number zero. -/
def onRule (n : Nat) (act : UInt32 → Engine → RuleOutcome) (engine : Engine) : RuleOutcome :=
  if n = 0 then untouched engine else within 32 n (act n.toUInt32 engine) (untouched engine)

/-- No rule with the id is in the other state. -/
def NoneSwitched (enabled : Bool) (id : UInt32) (engine : Engine) : Prop :=
  ∀ rule, engine.store.rules.find? (·.id = id) = some rule → rule.enabled = enabled

theorem switchRule_ne {id : UInt32} {enabled : Bool} {rules after : List Rule}
    (h : switchRule id enabled rules = some after) : after ≠ rules := by
  induction rules generalizing after with
  | nil => cases h
  | cons rule rules ih =>
    unfold switchRule at h
    split at h
    · split at h
      · cases h
      · next henabled =>
        cases h
        intro heq
        exact henabled (congrArg Rule.enabled (List.cons.inj heq).1).symm
    · obtain ⟨others, hothers, rfl⟩ := Option.map_eq_some_iff.mp h
      exact fun heq => ih hothers (List.cons.inj heq).2

theorem setRuleEnabledInternal_eq {id : UInt32} {enabled : Bool} {engine : Engine}
    (h : NoneSwitched enabled id engine) :
    setRuleEnabledInternal id enabled engine.store = (false, engine.store) := by
  have hfalse : (setRuleEnabledInternal id enabled engine.store).1 = false := by
    rw [← Bool.not_eq_true, setRuleEnabledInternal_iff]
    rintro ⟨rule, hrule, hother⟩
    exact hother (h rule hrule)
  unfold setRuleEnabledInternal at hfalse ⊢
  cases hswitch : switchRule id enabled engine.store.rules with
  | none => rfl
  | some rules =>
    rw [hswitch] at hfalse
    cases hfalse

theorem noneSwitched_of_setStore_eq {id : UInt32} {enabled : Bool} {engine : Engine}
    (h : engine.setStore (setRuleEnabledInternal id enabled engine.store).2 = engine) :
    NoneSwitched enabled id engine := by
  intro rule hrule
  by_contra hother
  have htrue := setRuleEnabledInternal_iff.mpr ⟨rule, hrule, hother⟩
  unfold setRuleEnabledInternal at htrue h
  cases hswitch : switchRule id enabled engine.store.rules with
  | none =>
    rw [hswitch] at htrue
    cases htrue
  | some rules =>
    rw [hswitch] at h
    have hrules := congrArg (fun engine : Engine => engine.store.rules) h
    cases enabled <;> exact switchRule_ne hswitch hrules

theorem switched_untouched_iff {env : Environment} {enabled : Bool} {id : UInt32}
    {engine : Engine} :
    switched env enabled id engine = untouched engine ↔ NoneSwitched enabled id engine := by
  constructor
  · intro h
    exact noneSwitched_of_setStore_eq (congrArg (fun outcome => outcome.2.2) h)
  · intro h
    simp only [switched, setRuleEnabled, setRuleEnabledInternal_eq h]
    rfl

theorem executed_untouched_iff {env : Environment} {id : UInt32} {engine : Engine} :
    executed env id engine = untouched engine ↔
      engine.store.rules.find? (·.id = id) = none := by
  unfold executed
  cases hrule : engine.store.rules.find? (·.id = id) with
  | none => exact iff_of_true rfl rfl
  | some rule =>
    refine iff_of_false ?_ (Option.some_ne_none rule)
    intro h
    have hrun : (runCommands rule.commands engine).1 = [] :=
      congrArg (fun outcome => outcome.2.1) h
    have hresult := congrArg Prod.fst h
    simp [untouched, hrun, modified] at hresult

theorem readRuleNo_numeral {ds : Bytes} {n : Nat} (h : Numeral ds n) {gap rest : Bytes}
    (hgap : Blank gap) (hrest : Stops isDigit rest) :
    readRuleNo (gap ++ (ds ++ rest)) = if n = 0 then none else some n.toUInt32 := by
  unfold readRuleNo
  rw [extractUnsigned_eq_some_iff.mpr (h.reads hgap hrest)]
  rfl

theorem switchRuleByNumber_outcome {ds : Bytes} {n : Nat} (h : Numeral ds n) {gap rest : Bytes}
    (hgap : Blank gap) (hrest : Stops isDigit rest) (env : Environment) (enabled : Bool)
    (engine : Engine) :
    (switchRuleByNumber env enabled (gap ++ (ds ++ rest)) engine).outcome =
      if n = 0 then untouched engine else switched env enabled n.toUInt32 engine := by
  rw [switchRuleByNumber, readRuleNo_numeral h hgap hrest]
  by_cases hn : n = 0
  · rw [if_pos hn, if_pos hn]
    rfl
  · rw [if_neg hn, if_neg hn]
    rfl

theorem executeRuleByNumber_outcome {ds : Bytes} {n : Nat} (h : Numeral ds n) {gap rest : Bytes}
    (hgap : Blank gap) (hrest : Stops isDigit rest) (env : Environment) (engine : Engine) :
    (executeRuleByNumber env (gap ++ (ds ++ rest)) engine).outcome =
      if n = 0 then untouched engine else executed env n.toUInt32 engine := by
  rw [executeRuleByNumber, readRuleNo_numeral h hgap hrest]
  by_cases hn : n = 0
  · rw [if_pos hn, if_pos hn]
    rfl
  · rw [if_neg hn, if_neg hn, executed]
    simp only [executeRuleCommands, Handled.outcome]
    cases engine.store.rules.find? (·.id = n.toUInt32) with
    | none => rfl
    | some rule => simp

theorem onRule_iff {n : Nat} {act : UInt32 → Engine → RuleOutcome} {engine : Engine} :
    (if n = 0 then untouched engine else act n.toUInt32 engine) = onRule n act engine ↔
      n < 2 ^ 32 ∨ act n.toUInt32 engine = untouched engine := by
  unfold onRule
  by_cases hn : n = 0
  · simp [hn]
  · simp only [hn, ↓reduceIte]
    exact eq_within_iff

/-! ## Commands of rules -/

/-- `Enable` and `Disable`, on the rule with the id in the data. -/
def switchCommand (enabled : Bool) (id : UInt32) (command : RuleCommand) (engine : Engine) :
    Executed × Engine :=
  ({ command := command
     switched := if (setRuleEnabledInternal id enabled engine.store).1 then some (id, enabled)
       else none },
    engine.setStore (setRuleEnabledInternal id enabled engine.store).2)

def onRuleData (n : Nat) (enabled : Bool) (command : RuleCommand) (engine : Engine) :
    Executed × Engine :=
  if n = 0 then ({ command := command }, engine)
  else within 32 n (switchCommand enabled n.toUInt32 command engine)
    ({ command := command }, engine)

theorem switchCommand_untouched_iff {enabled : Bool} {id : UInt32} {command : RuleCommand}
    {engine : Engine} :
    switchCommand enabled id command engine = ({ command := command }, engine) ↔
      NoneSwitched enabled id engine := by
  constructor
  · intro h
    exact noneSwitched_of_setStore_eq (congrArg Prod.snd h)
  · intro h
    simp only [switchCommand, setRuleEnabledInternal_eq h]
    rfl

theorem toUInt32_eq_zero {n : Nat} (hn : n < 2 ^ 32) : n.toUInt32 = 0 ↔ n = 0 := by
  constructor
  · intro h
    have hvalue := congrArg UInt32.toNat h
    rw [Nat.toUInt32, UInt32.toNat_ofNat_of_lt' hn] at hvalue
    exact hvalue
  · rintro rfl
    rfl

theorem switchByCommand_iff {command : RuleCommand} {n : Nat} (h : Numeral command.data n)
    (enabled : Bool) (engine : Engine) :
    switchByCommand enabled command engine = onRuleData n enabled command engine ↔
      n < 2 ^ 32 ∨ n.toUInt32 = 0 ∨ NoneSwitched enabled n.toUInt32 engine := by
  have hswitch : switchByCommand enabled command engine =
      if n.toUInt32 = 0 then ({ command := command }, engine)
      else switchCommand enabled n.toUInt32 command engine := by
    unfold switchByCommand
    simp only [h.targetId_eq, UInt32.pos_iff_ne_zero, ne_eq, ite_not]
    rfl
  rw [hswitch, onRuleData]
  by_cases hfits : n < 2 ^ 32
  · simp only [within, hfits, toUInt32_eq_zero hfits, true_or, ↓reduceIte]
  · have hne : n ≠ 0 := by
      rintro rfl
      exact hfits (by decide)
    simp only [within, hfits, hne, false_or, ↓reduceIte]
    by_cases hzero : n.toUInt32 = 0
    · simp only [hzero, true_or, ↓reduceIte]
    · simp only [hzero, false_or, ↓reduceIte, switchCommand_untouched_iff]

/-- What a command makes of the variable with its address. -/
def newValue (type : CommandType) (old value : Float) : Float :=
  if type = .addVar then old + value else if type = .subVar then old - value else value

theorem executeRuleCommand_variable_iff {command : RuleCommand} {n : Nat}
    (haddress : command.address = n.toUInt32)
    (htype : command.type ∈ [CommandType.setVar, .addVar, .subVar]) (engine : Engine) :
    (executeRuleCommand command engine).2 =
        within 32 n (engine.setVars (setVariable n.toUInt32
          (newValue command.type (getVariable engine.vars n.toUInt32) (commandValue command.data))
          engine.vars)) engine ↔
      n < 2 ^ 32 ∨ engine.vars[n.toUInt32]? = some
        (newValue command.type (getVariable engine.vars n.toUInt32)
          (commandValue command.data)) := by
  have hengine : (executeRuleCommand command engine).2 = engine.setVars (setVariable n.toUInt32
      (newValue command.type (getVariable engine.vars n.toUInt32) (commandValue command.data))
      engine.vars) := by
    simp only [List.mem_cons, List.not_mem_nil, or_false] at htype
    unfold executeRuleCommand newValue
    rcases htype with h | h | h <;> rw [h, haddress] <;> rfl
  rw [hengine, eq_within_iff, ← insert_eq_self_iff]
  refine or_congr_right ⟨fun h => congrArg Engine.vars h, fun h => ?_⟩
  exact congrArg engine.setVars h

theorem setVariableByNumber_engine_iff {ds : Bytes} {n : Nat} (h : Numeral ds n) {gap rest : Bytes}
    (hgap : Blank gap) (hrest : Stops isDigit rest) {value : Float} {rest' : Bytes}
    (hvalue : extractDouble rest = some (value, rest')) (engine : Engine) :
    (setVariableByNumber (gap ++ (ds ++ rest)) engine).engine =
        within 32 n (engine.setVars (setVariable n.toUInt32 value engine.vars)) engine ↔
      n < 2 ^ 32 ∨ engine.vars[n.toUInt32]? = some value := by
  have hengine : (setVariableByNumber (gap ++ (ds ++ rest)) engine).engine =
      engine.setVars (setVariable n.toUInt32 value engine.vars) := by
    have hread : readVariable (gap ++ (ds ++ rest)) = some (n.toUInt32, value) := by
      simp only [readVariable, extractUnsigned_eq_some_iff.mpr (h.reads hgap hrest), hvalue,
        Option.bind_eq_bind, Option.bind_some, Option.pure_def]
    simp only [setVariableByNumber, hread]
  rw [hengine, eq_within_iff, ← insert_eq_self_iff]
  exact or_congr_right ⟨fun h => congrArg Engine.vars h, fun h => congrArg engine.setVars h⟩

/-! ## Conditions -/

/-- The value of the register, variable or relay with the number `n` and no other. -/
def readNumber (inputs : Inputs) (vars : Variables) (now : Nat) (type : ConditionInputType)
    (n : Nat) : Option Float :=
  match type with
  | .register =>
    within 16 n (inputs.lastValues[n.toUInt16]?.map
      (getScaledRegisterValue inputs.relays n.toUInt16)) none
  | .variable => some (within 32 n (getVariable vars n.toUInt32) 0.0)
  | .relay => within 16 n (inputs.lastValues[n.toUInt16]?.map doubleOfInt16) none
  | .time => some (Float.ofNat now)
  | .unknown => none

/-- The number fits, or there is nothing to read where it leads instead. -/
def Unaliased (inputs : Inputs) (vars : Variables) (n : Nat) : ConditionInputType → Prop
  | .register => n < 2 ^ 16 ∨ inputs.lastValues[n.toUInt16]? = none
  | .variable => n < 2 ^ 32 ∨ getVariable vars n.toUInt32 = 0.0
  | .relay => n < 2 ^ 16 ∨ inputs.lastValues[n.toUInt16]? = none
  | .time => True
  | .unknown => True

theorem getConditionInputValue_iff {condition : RuleCondition} {n : Nat}
    (haddress : condition.inputAddress = n.toUInt32) (inputs : Inputs) (vars : Variables)
    (now : Nat) :
    getConditionInputValue inputs vars now condition =
        readNumber inputs vars now condition.inputType n ↔
      Unaliased inputs vars n condition.inputType := by
  have hregister : n.toUInt32.toUInt16 = n.toUInt16 := UInt32.toUInt16_ofNat' n
  unfold getConditionInputValue readNumber
  rw [haddress, hregister]
  cases condition.inputType with
  | register | relay => simp only [Unaliased, eq_within_iff, Option.map_eq_none_iff]
  | _ => simp only [Unaliased, Option.some.injEq, eq_within_iff]

theorem getConditionValue_iff {condition : RuleCondition} {n : Nat}
    (haddress : condition.valueInputAddress = n.toUInt32)
    (htype : condition.valueInputType ≠ .unknown) (inputs : Inputs) (vars : Variables)
    (now : Nat) :
    getConditionValue inputs vars now condition =
        readNumber inputs vars now condition.valueInputType n ↔
      Unaliased inputs vars n condition.valueInputType := by
  rw [getConditionValue, if_neg htype]
  exact @getConditionInputValue_iff { inputType := condition.valueInputType
                                      inputAddress := condition.valueInputAddress } n haddress
    inputs vars now

/-! ## Members of rules -/

section

variable {ds : Bytes} {n : Nat} {isString : Bool} {c c₁ c' : Cursor}

theorem inputAddress_read (h : Numeral ds n)
    (hread : parseJsonValueAsString c = .ok (⟨ds, isString⟩, c₁)) {bound : Nat}
    {condition condition' : RuleCondition}
    (hmember : conditionMember bound (ascii "inputaddress") condition c = .ok (condition', c')) :
    condition'.inputAddress = n.toUInt32 := by
  rw [conditionMember, if_neg (by decide), if_pos rfl, h.parseUInt32_eq hread] at hmember
  cases hmember
  rfl

theorem valueAddress_read (h : Numeral ds n)
    (hread : parseJsonValueAsString c = .ok (⟨ds, isString⟩, c₁)) {bound : Nat}
    {condition condition' : RuleCondition}
    (hmember : conditionMember bound (ascii "valueaddress") condition c = .ok (condition', c')) :
    condition'.valueInputAddress = n.toUInt32 := by
  rw [conditionMember, if_neg (by decide), if_neg (by decide), if_neg (by decide),
    if_neg (by decide), if_pos rfl, h.parseUInt32_eq hread] at hmember
  cases hmember
  rfl

theorem address_read (h : Numeral ds n)
    (hread : parseJsonValueAsString c = .ok (⟨ds, isString⟩, c₁)) {bound : Nat}
    {command command' : RuleCommand}
    (hmember : commandMember bound (ascii "address") command c = .ok (command', c')) :
    command'.address = n.toUInt32 := by
  rw [commandMember, if_neg (by decide), if_neg (by decide), if_pos rfl,
    h.parseUInt32_eq hread] at hmember
  cases hmember
  rfl

theorem data_read (hread : parseJsonValueAsString c = .ok (⟨ds, isString⟩, c₁)) {bound : Nat}
    {command command' : RuleCommand}
    (hmember : commandMember bound (ascii "data") command c = .ok (command', c')) :
    command'.data = ds := by
  rw [commandMember, if_neg (by decide), if_pos rfl, hread] at hmember
  cases hmember
  rfl

theorem id_read (h : Numeral ds n)
    (hread : parseJsonValueAsString c = .ok (⟨ds, isString⟩, c₁)) {bound : Nat}
    {rule rule' : Rule}
    (hmember : ruleMember bound (ascii "id") rule c = .ok (rule', c')) :
    rule'.id = n.toUInt32 := by
  rw [ruleMember, if_pos rfl, h.parseUInt32_eq hread] at hmember
  cases hmember
  rfl

end

theorem toNat_toUInt32_iff {n : Nat} : n.toUInt32.toNat = n ↔ n < 2 ^ 32 := by
  rw [Nat.toUInt32, UInt32.toNat_ofNat']
  exact Nat.mod_eq_iff_lt (by decide)

/-! ## All numbers -/

/-- Each number below `2 ^ 64` acts on what has this number and on nothing else, in the
commands of clients and in the members of rules, exactly when it fits or when nothing is
found, switched or changed where it leads instead.  For an `id` that is the member as it is
read; `parseRulesArray` gives a rule with the id 0 the next free one afterwards. -/
theorem numbers_exact_iff {ds : Bytes} {n : Nat} (h : Numeral ds n) :
    (∀ (env : Environment) (engine : Engine) (command token gap rest : Bytes), Blank gap →
      Stops isDigit rest → command.getLast? ≠ some newline →
      FirstWord command token (gap ++ (ds ++ rest)) →
        (∀ enabled, token = (if enabled then ascii "ENABLERULE" else ascii "DISABLERULE") →
          ((handleHttpReqCommand env true command engine).map Handled.outcome =
              .ok (onRule n (switched env enabled) engine) ↔
            n < 2 ^ 32 ∨ NoneSwitched enabled n.toUInt32 engine)) ∧
        (token = ascii "EXECUTERULE" →
          ((handleHttpReqCommand env true command engine).map Handled.outcome =
              .ok (onRule n (executed env) engine) ↔
            n < 2 ^ 32 ∨ engine.store.rules.find? (·.id = n.toUInt32) = none)) ∧
        (token = ascii "SETVAR" → ∀ value rest', extractDouble rest = some (value, rest') →
          ((handleHttpReqCommand env true command engine).map Handled.engine =
              .ok (within 32 n (engine.setVars (setVariable n.toUInt32 value engine.vars))
                engine) ↔
            n < 2 ^ 32 ∨ engine.vars[n.toUInt32]? = some value))) ∧
    ∀ (isString : Bool) (c c₁ c' : Cursor) (bound : Nat),
      parseJsonValueAsString c = .ok (⟨ds, isString⟩, c₁) →
        (∀ condition condition',
          conditionMember bound (ascii "inputaddress") condition c = .ok (condition', c') →
          ∀ inputs vars now,
            (getConditionInputValue inputs vars now condition' =
                readNumber inputs vars now condition'.inputType n ↔
              Unaliased inputs vars n condition'.inputType)) ∧
        (∀ condition condition',
          conditionMember bound (ascii "valueaddress") condition c = .ok (condition', c') →
          condition'.valueInputType ≠ .unknown → ∀ inputs vars now,
            (getConditionValue inputs vars now condition' =
                readNumber inputs vars now condition'.valueInputType n ↔
              Unaliased inputs vars n condition'.valueInputType)) ∧
        (∀ command command',
          commandMember bound (ascii "address") command c = .ok (command', c') →
          command'.type ∈ [CommandType.setVar, .addVar, .subVar] → ∀ engine,
            ((executeRuleCommand command' engine).2 =
                within 32 n (engine.setVars (setVariable n.toUInt32
                  (newValue command'.type (getVariable engine.vars n.toUInt32)
                    (commandValue command'.data)) engine.vars)) engine ↔
              n < 2 ^ 32 ∨ engine.vars[n.toUInt32]? = some
                (newValue command'.type (getVariable engine.vars n.toUInt32)
                  (commandValue command'.data)))) ∧
        (∀ command command',
          commandMember bound (ascii "data") command c = .ok (command', c') →
          ∀ enabled, command'.type = (if enabled then .enable else .disable) → ∀ engine,
            (executeRuleCommand command' engine = onRuleData n enabled command' engine ↔
              n < 2 ^ 32 ∨ n.toUInt32 = 0 ∨ NoneSwitched enabled n.toUInt32 engine)) ∧
        ∀ rule rule', ruleMember bound (ascii "id") rule c = .ok (rule', c') →
          (rule'.id.toNat = n ↔ n < 2 ^ 32) := by
  constructor
  · intro env engine command token gap rest hgap hrest hlast hcommand
    have hdispatch : ∀ {handled : Handled}, token ∈ serverTokens →
        dispatch env token (gap ++ (ds ++ rest)) engine = .ok handled →
        handleHttpReqCommand env true command engine = .ok handled := by
      intro handled htoken hhandled
      rw [handleHttpReqCommand_dispatch hcommand hlast htoken, hhandled]
    refine ⟨?_, ?_, ?_⟩
    · intro enabled htoken
      have hhandled : handleHttpReqCommand env true command engine =
          .ok (switchRuleByNumber env enabled (gap ++ (ds ++ rest)) engine) := by
        cases enabled with
        | true =>
          cases htoken
          exact hdispatch (by decide) rfl
        | false =>
          cases htoken
          exact hdispatch (by decide) rfl
      rw [hhandled, ok_map, Except.ok.injEq, switchRuleByNumber_outcome h hgap hrest, onRule_iff,
        switched_untouched_iff]
    · rintro rfl
      rw [hdispatch (by decide) rfl, ok_map, Except.ok.injEq,
        executeRuleByNumber_outcome h hgap hrest, onRule_iff, executed_untouched_iff]
    · rintro rfl value rest' hvalue
      rw [hdispatch (by decide) rfl, ok_map, Except.ok.injEq,
        setVariableByNumber_engine_iff h hgap hrest hvalue]
  · intro isString c c₁ c' bound hread
    refine ⟨?_, ?_, ?_, ?_, ?_⟩
    · intro condition condition' hmember
      exact getConditionInputValue_iff (inputAddress_read h hread hmember)
    · intro condition condition' hmember htype
      exact getConditionValue_iff (valueAddress_read h hread hmember) htype
    · intro command command' hmember htype
      exact executeRuleCommand_variable_iff (address_read h hread hmember) htype
    · intro command command' hmember enabled htype engine
      have hnumeral : Numeral command'.data n := by
        rw [data_read hread hmember]
        exact h
      have hexecute : executeRuleCommand command' engine =
          switchByCommand enabled command' engine := by
        cases enabled <;> simp only [executeRuleCommand, htype] <;> rfl
      rw [hexecute, switchByCommand_iff hnumeral]
    · intro rule rule' hmember
      rw [id_read h hread hmember]
      exact toNat_toUInt32_iff

def oneRule (id : UInt32) : Engine := { store := { rules := [{ id := id, enabled := false }] } }

/-- Rule 7 is enabled as rule 7. -/
theorem rule_seven_enabled :
    (handleHttpReqCommand {} true (ascii "ENABLERULE 7") (oneRule 7)).map Handled.outcome =
      .ok (onRule 7 (switched {} true) (oneRule 7)) := by
  have hnumeral : Numeral (ascii "7") 7 := ⟨by decide, by decide, by decide, by decide⟩
  have hcommand : FirstWord (ascii "ENABLERULE 7") (ascii "ENABLERULE")
      (ascii " " ++ (ascii "7" ++ [])) := nextWord_eq_some_iff.mp rfl
  exact (((numbers_exact_iff hnumeral).1 {} (oneRule 7) _ _ (ascii " ") [] (by decide) (stops_nil _)
    (by decide) hcommand).1 true rfl).mpr (Or.inl (by decide))

/-- The number `2 ^ 32 + 1` enables rule 1. -/
theorem rule_one_enabled :
    (handleHttpReqCommand {} true (ascii "ENABLERULE 4294967297") (oneRule 1)).map Handled.outcome ≠
      .ok (onRule 4294967297 (switched {} true) (oneRule 1)) := by
  intro h
  have hcode : ((handleHttpReqCommand {} true (ascii "ENABLERULE 4294967297") (oneRule 1)).map
      Handled.outcome).map Prod.fst = .ok true := rfl
  have hexact : (Except.ok (onRule 4294967297 (switched {} true) (oneRule 1)) :
      Except Failure RuleOutcome).map Prod.fst = .ok false := rfl
  rw [h, hexact] at hcode
  cases hcode

end InverterMonitor.Http
