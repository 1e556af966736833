import InverterMonitor.Format.JsonScanner
import InverterMonitor.Server.RegisterFile
import InverterMonitor.Server.Requests
import InverterMonitor.Server.RulesRoundTrip

/-!
# Published JSON

The rule list that the dashboard fetches, the rule file and the register file.

* `rulesToJson_isJson_iff`: the list is JSON exactly when the escaper knows all control
  bytes of its texts;
* `rulesFileText_isJson_iff`: the file needs besides that every command has a member
  behind its type and that data without quotes is a number;
* `published_json_iff`: so for all rules that are loaded, and for the registers.
-/

namespace InverterMonitor.Http
open Text Cxx Json Registers Rules Monitor JsonGrammar

/-! ## Texts of rules -/

/-- The text of a constant is printed only where no input is compared with. -/
def ConditionClean (condition : RuleCondition) : Prop :=
  condition.valueInputType = .unknown → condition.valueIsString = true →
    Clean condition.valueString

structure RuleClean (rule : Rule) : Prop where
  name : Clean rule.name
  conditions : ∀ condition ∈ rule.conditions, ConditionClean condition
  data : ∀ command ∈ rule.commands, Clean command.data

theorem clean_unescaped {s : Bytes} (h : Unescaped s) : Clean s :=
  clean_of_all fun b hb => (h b hb).1

theorem clean_inputType (t : ConditionInputType) : Clean t.text := by
  apply clean_unescaped
  unfold Unescaped
  cases t <;> decide +kernel

theorem clean_operator (t : ConditionOperator) : Clean t.text := by
  apply clean_unescaped
  unfold Unescaped
  cases t <;> decide +kernel

theorem clean_commandType (t : CommandType) : Clean t.text := by
  apply clean_unescaped
  unfold Unescaped
  cases t <;> decide +kernel

/-- The keys of the members. -/
theorem unescaped_keys : ∀ key ∈ ["inputType", "inputAddress", "operator", "valueType",
    "valueAddress", "value", "type", "data", "address", "id", "enabled", "name", "conditions",
    "commands"], Unescaped (ascii key) := by
  unfold Unescaped
  decide +kernel

theorem derives_bool (b : Bool) :
    Derives .value (if b then ascii "true" else ascii "false") := by
  cases b
  · exact .literal (Or.inr (Or.inr rfl))
  · exact .literal (Or.inr (Or.inl rfl))

theorem derives_quoted {s : Bytes} (h : Clean s) :
    Derives .value (('"' : Byte) :: (jsonEscape s ++ ascii "\"")) := .string (isString_quoted h)

/-- The constant of a condition. -/
theorem derives_constant {condition : RuleCondition} (h : ConditionClean condition)
    (hfinite : FiniteConstant condition) (hunknown : condition.valueInputType = .unknown) :
    Derives .value (if condition.valueIsString then
      ('"' : Byte) :: (jsonEscape condition.valueString ++ ascii "\"")
      else formatGeneral 6 condition.valueNumber) := by
  cases hstring : condition.valueIsString
  · exact .number (isNumber_formatGeneral 6 (hfinite hstring))
  · exact derives_quoted (h hunknown hstring)

/-! ## Members of rules -/

theorem isWs_spaces (n : Nat) : IsWs (spaces n) :=
  fun _ hb => Or.inl (List.eq_of_mem_replicate hb)

theorem derives_memberText {key : String} (hkey : Unescaped (ascii key)) {value : Bytes}
    (h : Derives .value value) (n : Nat) : Derives .members (memberText n key value) :=
  (derives_member hkey h).ws_left (isWs_spaces n) Shape.noConfusion

/-- A member of the fetched list is one of the file without its blanks. -/
theorem jsonMember_eq : jsonMember = memberText 0 := by
  funext key value
  have hclose : ascii "\":" = [('"' : Byte), (':' : Byte)] := rfl
  simp [jsonMember, memberText, spaces, hclose]

section Members
variable (n : Nat)

theorem derives_inputType (condition : RuleCondition) :
    Derives .members (memberText n "inputType" (quotedText condition.inputType.text)) :=
  derives_memberText (unescaped_keys _ (by decide)) (derives_quoted (clean_inputType _)) n

theorem derives_inputAddress (condition : RuleCondition) :
    Derives .members (memberText n "inputAddress" (decimal condition.inputAddress.toNat)) :=
  derives_memberText (unescaped_keys _ (by decide)) (.number (isNumber_decimal _)) n

theorem derives_operator (condition : RuleCondition) :
    Derives .members (memberText n "operator" (quotedText condition.op.text)) :=
  derives_memberText (unescaped_keys _ (by decide)) (derives_quoted (clean_operator _)) n

theorem derives_valueType (condition : RuleCondition) :
    Derives .members (memberText n "valueType" (quotedText condition.valueInputType.text)) :=
  derives_memberText (unescaped_keys _ (by decide)) (derives_quoted (clean_inputType _)) n

theorem derives_valueAddress (condition : RuleCondition) :
    Derives .members (memberText n "valueAddress" (decimal condition.valueInputAddress.toNat)) :=
  derives_memberText (unescaped_keys _ (by decide)) (.number (isNumber_decimal _)) n

theorem derives_value {condition : RuleCondition} (h : ConditionClean condition)
    (hfinite : FiniteConstant condition) (hunknown : condition.valueInputType = .unknown) :
    Derives .members (memberText n "value" (if condition.valueIsString then
      quotedText condition.valueString else formatGeneral 6 condition.valueNumber)) :=
  derives_memberText (unescaped_keys _ (by decide)) (derives_constant h hfinite hunknown) n

theorem derives_type (command : RuleCommand) :
    Derives .members (memberText n "type" (quotedText command.type.text)) :=
  derives_memberText (unescaped_keys _ (by decide)) (derives_quoted (clean_commandType _)) n

theorem derives_address (command : RuleCommand) :
    Derives .members (memberText n "address" (decimal command.address.toNat)) :=
  derives_memberText (unescaped_keys _ (by decide)) (.number (isNumber_decimal _)) n

theorem derives_id (rule : Rule) :
    Derives .members (memberText n "id" (decimal rule.id.toNat)) :=
  derives_memberText (unescaped_keys _ (by decide)) (.number (isNumber_decimal _)) n

theorem derives_enabled (rule : Rule) : Derives .members
    (memberText n "enabled" (if rule.enabled then ascii "true" else ascii "false")) :=
  derives_memberText (unescaped_keys _ (by decide)) (derives_bool _) n

theorem derives_name {rule : Rule} (h : RuleClean rule) :
    Derives .members (memberText n "name" (quotedText rule.name)) :=
  derives_memberText (unescaped_keys _ (by decide)) (derives_quoted h.name) n

variable {value : Bytes}

theorem derives_dataMember (h : Derives .value value) :
    Derives .members (memberText n "data" value) :=
  derives_memberText (unescaped_keys _ (by decide)) h n

theorem derives_conditions (h : Derives .value value) :
    Derives .members (memberText n "conditions" value) :=
  derives_memberText (unescaped_keys _ (by decide)) h n

theorem derives_commands (h : Derives .value value) :
    Derives .members (memberText n "commands" value) :=
  derives_memberText (unescaped_keys _ (by decide)) h n

end Members

/-! ## The fetched list -/

theorem derives_conditionToJson {condition : RuleCondition} (h : ConditionClean condition)
    (hfinite : FiniteConstant condition) : Derives .value (conditionToJson condition) := by
  have hrest : Derives .members (if condition.valueInputType ≠ .unknown then
      memberText 0 "valueType" (quotedText condition.valueInputType.text) ++ ascii "," ++
      memberText 0 "valueAddress" (decimal condition.valueInputAddress.toNat)
    else
      memberText 0 "value" (if condition.valueIsString then quotedText condition.valueString
        else formatGeneral 6 condition.valueNumber)) := by
    split
    · rw [List.append_assoc]
      exact (derives_valueType 0 condition).comma (derives_valueAddress 0 condition)
        Shape.noConfusion
    · next hunknown => exact derives_value 0 h hfinite (not_not.mp hunknown)
  have hclosed : ClosedBy .members (ascii "\x7d") _ :=
    .cons (derives_inputType 0 condition) (.cons (derives_inputAddress 0 condition)
      (.cons (derives_operator 0 condition) (.intro hrest) Shape.noConfusion)
      Shape.noConfusion) Shape.noConfusion
  rw [conditionToJson, jsonMember_eq]
  simp only [List.append_assoc] at hclosed ⊢
  exact hclosed.object

theorem derives_commandToJson {command : RuleCommand} (h : Clean command.data) :
    Derives .value (commandToJson command) := by
  have htype := derives_type 0 command
  have hdata := derives_dataMember 0 (derives_quoted h)
  have haddress := derives_address 0 command
  have hclosed : ClosedBy .members (ascii "\x7d")
      (memberText 0 "type" (quotedText command.type.text) ++
        ((if command.data = [] then [] else
          ascii "," ++ memberText 0 "data" (quotedText command.data)) ++
        ((if 0 < command.address then
          ascii "," ++ memberText 0 "address" (decimal command.address.toNat) else []) ++
        ascii "\x7d"))) := by
    split <;> split
    · exact .cons htype (.intro haddress) Shape.noConfusion
    · exact .intro htype
    · have hrest : ClosedBy .members (ascii "\x7d") _ :=
        .cons htype (.cons hdata (.intro haddress) Shape.noConfusion) Shape.noConfusion
      simp only [List.append_assoc]
      exact hrest
    · have hrest : ClosedBy .members (ascii "\x7d") _ :=
        .cons htype (.intro hdata) Shape.noConfusion
      simp only [List.append_assoc]
      exact hrest
  rw [commandToJson, jsonMember_eq]
  simp only [List.append_assoc] at hclosed ⊢
  exact hclosed.object

theorem derives_jsonList {α : Type} {item : α → Bytes} {items : List α}
    (h : ∀ x ∈ items, Derives .value (item x)) : Derives .value (jsonList item items) := by
  have hvalues : ∀ v ∈ items.map item, Derives .value v := by
    intro v hv
    obtain ⟨x, hx, rfl⟩ := List.mem_map.mp hv
    exact h x hx
  unfold jsonList
  rw [List.append_assoc]
  exact array_intercalate hvalues

theorem derives_ruleToJson {rule : Rule} (h : RuleClean rule)
    (hfinite : ∀ condition ∈ rule.conditions, FiniteConstant condition) :
    Derives .value (ruleToJson rule) := by
  have hconditions := derives_conditions 0 (derives_jsonList fun condition hmem =>
    derives_conditionToJson (h.conditions condition hmem) (hfinite condition hmem))
  have hcommands := derives_commands 0 (derives_jsonList fun command hmem =>
    derives_commandToJson (h.data command hmem))
  have hclosed : ClosedBy .members (ascii "\x7d") _ :=
    .cons (derives_id 0 rule) (.cons (derives_enabled 0 rule) (.cons (derives_name 0 h)
      (.cons hconditions (.intro hcommands) Shape.noConfusion) Shape.noConfusion)
      Shape.noConfusion) Shape.noConfusion
  rw [ruleToJson, jsonMember_eq]
  simp only [List.append_assoc] at hclosed ⊢
  exact hclosed.object

theorem isJson_value {s : Bytes} (h : Derives .value s) : IsJson s := by
  have hjson := IsJson.intro isWs_nil h isWs_nil
  rwa [List.nil_append, List.append_nil] at hjson

theorem plain_jsonMember {key : String} {value : Bytes} (h : Plain (jsonMember key value)) :
    Plain value := by
  simp only [jsonMember, plain_cons (show (32 : Byte) ≤ '"' by decide), plain_append] at h
  exact h.2

theorem clean_jsonText {s : Bytes} (h : Plain (jsonText s)) : Clean s := by
  simp only [jsonText, plain_cons (show (32 : Byte) ≤ '"' by decide), plain_append] at h
  exact plain_jsonEscape_iff.mp h.1

theorem plain_jsonList {α : Type} {item : α → Bytes} {items : List α}
    (h : Plain (jsonList item items)) {x : α} (hx : x ∈ items) : Plain (item x) := by
  simp only [jsonList, plain_append] at h
  exact plain_of_mem_intercalate h.1.2 (List.mem_map_of_mem hx)

theorem conditionClean_of_plain {condition : RuleCondition}
    (h : Plain (conditionToJson condition)) : ConditionClean condition := by
  intro hunknown hstring
  simp only [conditionToJson, hunknown, hstring, plain_append, ne_eq, not_true_eq_false,
    ↓reduceIte] at h
  exact clean_jsonText (plain_jsonMember h.1.2)

theorem clean_data_of_plain {command : RuleCommand} (h : Plain (commandToJson command)) :
    Clean command.data := by
  by_cases hdata : command.data = []
  · rw [hdata]
    exact clean_of_all (by simp)
  · simp only [commandToJson, if_neg hdata, plain_append] at h
    exact clean_jsonText (plain_jsonMember h.1.1.2.2)

theorem ruleClean_of_plain {rule : Rule} (h : Plain (ruleToJson rule)) : RuleClean rule := by
  simp only [ruleToJson, plain_append] at h
  obtain ⟨⟨⟨⟨⟨⟨-, hname⟩, -⟩, hconditions⟩, -⟩, hcommands⟩, -⟩ := h
  exact ⟨clean_jsonText (plain_jsonMember hname), fun condition hmem =>
    conditionClean_of_plain (plain_jsonList (plain_jsonMember hconditions) hmem), fun command hmem =>
    clean_data_of_plain (plain_jsonList (plain_jsonMember hcommands) hmem)⟩

theorem rulesToJson_isJson_iff {rules : List Rule}
    (hfinite : ∀ rule ∈ rules, ∀ condition ∈ rule.conditions, FiniteConstant condition) :
    IsJson (rulesToJson rules) ↔ ∀ rule ∈ rules, RuleClean rule := by
  constructor
  · exact fun h rule hmem => ruleClean_of_plain (plain_jsonList h.plain hmem)
  · exact fun h => isJson_value (derives_jsonList fun rule hmem =>
      derives_ruleToJson (h rule hmem) (hfinite rule hmem))

/-! ## The rule file -/

/-- What `saveRules` prints of a command is a member more than its type, and a number where it
is not quoted. -/
structure CommandWritten (command : RuleCommand) : Prop where
  member : command.data = [] → command.address ≠ 0
  number : command.data ≠ [] → isBare command = true → IsNumber command.data

theorem isWs_lineBreak : IsWs (ascii "\n") := by
  unfold IsWs
  decide +kernel

/-- A member on a line that is not the last one. -/
theorem closedBy_line {s t close : Bytes} (h : Derives .members s)
    (ht : ClosedBy .members close t) : ClosedBy .members close (s ++ (ascii ",\n" ++ t)) :=
  ClosedBy.cons h (ht.ws_left isWs_lineBreak Shape.noConfusion) Shape.noConfusion

/-- The last member, on its line, and the end of the object on the next one. -/
theorem closedBy_last {s : Bytes} (h : Derives .members s) (n : Nat) :
    ClosedBy .members (ascii "\x7d") (s ++ (ascii "\n" ++ (spaces n ++ ascii "\x7d"))) := by
  have hclosed : ClosedBy .members (ascii "\x7d") _ :=
    .intro (h.ws_right (isWs_lineBreak.append (isWs_spaces n)) Shape.noConfusion)
  simpa only [List.append_assoc] using hclosed

theorem object_lines {s : Bytes} (h : ClosedBy .members (ascii "\x7d") s) (n : Nat) :
    Derives .items (spaces n ++ (ascii "\x7b\n" ++ s)) :=
  (h.ws_left isWs_lineBreak Shape.noConfusion).object.lone_item.ws_left (isWs_spaces n)
    Shape.noConfusion

theorem derives_saveCondition {condition : RuleCondition} (h : ConditionClean condition)
    (hfinite : FiniteConstant condition) : Derives .items (saveCondition condition) := by
  have hrest : ClosedBy .members (ascii "\x7d")
      (saveConditionValue condition ++ (spaces 6 ++ ascii "\x7d")) := by
    unfold saveConditionValue
    split
    · have hlines := closedBy_line (derives_valueType 8 condition)
        (closedBy_last (derives_valueAddress 8 condition) 6)
      simp only [List.append_assoc]
      exact hlines
    · next hunknown =>
      have hlines := closedBy_last (derives_value 8 h hfinite (not_not.mp hunknown)) 6
      rw [List.append_assoc]
      exact hlines
  have hlines := object_lines (closedBy_line (derives_inputType 8 condition)
    (closedBy_line (derives_inputAddress 8 condition)
    (closedBy_line (derives_operator 8 condition) hrest))) 6
  unfold saveCondition
  simp only [List.append_assoc] at hlines ⊢
  exact hlines

/-- The data as it is printed. -/
theorem derives_data {command : RuleCommand} (h : CommandWritten command)
    (hclean : Clean command.data) (hdata : command.data ≠ []) :
    Derives .value (if isBare command then command.data else quotedText command.data) := by
  split
  · next hbare => exact .number (h.number hdata hbare)
  · exact derives_quoted hclean

theorem derives_saveCommand {command : RuleCommand} (h : CommandWritten command)
    (hclean : Clean command.data) : Derives .items (saveCommand command) := by
  have hrest : ClosedBy .members (ascii "\x7d") (saveCommandData command ++
      ((if 0 < command.address then
        memberText 8 "address" (decimal command.address.toNat) ++ ascii "\n" else []) ++
      (spaces 6 ++ ascii "\x7d"))) := by
    have hlast := closedBy_last (derives_address 8 command) 6
    unfold saveCommandData
    split
    · next hdata =>
      have hpositive := UInt32.pos_iff_ne_zero.mpr (h.member hdata)
      rw [if_pos hpositive, List.nil_append, List.append_assoc]
      exact hlast
    · next hdata =>
      have hvalue := derives_dataMember 8 (derives_data h hclean hdata)
      by_cases haddr : 0 < command.address
      · have hlines := closedBy_line hvalue hlast
        simp only [if_pos haddr, List.append_assoc]
        exact hlines
      · have hlines := closedBy_last hvalue 6
        simp only [if_neg haddr, List.append_assoc, List.nil_append]
        exact hlines
  have hlines := object_lines (closedBy_line (derives_type 8 command) hrest) 6
  unfold saveCommand
  simp only [List.append_assoc] at hlines ⊢
  exact hlines

theorem separated_eq {α : Type} (item : α → Bytes) {xs : List α} (hne : xs ≠ []) :
    separated item xs = (ascii ",\n").intercalate (xs.map item) ++ ascii "\n" := by
  induction xs with
  | nil => exact absurd rfl hne
  | cons x xs ih =>
    cases xs with
    | nil => rw [separated, List.map_singleton, List.intercalate_singleton]
    | cons y xs =>
      rw [separated, ih (List.cons_ne_nil y xs)]
      simp only [List.map_cons, List.intercalate_cons_cons, List.append_assoc]

theorem derives_list {α : Type} {item : α → Bytes} {xs : List α}
    (h : ∀ x ∈ xs, Derives .items (item x)) (n : Nat) :
    Derives .value (ascii "[\n" ++ (separated item xs ++ (spaces n ++ ascii "]"))) := by
  have hitems : ∀ v ∈ xs.map item, Derives .items v := by
    intro v hv
    obtain ⟨x, hx, rfl⟩ := List.mem_map.mp hv
    exact h x hx
  by_cases hne : xs = []
  · rw [hne]
    exact .emptyArray (isWs_lineBreak.append (isWs_spaces n))
  · have hlist := items_intercalate hitems (by simpa using hne) isWs_lineBreak
    have hlines := Derives.array ((hlist.ws_right
      (isWs_lineBreak.append (isWs_spaces n)) Shape.noConfusion).ws_left isWs_lineBreak
        Shape.noConfusion)
    rw [separated_eq item hne]
    simp only [List.append_assoc] at hlines ⊢
    exact hlines

/-- A rule of the file. -/
structure RuleWritten (rule : Rule) : Prop where
  clean : RuleClean rule
  commands : ∀ command ∈ rule.commands, CommandWritten command

theorem derives_savedConditions {rule : Rule} (h : RuleClean rule)
    (hfinite : ∀ condition ∈ rule.conditions, FiniteConstant condition) :
    Derives .members (memberText 4 "conditions" (ascii "[\n" ++
      (separated saveCondition rule.conditions ++ (spaces 4 ++ ascii "]")))) :=
  derives_conditions 4 (derives_list (fun condition hmem =>
    derives_saveCondition (h.conditions condition hmem) (hfinite condition hmem)) 4)

theorem derives_saveRule {rule : Rule} (h : RuleWritten rule)
    (hfinite : ∀ condition ∈ rule.conditions, FiniteConstant condition) :
    Derives .items (saveRule rule) := by
  have hcommands := derives_commands 4 (derives_list (fun command hmem =>
    derives_saveCommand (h.commands command hmem) (h.clean.data command hmem)) 4)
  have hlines := object_lines (closedBy_line (derives_id 4 rule)
    (closedBy_line (derives_enabled 4 rule) (closedBy_line (derives_name 4 h.clean)
    (closedBy_line (derives_savedConditions h.clean hfinite) (closedBy_last hcommands 2))))) 2
  unfold saveRule
  simp only [List.append_assoc] at hlines ⊢
  exact hlines

theorem isJson_rulesFileText {rules : List Rule} (h : ∀ rule ∈ rules, RuleWritten rule)
    (hfinite : ∀ rule ∈ rules, ∀ condition ∈ rule.conditions, FiniteConstant condition) :
    IsJson (rulesFileText rules) := by
  have hlist := derives_list (fun rule hmem => derives_saveRule (h rule hmem) (hfinite rule hmem)) 0
  have hjson := IsJson.intro isWs_nil hlist isWs_lineBreak
  unfold rulesFileText
  simp only [List.append_assoc] at hjson ⊢
  exact hjson

/-! ## What the automaton passes -/

variable {st : State}

/-- Behind an item and its comma comes another one. -/
theorem run_line {p : Shape} {s : Bytes} (h : Derives p s) (hst : Ready st) (t : Bytes) :
    run st (s ++ (ascii ",\n" ++ t)) = run .comma t := by
  obtain ⟨st₁, hrun, hended⟩ := h.run_eq st hst
  have hcomma : ascii ",\n" ++ t = (',' : Byte) :: ('\n' : Byte) :: t := rfl
  rw [run_append_some hrun, hcomma, run_comma hended]
  exact run_cons_some rfl t

/-- The lines up to the value of a member. -/
theorem run_memberText {key : String} (hkey : Unescaped (ascii key)) (n : Nat) (value t : Bytes)
    (hst : Ready st) : run st (memberText n key value ++ t) = run .outside (value ++ t) := by
  have hname := run_name (isWs_spaces n) (.intro (isChars_unescaped hkey)) isWs_nil isWs_nil hst
    (value ++ t)
  simp only [List.nil_append, List.append_assoc, List.cons_append] at hname
  simp only [memberText, List.append_assoc, List.cons_append]
  exact hname

/-- The lines in front of the members of an object. -/
theorem run_brace (n : Nat) (t : Bytes) (hst : Ready st) :
    run st (spaces n ++ (ascii "\x7b\n" ++ t)) = run .outside t := by
  have hbrace : ascii "\x7b\n" ++ t = ('{' : Byte) :: ('\n' : Byte) :: t := rfl
  rw [run_append_some (run_ws (isWs_spaces n) hst), hbrace, run_open hst (Or.inr rfl)]
  exact run_cons_some rfl t

theorem run_bracket (t : Bytes) (hst : Ready st) :
    run st (ascii "[\n" ++ t) = run .outside t := by
  have hbracket : ascii "[\n" ++ t = ('[' : Byte) :: ('\n' : Byte) :: t := rfl
  rw [hbracket, run_open hst (Or.inl rfl)]
  exact run_cons_some rfl t

theorem numeric_of_isBare {command : RuleCommand} (h : isBare command = true) :
    Numeric command.data := by
  simp only [isBare, numericData, Bool.and_eq_true, List.all_eq_true, Bool.or_eq_true,
    beq_iff_eq] at h
  intro b hb
  rcases h.2 b hb with ((hpoint | hminus) | hplus) | hdigit
  · exact Or.inr (Or.inl hpoint)
  · exact Or.inr (Or.inr (Or.inl hminus))
  · exact Or.inr (Or.inr (Or.inr hplus))
  · exact Or.inl hdigit

/-- A command behind the line of its type. -/
theorem run_saveCommand (command : RuleCommand) (t : Bytes) (hst : Ready st) :
    run st (saveCommand command ++ t) = run .comma (saveCommandData command ++
      ((if 0 < command.address then
        memberText 8 "address" (decimal command.address.toNat) ++ ascii "\n" else []) ++
      (spaces 6 ++ (ascii "\x7d" ++ t)))) := by
  have hoff : Ready .outside := Or.inl rfl
  unfold saveCommand
  simp only [List.append_assoc]
  rw [run_brace 6 _ hst]
  exact run_line (derives_type 8 command) hoff _

theorem commandWritten_of_run {command : RuleCommand} {t : Bytes} (hst : Ready st)
    (h : run st (saveCommand command ++ t) ≠ none) : CommandWritten command := by
  have hcomma : Ready .comma := Or.inr rfl
  obtain ⟨st', h⟩ := Option.ne_none_iff_exists'.mp h
  rw [run_saveCommand command t hst] at h
  refine ⟨fun hdata haddr => ?_, fun hdata hbare => ?_⟩
  · -- The comma behind the type is followed by the end of the object.
    have hzero : ¬0 < command.address := by rw [haddr]; decide
    rw [saveCommandData, if_pos hdata, if_neg hzero, List.nil_append, List.nil_append,
      run_append_some (run_ws (isWs_spaces 6) hcomma)] at h
    cases h
  · have hnumeric := numeric_of_isBare hbare
    rw [saveCommandData, if_neg hdata, if_pos hbare, List.append_assoc,
      run_memberText (unescaped_keys "data" (by decide)) 8 _ _ hcomma] at h
    by_cases haddr : 0 < command.address
    · rw [if_pos haddr] at h
      exact isNumber_of_run_append hnumeric hdata (Or.inl rfl) h
    · rw [if_neg haddr] at h
      exact isNumber_of_run_append hnumeric hdata (Or.inr rfl) h

/-- In a list that the automaton passes every item is one that it passes. -/
theorem forall_of_run_separated {α : Type} {item : α → Bytes} {Good : α → Prop} {xs : List α}
    {t : Bytes} (hgood : ∀ x ∈ xs, ∀ st t, Ready st → run st (item x ++ t) ≠ none → Good x)
    (hderives : ∀ x ∈ xs, Good x → Derives .items (item x)) (hst : Ready st)
    (h : run st (separated item xs ++ t) ≠ none) : ∀ x ∈ xs, Good x := by
  induction xs generalizing st with
  | nil => exact fun x hx => absurd hx List.not_mem_nil
  | cons x xs ih =>
    cases xs with
    | nil =>
      rw [separated, List.append_assoc] at h
      rw [List.forall_mem_singleton]
      exact hgood x (List.mem_cons_self ..) st _ hst h
    | cons y xs =>
      rw [separated, List.append_assoc, List.append_assoc] at h
      have hx := hgood x (List.mem_cons_self ..) st _ hst h
      rw [run_line (hderives x (List.mem_cons_self ..) hx) hst] at h
      refine List.forall_mem_cons.mpr ⟨hx, ih ?_ ?_ (Or.inr rfl) h⟩
      · exact fun z hz => hgood z (List.mem_cons_of_mem x hz)
      · exact fun z hz => hderives z (List.mem_cons_of_mem x hz)

/-- A rule behind the lines in front of its commands. -/
theorem run_saveRule {rule : Rule} (h : RuleClean rule)
    (hfinite : ∀ condition ∈ rule.conditions, FiniteConstant condition) (t : Bytes)
    (hst : Ready st) :
    run st (saveRule rule ++ t) = run .outside (separated saveCommand rule.commands ++
      (spaces 4 ++ (ascii "]" ++ (ascii "\n" ++ (spaces 2 ++ (ascii "\x7d" ++ t)))))) := by
  have hoff : Ready .outside := Or.inl rfl
  have hcomma : Ready .comma := Or.inr rfl
  have hlines := fun s => (run_line (derives_id 4 rule) hoff _).trans
    ((run_line (derives_enabled 4 rule) hcomma _).trans
    ((run_line (derives_name 4 h) hcomma _).trans
    (run_line (derives_savedConditions h hfinite) hcomma s)))
  unfold saveRule
  simp only [List.append_assoc]
  rw [run_brace 2 _ hst]
  refine (hlines _).trans ?_
  rw [run_memberText (unescaped_keys "commands" (by decide)) 4 _ _ hcomma, List.append_assoc,
    run_bracket _ hoff, List.append_assoc, List.append_assoc]

/-! ## The rule file again -/

theorem plain_separated {α : Type} {item : α → Bytes} {xs : List α} (h : Plain (separated item xs))
    {x : α} (hx : x ∈ xs) : Plain (item x) := by
  rw [separated_eq item (List.ne_nil_of_mem hx), plain_append] at h
  exact plain_of_mem_intercalate h.1 (List.mem_map_of_mem hx)

theorem plain_memberText {key : String} {n : Nat} {value : Bytes}
    (h : Plain (memberText n key value)) : Plain value := by
  simp only [memberText, plain_append, plain_cons (show (32 : Byte) ≤ '"' by decide),
    plain_cons (show (32 : Byte) ≤ ':' by decide)] at h
  exact h.2.2

theorem clean_of_numeric {s : Bytes} (h : Numeric s) : Clean s := by
  intro b hb
  rcases h b hb with hdigit | rfl | rfl | rfl
  · simp only [isDigit, Bool.and_eq_true, decide_eq_true_eq] at hdigit
    exact Or.inl (UInt8.le_trans (by decide) hdigit.1)
  all_goals exact Or.inl (by decide)

theorem conditionClean_of_saved {condition : RuleCondition}
    (h : Plain (saveCondition condition)) : ConditionClean condition := by
  intro hunknown hstring
  simp only [saveCondition, saveConditionValue, hunknown, hstring, plain_append, ne_eq,
    not_true_eq_false, ↓reduceIte] at h
  exact clean_jsonText (plain_memberText h.1.1.2.1)

theorem clean_data_of_saved {command : RuleCommand} (h : Plain (saveCommand command)) :
    Clean command.data := by
  by_cases hdata : command.data = []
  · rw [hdata]
    exact clean_of_all (by simp)
  · by_cases hbare : isBare command = true
    · exact clean_of_numeric (numeric_of_isBare hbare)
    · simp only [saveCommand, saveCommandData, if_neg hdata, if_neg hbare, plain_append] at h
      exact clean_jsonText (plain_memberText h.1.1.1.2.1)

theorem ruleClean_of_saved {rule : Rule} (h : Plain (saveRule rule)) : RuleClean rule := by
  simp only [saveRule, plain_append] at h
  obtain ⟨⟨⟨⟨⟨⟨⟨⟨-, hname⟩, -⟩, hconditions⟩, -⟩, hcommands⟩, -⟩, -⟩, -⟩ := h
  have hconditions := plain_memberText hconditions
  have hcommands := plain_memberText hcommands
  simp only [plain_append] at hconditions hcommands
  exact ⟨clean_jsonText (plain_memberText hname), fun condition hmem =>
    conditionClean_of_saved (plain_separated hconditions.1.1.2 hmem), fun command hmem =>
    clean_data_of_saved (plain_separated hcommands.1.1.2 hmem)⟩

theorem commandsWritten_of_run {rule : Rule} {t : Bytes} (hclean : RuleClean rule)
    (hfinite : ∀ condition ∈ rule.conditions, FiniteConstant condition) (hst : Ready st)
    (h : run st (saveRule rule ++ t) ≠ none) :
    ∀ command ∈ rule.commands, CommandWritten command := by
  rw [run_saveRule hclean hfinite t hst] at h
  refine forall_of_run_separated (fun command _ st t hst h => commandWritten_of_run hst h) ?_
    (Or.inl rfl) h
  exact fun command hmem hwritten => derives_saveCommand hwritten (hclean.data command hmem)

theorem rulesFileText_isJson_iff {rules : List Rule}
    (hfinite : ∀ rule ∈ rules, ∀ condition ∈ rule.conditions, FiniteConstant condition) :
    IsJson (rulesFileText rules) ↔ ∀ rule ∈ rules, RuleWritten rule := by
  refine ⟨fun h => ?_, fun h => isJson_rulesFileText h hfinite⟩
  have hoff : Ready .outside := Or.inl rfl
  have hclean : ∀ rule ∈ rules, RuleClean rule := by
    have hplain := h.plain
    simp only [rulesFileText, plain_append] at hplain
    exact fun rule hmem => ruleClean_of_saved (plain_separated hplain.1.2 hmem)
  have hrun : run .outside (separated saveRule rules ++ ascii "]\n") ≠ none := by
    obtain ⟨st, hrun⟩ := h.run_isSome
    rw [rulesFileText, List.append_assoc, run_bracket _ hoff] at hrun
    simp [hrun]
  refine forall_of_run_separated (fun rule hmem st t hst h => ?_)
    (fun rule hmem hwritten => derives_saveRule hwritten (hfinite rule hmem)) hoff hrun
  exact ⟨hclean rule hmem, commandsWritten_of_run (hclean rule hmem) (hfinite rule hmem) hst h⟩

/-! ## Everything published -/

theorem loadRules_finite {file : Option Bytes} {store store' : RuleStore}
    (h : loadRules file store = .ok (true, store')) :
    ∀ rule ∈ store'.rules, ∀ condition ∈ rule.conditions, FiniteConstant condition := by
  cases file with
  | none =>
    cases h
    exact fun rule hmem => absurd hmem List.not_mem_nil
  | some content =>
    cases hparse : parseRulesArray content with
    | error failure => cases failure <;> simp [loadRules, hparse] at h
    | ok rules =>
      simp only [loadRules, hparse, Except.ok.injEq, Prod.mk.injEq, true_and] at h
      rw [← h]
      exact fun rule hmem => (parseRulesArray_readable hparse rule hmem).finite

theorem loadRules_parsed {content : Bytes} {rules : List Rule}
    (h : parseRulesArray content = .ok rules) (store : RuleStore) :
    loadRules (some content) store = .ok (true, loadedStore rules) := by
  simp only [loadRules, h]

/-- The fetched list, the rule file and the register file, after any load and any lines
from the devices. -/
theorem published_json_iff (lines : List Bytes) {file : Option Bytes} {store store' : RuleStore}
    (hload : loadRules file store = .ok (true, store')) :
    (IsJson (rulesToJson store'.rules) ↔ ∀ rule ∈ store'.rules, RuleClean rule) ∧
    (IsJson (rulesFileText store'.rules) ↔ ∀ rule ∈ store'.rules, RuleWritten rule) ∧
    (IsJson (registersFileText (handleLines lines {})) ↔
      ∀ (k : UInt8) (ip : Bytes), lastIp lines k = some ip → Clean ip) :=
  ⟨rulesToJson_isJson_iff (loadRules_finite hload), rulesFileText_isJson_iff (loadRules_finite hload),
    registersFileText_isJson_iff lines⟩

theorem pump_published :
    IsJson (rulesToJson [pumpRule "7"]) ∧ IsJson (rulesFileText [pumpRule "7"]) ∧
      IsJson (registersFileText (handleLines [ascii "R1 1 10.0.0.7"] {})) := by
  have hparse : parseRulesArray (pumpText "7") = .ok [pumpRule "7"] := by decide +kernel
  have hload : loadRules (some (pumpText "7")) {} = .ok (true, loadedStore [pumpRule "7"]) :=
    loadRules_parsed hparse {}
  have hreport : relayReport (ascii "R1 1 10.0.0.7") = some ⟨1, 1, ascii "10.0.0.7"⟩ := by
    decide +kernel
  have hclean : RuleClean (pumpRule "7") := by
    refine ⟨?_, ?_, ?_⟩
    · unfold Clean IsEscaped
      decide +kernel
    · rintro condition hmem - hstring
      rw [List.mem_singleton.mp hmem] at hstring
      cases hstring
    · unfold Clean IsEscaped
      decide +kernel
  have hwritten : RuleWritten (pumpRule "7") := by
    refine ⟨hclean, fun command hmem => ?_⟩
    rw [List.mem_singleton.mp hmem]
    refine ⟨fun hdata => absurd hdata (List.cons_ne_nil _ _), fun _ _ => ?_⟩
    have hnumeric : Numeric (ascii "7") := by
      unfold Numeric
      decide +kernel
    have hrun : run .outside (ascii "7") = some .whole := rfl
    exact isNumber_of_run hnumeric (List.cons_ne_nil _ _) hrun rfl
  obtain ⟨hlist, hfile, hregisters⟩ := published_json_iff [ascii "R1 1 10.0.0.7"] hload
  refine ⟨hlist.mpr (List.forall_mem_singleton.mpr hclean),
    hfile.mpr (List.forall_mem_singleton.mpr hwritten), hregisters.mpr fun k ip hlast => ?_⟩
  have hlast' := lastIp_reported [] hreport k
  rw [List.nil_append, hlast] at hlast'
  split at hlast'
  · cases hlast'
    unfold Clean IsEscaped
    decide +kernel
  · cases hlast'

/-- A command without data and address, data with two points, a control byte in a name and
one in an address. -/
theorem published_text_rejected :
    (∃ store : RuleStore,
      loadRules (some (ascii "[\x7b\"commands\":[\x7b\"type\":\"enable\"\x7d]\x7d]")) {} =
        .ok (true, store) ∧ ¬IsJson (rulesFileText store.rules)) ∧
    (∃ store : RuleStore,
      loadRules (some (pumpText "1.2.3")) {} = .ok (true, store) ∧
        ¬IsJson (rulesFileText store.rules)) ∧
    (∃ store : RuleStore,
      loadRules (some (ascii "[\x7b\"name\":\"" ++ (1 : Byte) :: ascii "\"\x7d]")) {} =
        .ok (true, store) ∧ ¬IsJson (rulesToJson store.rules)) ∧
    ¬IsJson (registersFileText (handleLines [ascii "R1 1 " ++ [(1 : Byte)]] {})) := by
  refine ⟨⟨loadedStore [{ id := 1, commands := [{ type := .enable }] }],
      loadRules_parsed (by decide +kernel) {}, fun hjson => ?_⟩,
    ⟨loadedStore [pumpRule "1.2.3"], loadRules_parsed (by decide +kernel) {}, fun hjson => ?_⟩,
    ⟨loadedStore [{ id := 1, name := [1] }], loadRules_parsed (by decide +kernel) {},
      fun hjson => ?_⟩, fun hjson => ?_⟩
  · have hnone : run .outside (rulesFileText
      [{ id := 1, commands := [{ type := .enable }] }]) = none := by decide +kernel
    obtain ⟨st, hrun⟩ := hjson.run_isSome
    rw [loadedStore, hnone] at hrun
    cases hrun
  · have hnone : run .outside (rulesFileText [pumpRule "1.2.3"]) = none := by decide +kernel
    obtain ⟨st, hrun⟩ := hjson.run_isSome
    rw [loadedStore, hnone] at hrun
    cases hrun
  · have hname := hjson.plain 1 (by decide +kernel)
    revert hname
    decide
  · have hreport : relayReport (ascii "R1 1 " ++ [(1 : Byte)]) = some ⟨1, 1, [1]⟩ := by
      decide +kernel
    have hlast := lastIp_reported [] hreport 1
    rw [if_pos rfl] at hlast
    have hclean := (registersFileText_isJson_iff _).mp hjson 1 [1] hlast
    unfold Clean IsEscaped at hclean
    revert hclean
    decide

end InverterMonitor.Http
