import InverterMonitor.Format.Quotes
import InverterMonitor.Server.Positions
import InverterMonitor.Server.PublishedJson

/-!
# Names and commands in their literals

What the escaper makes of a text is read back as the text, and it stands in a literal of
its own wherever rules are printed.

* `parseJsonString_literal`: at every position of every text;
* `rulesFileText_name`, `rulesFileText_data`: one place in the file for a name and for the
  data of a command;
* `rulesToJson_name`, `rulesToJson_data`: and in the list that the dashboard fetches.
-/

namespace InverterMonitor.Http
open Text Cxx Json Registers Rules Quotes

/-! ## The reader -/

/-- The reader that starts at a literal ends behind it. -/
theorem parseJsonString_literal (before s r : Bytes) :
    Positions.parseJsonString (before ++ ('"' : Byte) :: (jsonEscape s ++ ('"' : Byte) :: r))
        before.length =
      .ok (some s, before.length + (jsonEscape s).length + 2) := by
  generalize hdata : before ++ ('"' : Byte) :: (jsonEscape s ++ ('"' : Byte) :: r) = data
  have hlength : data.length = before.length + (jsonEscape s).length + 2 + r.length := by
    rw [← hdata, List.length_append, List.length_cons, List.length_append, List.length_cons]
    omega
  have hstart : Positions.cursorAt data before.length =
      .inside (('"' : Byte) :: (jsonEscape s ++ ('"' : Byte) :: r)) := by
    rw [Positions.cursorAt_inside (by omega), ← hdata, List.drop_left]
  have hread := parseJsonString_quoted s r blank_nil
  rw [List.nil_append] at hread
  obtain ⟨pos', hparse, hcursor⟩ := Positions.parseJsonString_scans data before.length
  rw [hstart, hread] at hparse hcursor
  have hinside : pos' ≤ data.length := by
    by_contra hbeyond
    rw [Positions.cursorAt, if_neg hbeyond] at hcursor
    cases hcursor
  rw [Positions.cursorAt_inside hinside] at hcursor
  have hdrop := congrArg List.length (Cursor.inside.inj hcursor)
  rw [List.length_drop] at hdrop
  rw [hparse]
  simp only [Except.ok.injEq, Prod.mk.injEq, true_and]
  omega

/-! ## What is printed outside of the texts -/

theorem isBody_jsonEscape (s : Bytes) : IsBody (jsonEscape s) := by
  induction s with
  | nil => exact .nil
  | cons c s ih =>
    rw [jsonEscape_cons]
    rcases Registers.escapeByte_cases c with ⟨-, letter, -, heq⟩ | ⟨hplain, heq⟩
    · rw [heq]
      exact .escape letter ih
    · simp only [not_or] at hplain
      rw [heq]
      exact .plain hplain.1 hplain.2.1 ih

theorem isBody_unescaped {s : Bytes} (h : Unescaped s) : IsBody s := by
  induction s with
  | nil => exact .nil
  | cons b s ih =>
    obtain ⟨-, hquote, hslash⟩ := h b (List.mem_cons_self ..)
    exact .plain hquote hslash (ih fun b' hb' => h b' (List.mem_cons_of_mem b hb'))

theorem closed_quotedText (s : Bytes) : Closed (quotedText s) := (isBody_jsonEscape s).closed

theorem closed_spaces (n : Nat) : Closed (spaces n) := by
  refine closed_of_not_mem fun hmem => ?_
  exact absurd (List.eq_of_mem_replicate hmem) (by decide)

theorem closed_decimal (n : Nat) : Closed (decimal n) :=
  closed_of_not_mem fun hmem => absurd (decimal_digits n _ hmem) (by decide)

theorem closed_bool (b : Bool) : Closed (if b then ascii "true" else ascii "false") := by
  cases b <;> decide

theorem closed_formatGeneral (p : Nat) (x : Float) : Closed (formatGeneral p x) := by
  by_cases hfinite : isFinite x = true
  · obtain ⟨q, -, hq⟩ := formatGeneral_eq p hfinite
    refine closed_of_not_mem fun hmem => ?_
    exact absurd (IsNumeral.bytes ⟨q, hq⟩ _ hmem) (by decide)
  · have hnone : quotient x = none := by simpa [isFinite] using hfinite
    have hsign : Closed (signText x ++ ascii "inf") := by
      unfold signText
      by_cases hnegative : isNegative x = true
      · rw [if_pos hnegative]
        decide
      · rw [if_neg hnegative]
        decide
    simp only [formatGeneral, hnone]
    by_cases hnan : x.isNaN = true
    · rw [if_pos hnan]
      decide
    · rw [if_neg hnan]
      exact hsign

/-- Blanks and a key. -/
def keyText (n : Nat) (key : String) : Bytes :=
  spaces n ++ ('"' : Byte) :: (ascii key ++ [('"' : Byte)]) ++ [(':' : Byte)]

theorem memberText_eq (n : Nat) (key : String) (value : Bytes) :
    memberText n key value = keyText n key ++ value := by
  simp [memberText, keyText]

theorem closed_keyText (n : Nat) {key : String} (hkey : Unescaped (ascii key)) :
    Closed (keyText n key) :=
  ((closed_spaces n).append (isBody_unescaped hkey).closed).append (by decide)

theorem closed_memberText (n : Nat) {key : String} (hkey : Unescaped (ascii key)) {value : Bytes}
    (hvalue : Closed value) : Closed (memberText n key value) := by
  rw [memberText_eq]
  exact (closed_keyText n hkey).append hvalue

theorem embeds_memberText {α : Type} {P : α → Prop} {f g : α → Bytes} (n : Nat) {key : String}
    (hkey : Unescaped (ascii key)) (hf : Embeds P f g) :
    Embeds P (fun x => memberText n key (f x)) g := by
  refine (hf.append (closed_keyText n hkey) []).congr fun x _ => ?_
  rw [memberText_eq, List.append_nil]

theorem closed_line : Closed (ascii "\n") := by decide
theorem closed_comma : Closed (ascii ",") := by decide
theorem closed_commaLine : Closed (ascii ",\n") := by decide
theorem closed_brace : Closed (ascii "\x7b") := by decide
theorem closed_braceLine : Closed (ascii "\x7b\n") := by decide
theorem closed_closingBrace : Closed (ascii "\x7d") := by decide
theorem closed_bracket : Closed (ascii "[") := by decide
theorem closed_bracketLine : Closed (ascii "[\n") := by decide
theorem closed_closingBracket : Closed (ascii "]") := by decide

theorem closed_items {α : Type} {item : α → Bytes} (h : ∀ x, Closed (item x)) {sep : Bytes}
    (hsep : Closed sep) (xs : List α) : Closed (sep.intercalate (xs.map item)) := by
  refine closed_intercalate hsep fun v hv => ?_
  obtain ⟨x, -, rfl⟩ := List.mem_map.mp hv
  exact h x

/-! ## The members of rules -/

section Members
variable (n : Nat)

theorem closed_inputType (condition : RuleCondition) :
    Closed (memberText n "inputType" (quotedText condition.inputType.text)) :=
  closed_memberText n (unescaped_keys _ (by decide)) (closed_quotedText _)

theorem closed_inputAddress (condition : RuleCondition) :
    Closed (memberText n "inputAddress" (decimal condition.inputAddress.toNat)) :=
  closed_memberText n (unescaped_keys _ (by decide)) (closed_decimal _)

theorem closed_operator (condition : RuleCondition) :
    Closed (memberText n "operator" (quotedText condition.op.text)) :=
  closed_memberText n (unescaped_keys _ (by decide)) (closed_quotedText _)

theorem closed_valueType (condition : RuleCondition) :
    Closed (memberText n "valueType" (quotedText condition.valueInputType.text)) :=
  closed_memberText n (unescaped_keys _ (by decide)) (closed_quotedText _)

theorem closed_valueAddress (condition : RuleCondition) :
    Closed (memberText n "valueAddress" (decimal condition.valueInputAddress.toNat)) :=
  closed_memberText n (unescaped_keys _ (by decide)) (closed_decimal _)

theorem closed_value (condition : RuleCondition) :
    Closed (memberText n "value" (if condition.valueIsString then
      quotedText condition.valueString else formatGeneral 6 condition.valueNumber)) := by
  refine closed_memberText n (unescaped_keys _ (by decide)) ?_
  cases condition.valueIsString
  · exact closed_formatGeneral 6 condition.valueNumber
  · exact closed_quotedText condition.valueString

theorem closed_type (command : RuleCommand) :
    Closed (memberText n "type" (quotedText command.type.text)) :=
  closed_memberText n (unescaped_keys _ (by decide)) (closed_quotedText _)

theorem closed_address (command : RuleCommand) :
    Closed (memberText n "address" (decimal command.address.toNat)) :=
  closed_memberText n (unescaped_keys _ (by decide)) (closed_decimal _)

theorem closed_id (rule : Rule) : Closed (memberText n "id" (decimal rule.id.toNat)) :=
  closed_memberText n (unescaped_keys _ (by decide)) (closed_decimal _)

theorem closed_enabled (rule : Rule) :
    Closed (memberText n "enabled" (if rule.enabled then ascii "true" else ascii "false")) :=
  closed_memberText n (unescaped_keys _ (by decide)) (closed_bool _)

theorem closed_name (rule : Rule) : Closed (memberText n "name" (quotedText rule.name)) :=
  closed_memberText n (unescaped_keys _ (by decide)) (closed_quotedText _)

variable {value : Bytes}

theorem closed_data (h : Closed value) : Closed (memberText n "data" value) :=
  closed_memberText n (unescaped_keys _ (by decide)) h

theorem closed_conditions (h : Closed value) : Closed (memberText n "conditions" value) :=
  closed_memberText n (unescaped_keys _ (by decide)) h

theorem closed_commands (h : Closed value) : Closed (memberText n "commands" value) :=
  closed_memberText n (unescaped_keys _ (by decide)) h

theorem embeds_name : Embeds (fun _ => True) (fun name => memberText n "name" (quotedText name))
    quotedText :=
  embeds_memberText n (unescaped_keys _ (by decide)) (.refl _ _)

variable {α : Type} {P : α → Prop} {f g : α → Bytes}

theorem embeds_data (h : Embeds P f g) : Embeds P (fun x => memberText n "data" (f x)) g :=
  embeds_memberText n (unescaped_keys _ (by decide)) h

theorem embeds_commands (h : Embeds P f g) :
    Embeds P (fun x => memberText n "commands" (f x)) g :=
  embeds_memberText n (unescaped_keys _ (by decide)) h

end Members

/-! ## The file -/

theorem closed_separated {α : Type} {item : α → Bytes} (h : ∀ x, Closed (item x)) (xs : List α) :
    Closed (separated item xs) := by
  by_cases hnil : xs = []
  · rw [hnil]
    exact closed_nil
  · rw [separated_eq item hnil]
    exact (closed_items h closed_commaLine xs).append closed_line

/-- An item of a list is printed in one place. -/
theorem embeds_separated {α : Type} {item : α → Bytes} (h : ∀ x, Closed (item x)) (xs ys : List α)
    (P : α → Prop) : Embeds P (fun x => separated item (xs ++ x :: ys)) item := by
  refine ((embeds_intercalate closed_commaLine h xs ys P).append closed_nil
    (ascii "\n")).congr fun x _ => ?_
  rw [separated_eq item (by simp), List.nil_append]

theorem closed_saveCondition (condition : RuleCondition) : Closed (saveCondition condition) := by
  have hvalue : Closed (saveConditionValue condition) := by
    unfold saveConditionValue
    by_cases hinput : condition.valueInputType ≠ .unknown
    · rw [if_pos hinput]
      exact (((closed_valueType 8 condition).append closed_commaLine).append
        (closed_valueAddress 8 condition)).append closed_line
    · rw [if_neg hinput]
      exact (closed_value 8 condition).append closed_line
  have hhead := (((closed_spaces 6).append closed_braceLine).append
    (closed_inputType 8 condition)).append closed_commaLine
  have hinputs := (((hhead.append (closed_inputAddress 8 condition)).append closed_commaLine).append
    (closed_operator 8 condition)).append closed_commaLine
  exact ((hinputs.append hvalue).append (closed_spaces 6)).append closed_closingBrace

/-- The data of a command as the file has it. -/
def dataText (command : RuleCommand) : Bytes :=
  if isBare command then command.data else quotedText command.data

theorem numericData_plain {data : Bytes} (h : numericData data = true) :
    ('"' : Byte) ∉ data ∧ ('\\' : Byte) ∉ data := by
  have hall := List.all_eq_true.mp h
  exact ⟨fun hmem => absurd (hall _ hmem) (by decide), fun hmem => absurd (hall _ hmem) (by decide)⟩

theorem closed_dataText (command : RuleCommand) : Closed (dataText command) := by
  unfold dataText
  by_cases hbare : isBare command = true
  · rw [if_pos hbare]
    simp only [isBare, Bool.and_eq_true] at hbare
    exact closed_of_not_mem (numericData_plain hbare.2).1
  · rw [if_neg hbare]
    exact closed_quotedText command.data

/-- The data of a command is printed in one place. -/
theorem saveCommandData_data (command : RuleCommand) :
    Embeds (· ≠ []) (fun data => saveCommandData { command with data := data })
      fun data => dataText { command with data := data } := by
  have hmember := embeds_data 8
    (Embeds.refl (· ≠ []) fun data => dataText { command with data := data })
  refine (hmember.append closed_nil
    (if 0 < command.address then ascii ",\n" else ascii "\n")).congr fun data hdata => ?_
  rw [saveCommandData, if_neg hdata, List.nil_append]
  rfl

theorem closed_saveCommandData (command : RuleCommand) : Closed (saveCommandData command) := by
  unfold saveCommandData
  by_cases hdata : command.data = []
  · rw [if_pos hdata]
    exact closed_nil
  · rw [if_neg hdata]
    refine (closed_data 8 (closed_dataText command)).append ?_
    by_cases haddress : 0 < command.address
    · rw [if_pos haddress]
      exact closed_commaLine
    · rw [if_neg haddress]
      exact closed_line

/-- What `saveCommand` prints in front of the data. -/
def commandHead (command : RuleCommand) : Bytes :=
  spaces 6 ++ ascii "\x7b\n" ++ memberText 8 "type" (quotedText command.type.text) ++ ascii ",\n"

theorem closed_commandHead (command : RuleCommand) : Closed (commandHead command) :=
  (((closed_spaces 6).append closed_braceLine).append (closed_type 8 command)).append
    closed_commaLine

theorem saveCommand_data (command : RuleCommand) :
    Embeds (· ≠ []) (fun data => saveCommand { command with data := data })
      fun data => dataText { command with data := data } := by
  refine ((saveCommandData_data command).append (closed_commandHead command)
    ((if 0 < command.address then
      memberText 8 "address" (decimal command.address.toNat) ++ ascii "\n" else []) ++
      (spaces 6 ++ ascii "\x7d"))).congr fun data _ => ?_
  simp only [saveCommand, commandHead, List.append_assoc]

theorem closed_saveCommand (command : RuleCommand) : Closed (saveCommand command) := by
  have haddress : Closed (if 0 < command.address then
      memberText 8 "address" (decimal command.address.toNat) ++ ascii "\n" else []) := by
    by_cases hpositive : 0 < command.address
    · rw [if_pos hpositive]
      exact (closed_address 8 command).append closed_line
    · rw [if_neg hpositive]
      exact closed_nil
  exact ((((closed_commandHead command).append (closed_saveCommandData command)).append
    haddress).append (closed_spaces 6)).append closed_closingBrace

/-- What `saveRule` prints in front of the name. -/
def ruleHead (rule : Rule) : Bytes :=
  spaces 2 ++ ascii "\x7b\n" ++ memberText 4 "id" (decimal rule.id.toNat) ++ ascii ",\n" ++
  memberText 4 "enabled" (if rule.enabled then ascii "true" else ascii "false") ++ ascii ",\n"

theorem closed_ruleHead (rule : Rule) : Closed (ruleHead rule) :=
  (((((closed_spaces 2).append closed_braceLine).append (closed_id 4 rule)).append
    closed_commaLine).append (closed_enabled 4 rule)).append closed_commaLine

/-- A list as the value of a member. -/
def savedList {α : Type} (item : α → Bytes) (xs : List α) : Bytes :=
  ascii "[\n" ++ separated item xs ++ spaces 4 ++ ascii "]"

theorem closed_savedList {α : Type} {item : α → Bytes} (h : ∀ x, Closed (item x))
    (xs : List α) : Closed (savedList item xs) :=
  ((closed_bracketLine.append (closed_separated h xs)).append (closed_spaces 4)).append
    closed_closingBracket

/-- What `saveRule` prints in front of the commands. -/
def ruleBody (rule : Rule) : Bytes :=
  ruleHead rule ++ memberText 4 "name" (quotedText rule.name) ++ ascii ",\n" ++
  memberText 4 "conditions" (savedList saveCondition rule.conditions) ++ ascii ",\n"

theorem closed_ruleBody (rule : Rule) : Closed (ruleBody rule) := by
  have hconditions := closed_conditions 4 (closed_savedList closed_saveCondition rule.conditions)
  exact ((((closed_ruleHead rule).append (closed_name 4 rule)).append closed_commaLine).append
    hconditions).append closed_commaLine

theorem closed_saveRule (rule : Rule) : Closed (saveRule rule) := by
  have hcommands := closed_commands 4 (closed_savedList closed_saveCommand rule.commands)
  exact ((((closed_ruleBody rule).append hcommands).append closed_line).append
    (closed_spaces 2)).append closed_closingBrace

/-- The name of a rule is printed in one place. -/
theorem saveRule_name (rule : Rule) :
    Embeds (fun _ => True) (fun name => saveRule { rule with name := name }) quotedText := by
  refine ((embeds_name 4).append (closed_ruleHead rule) (ascii ",\n" ++
    (memberText 4 "conditions" (savedList saveCondition rule.conditions) ++ (ascii ",\n" ++
    (memberText 4 "commands" (savedList saveCommand rule.commands) ++
    (ascii "\n" ++ (spaces 2 ++ ascii "\x7d"))))))).congr fun name _ => ?_
  simp only [saveRule, ruleHead, savedList, List.append_assoc]

theorem saveRule_data (rule : Rule) (commands₁ : List RuleCommand) (command : RuleCommand)
    (commands₂ : List RuleCommand) :
    Embeds (· ≠ []) (fun data => saveRule { rule with
        commands := commands₁ ++ { command with data := data } :: commands₂ })
      fun data => dataText { command with data := data } := by
  have hitem : Embeds (· ≠ [])
      (fun data => separated saveCommand (commands₁ ++ { command with data := data } :: commands₂))
      fun data => saveCommand { command with data := data } :=
    (embeds_separated closed_saveCommand commands₁ commands₂ (fun _ => True)).comp
      fun _ _ => trivial
  have hlist := (hitem.trans (saveCommand_data command)).append closed_bracketLine
    (spaces 4 ++ ascii "]")
  refine ((embeds_commands 4 hlist).append (closed_ruleBody rule)
    (ascii "\n" ++ (spaces 2 ++ ascii "\x7d"))).congr fun data _ => ?_
  simp only [saveRule, ruleBody, ruleHead, savedList, List.append_assoc]

/-! ## The fetched list -/

theorem closed_jsonList {α : Type} {item : α → Bytes} (h : ∀ x, Closed (item x)) (xs : List α) :
    Closed (jsonList item xs) :=
  (closed_bracket.append (closed_items h closed_comma xs)).append closed_closingBracket

theorem embeds_jsonList {α : Type} {item : α → Bytes} (h : ∀ x, Closed (item x)) (xs ys : List α)
    (P : α → Prop) : Embeds P (fun x => jsonList item (xs ++ x :: ys)) item :=
  (embeds_intercalate closed_comma h xs ys P).append closed_bracket (ascii "]")

theorem closed_conditionToJson (condition : RuleCondition) :
    Closed (conditionToJson condition) := by
  have hhead := ((closed_brace.append (closed_inputType 0 condition)).append closed_comma).append
    (closed_inputAddress 0 condition)
  have hinputs := ((hhead.append closed_comma).append (closed_operator 0 condition)).append
    closed_comma
  rw [conditionToJson, jsonMember_eq]
  refine Closed.append (hinputs.append ?_) closed_closingBrace
  by_cases hinput : condition.valueInputType ≠ .unknown
  · rw [if_pos hinput]
    exact ((closed_valueType 0 condition).append closed_comma).append
      (closed_valueAddress 0 condition)
  · rw [if_neg hinput]
    exact closed_value 0 condition

/-- What is printed in front of the data. -/
def commandToJsonHead (command : RuleCommand) : Bytes :=
  ascii "\x7b" ++ jsonMember "type" (jsonText command.type.text)

theorem closed_commandToJsonHead (command : RuleCommand) : Closed (commandToJsonHead command) := by
  rw [commandToJsonHead, jsonMember_eq]
  exact closed_brace.append (closed_type 0 command)

theorem closed_commandToJson (command : RuleCommand) : Closed (commandToJson command) := by
  have hdata : Closed (if command.data = [] then []
      else ascii "," ++ jsonMember "data" (jsonText command.data)) := by
    by_cases hnil : command.data = []
    · rw [if_pos hnil]
      exact closed_nil
    · rw [if_neg hnil, jsonMember_eq]
      exact closed_comma.append (closed_data 0 (closed_quotedText command.data))
  have haddress : Closed (if 0 < command.address then
      ascii "," ++ jsonMember "address" (decimal command.address.toNat) else []) := by
    by_cases hpositive : 0 < command.address
    · rw [if_pos hpositive, jsonMember_eq]
      exact closed_comma.append (closed_address 0 command)
    · rw [if_neg hpositive]
      exact closed_nil
  exact (((closed_commandToJsonHead command).append hdata).append haddress).append
    closed_closingBrace

theorem commandToJson_data (command : RuleCommand) :
    Embeds (· ≠ []) (fun data => commandToJson { command with data := data }) jsonText := by
  refine ((embeds_data 0 (Embeds.refl (· ≠ []) jsonText)).append
    ((closed_commandToJsonHead command).append closed_comma)
    ((if 0 < command.address then
      ascii "," ++ jsonMember "address" (decimal command.address.toNat) else []) ++
      ascii "\x7d")).congr fun data hdata => ?_
  simp only [commandToJson, commandToJsonHead, if_neg hdata, ← jsonMember_eq, List.append_assoc]

/-- What is printed in front of the name. -/
def ruleToJsonHead (rule : Rule) : Bytes :=
  ascii "\x7b" ++ jsonMember "id" (decimal rule.id.toNat) ++ ascii "," ++
  jsonMember "enabled" (if rule.enabled then ascii "true" else ascii "false") ++ ascii ","

theorem closed_ruleToJsonHead (rule : Rule) : Closed (ruleToJsonHead rule) := by
  rw [ruleToJsonHead, jsonMember_eq]
  exact (((closed_brace.append (closed_id 0 rule)).append closed_comma).append
    (closed_enabled 0 rule)).append closed_comma

/-- What is printed in front of the commands. -/
def ruleToJsonBody (rule : Rule) : Bytes :=
  ruleToJsonHead rule ++ jsonMember "name" (jsonText rule.name) ++ ascii "," ++
  jsonMember "conditions" (jsonList conditionToJson rule.conditions) ++ ascii ","

theorem closed_ruleToJsonBody (rule : Rule) : Closed (ruleToJsonBody rule) := by
  have hconditions := closed_conditions 0 (closed_jsonList closed_conditionToJson rule.conditions)
  rw [ruleToJsonBody, jsonMember_eq]
  exact ((((closed_ruleToJsonHead rule).append (closed_name 0 rule)).append closed_comma).append
    hconditions).append closed_comma

theorem closed_ruleToJson (rule : Rule) : Closed (ruleToJson rule) := by
  have hcommands := closed_commands 0 (closed_jsonList closed_commandToJson rule.commands)
  rw [← jsonMember_eq] at hcommands
  exact ((closed_ruleToJsonBody rule).append hcommands).append closed_closingBrace

theorem ruleToJson_name (rule : Rule) :
    Embeds (fun _ => True) (fun name => ruleToJson { rule with name := name }) jsonText := by
  refine ((embeds_name 0).append (closed_ruleToJsonHead rule) (ascii "," ++
    (jsonMember "conditions" (jsonList conditionToJson rule.conditions) ++ (ascii "," ++
    (jsonMember "commands" (jsonList commandToJson rule.commands) ++
    ascii "\x7d"))))).congr fun name _ => ?_
  rw [← jsonMember_eq]
  simp only [ruleToJson, ruleToJsonHead, List.append_assoc]
  rfl

theorem ruleToJson_data (rule : Rule) (commands₁ : List RuleCommand) (command : RuleCommand)
    (commands₂ : List RuleCommand) :
    Embeds (· ≠ []) (fun data => ruleToJson { rule with
        commands := commands₁ ++ { command with data := data } :: commands₂ }) jsonText := by
  have hitem : Embeds (· ≠ [])
      (fun data => jsonList commandToJson (commands₁ ++ { command with data := data } :: commands₂))
      fun data => commandToJson { command with data := data } :=
    (embeds_jsonList closed_commandToJson commands₁ commands₂ (fun _ => True)).comp
      fun _ _ => trivial
  refine ((embeds_commands 0 (hitem.trans (commandToJson_data command))).append
    (closed_ruleToJsonBody rule) (ascii "\x7d")).congr fun data _ => ?_
  simp only [ruleToJson, ruleToJsonBody, ruleToJsonHead, ← jsonMember_eq, List.append_assoc]

/-! ## Literals of rules -/

theorem rulesFileText_rule (rules₁ rules₂ : List Rule) (P : Rule → Prop) :
    Embeds P (fun rule => rulesFileText (rules₁ ++ rule :: rules₂)) saveRule :=
  (embeds_separated closed_saveRule rules₁ rules₂ P).append closed_bracketLine (ascii "]\n")

theorem rulesToJson_rule (rules₁ rules₂ : List Rule) (P : Rule → Prop) :
    Embeds P (fun rule => rulesToJson (rules₁ ++ rule :: rules₂)) ruleToJson :=
  embeds_jsonList closed_ruleToJson rules₁ rules₂ P

/-- A rule in a list, with another name. -/
def withName (rules₁ : List Rule) (rule : Rule) (rules₂ : List Rule) (name : Bytes) : List Rule :=
  rules₁ ++ { rule with name := name } :: rules₂

/-- A command of a rule in a list, with other data. -/
def withData (rules₁ : List Rule) (rule : Rule) (commands₁ : List RuleCommand)
    (command : RuleCommand) (commands₂ : List RuleCommand) (rules₂ : List Rule) (data : Bytes) :
    List Rule :=
  rules₁ ++
    { rule with commands := commands₁ ++ { command with data := data } :: commands₂ } :: rules₂

theorem rulesFileText_name (rules₁ : List Rule) (rule : Rule) (rules₂ : List Rule) :
    Embeds (fun _ => True) (fun name => rulesFileText (withName rules₁ rule rules₂ name))
      quotedText :=
  ((rulesFileText_rule rules₁ rules₂ fun _ => True).comp fun _ _ => trivial).trans
    (saveRule_name rule)

theorem rulesToJson_name (rules₁ : List Rule) (rule : Rule) (rules₂ : List Rule) :
    Embeds (fun _ => True) (fun name => rulesToJson (withName rules₁ rule rules₂ name)) jsonText :=
  ((rulesToJson_rule rules₁ rules₂ fun _ => True).comp fun _ _ => trivial).trans
    (ruleToJson_name rule)

section Data
variable (rules₁ : List Rule) (rule : Rule) (commands₁ : List RuleCommand) (command : RuleCommand)
  (commands₂ : List RuleCommand) (rules₂ : List Rule)

theorem rulesFileText_data :
    Embeds (· ≠ [])
      (fun data => rulesFileText (withData rules₁ rule commands₁ command commands₂ rules₂ data))
      fun data => dataText { command with data := data } :=
  ((rulesFileText_rule rules₁ rules₂ fun _ => True).comp fun _ _ => trivial).trans
    (saveRule_data rule commands₁ command commands₂)

theorem rulesToJson_data :
    Embeds (· ≠ [])
      (fun data => rulesToJson (withData rules₁ rule commands₁ command commands₂ rules₂ data))
      jsonText :=
  ((rulesToJson_rule rules₁ rules₂ fun _ => True).comp fun _ _ => trivial).trans
    (ruleToJson_data rule commands₁ command commands₂)

end Data

/-- For the texts with `P`, `f` holds the text as a literal in one place, where the reader finds
the text and the end of the literal. -/
def HoldsLiteral (P : Bytes → Prop) (f : Bytes → Bytes) : Prop :=
  ∃ before after, Closed before ∧ ∀ s, P s →
    f s = before ++ ('"' : Byte) :: (jsonEscape s ++ ('"' : Byte) :: after) ∧
    Positions.parseJsonString (f s) before.length =
      .ok (some s, before.length + (jsonEscape s).length + 2)

theorem holdsLiteral_of_embeds {P : Bytes → Prop} {f : Bytes → Bytes}
    (h : Embeds P f quotedText) : HoldsLiteral P f := by
  obtain ⟨before, after, hbefore, hplace⟩ := h
  refine ⟨before, after, hbefore, fun s hs => ?_⟩
  have hliteral : f s = before ++ ('"' : Byte) :: (jsonEscape s ++ ('"' : Byte) :: after) := by
    have hclose : ascii "\"" = [('"' : Byte)] := rfl
    rw [hplace s hs, quotedText, hclose, List.cons_append, List.append_assoc]
    rfl
  exact ⟨hliteral, hliteral ▸ parseJsonString_literal before s after⟩

/-- The reader undoes the escaper of both files and stops behind the literal. Names and data of
commands stand in literals of their own, and data without quotes has none. -/
theorem jsonEscape_undone :
    (∀ before s r, Positions.parseJsonString
      (before ++ ('"' : Byte) :: (jsonEscape s ++ ('"' : Byte) :: r)) before.length =
        .ok (some s, before.length + (jsonEscape s).length + 2)) ∧
    (∀ before s r, Positions.parseJsonString
      (before ++ ('"' : Byte) :: (jsonEscapeLocal s ++ ('"' : Byte) :: r)) before.length =
        .ok (some s, before.length + (jsonEscapeLocal s).length + 2)) ∧
    (∀ s, IsBody (jsonEscape s)) ∧
    (∀ rules₁ rule rules₂,
      HoldsLiteral (fun _ => True) (fun name => rulesFileText (withName rules₁ rule rules₂ name)) ∧
      HoldsLiteral (fun _ => True) fun name => rulesToJson (withName rules₁ rule rules₂ name)) ∧
    ∀ rules₁ rule commands₁ command commands₂ rules₂,
      HoldsLiteral (fun data => data ≠ [] ∧ isBare { command with data := data } = false)
        (fun data => rulesFileText (withData rules₁ rule commands₁ command commands₂ rules₂ data)) ∧
      (∃ before after, Closed before ∧ ∀ data, data ≠ [] →
        isBare { command with data := data } = true →
          rulesFileText (withData rules₁ rule commands₁ command commands₂ rules₂ data) =
            before ++ (data ++ after) ∧ ('"' : Byte) ∉ data ∧ ('\\' : Byte) ∉ data) ∧
      HoldsLiteral (· ≠ [])
        fun data => rulesToJson (withData rules₁ rule commands₁ command commands₂ rules₂ data) := by
  refine ⟨parseJsonString_literal, parseJsonString_literal, isBody_jsonEscape, ?_, ?_⟩
  · intro rules₁ rule rules₂
    exact ⟨holdsLiteral_of_embeds (rulesFileText_name rules₁ rule rules₂),
      holdsLiteral_of_embeds (rulesToJson_name rules₁ rule rules₂)⟩
  · intro rules₁ rule commands₁ command commands₂ rules₂
    have hfile := rulesFileText_data rules₁ rule commands₁ command commands₂ rules₂
    have hquoted : Embeds (fun data => data ≠ [] ∧ isBare { command with data := data } = false)
        (fun data => rulesFileText (withData rules₁ rule commands₁ command commands₂ rules₂ data))
        quotedText := by
      refine hfile.restrict fun data hdata => ⟨hdata.1, ?_⟩
      simp only [dataText, hdata.2, Bool.false_eq_true, ↓reduceIte]
    have hbare : Embeds (fun data => data ≠ [] ∧ isBare { command with data := data } = true)
        (fun data => rulesFileText (withData rules₁ rule commands₁ command commands₂ rules₂ data))
        id := by
      refine hfile.restrict fun data hdata => ⟨hdata.1, ?_⟩
      simp only [dataText, hdata.2, ↓reduceIte, id]
    refine ⟨holdsLiteral_of_embeds hquoted, ?_, holdsLiteral_of_embeds
      (rulesToJson_data rules₁ rule commands₁ command commands₂ rules₂)⟩
    obtain ⟨before, after, hbefore, hplace⟩ := hbare
    refine ⟨before, after, hbefore, fun data hdata hnumeric => ⟨hplace data ⟨hdata, hnumeric⟩, ?_⟩⟩
    simp only [isBare, Bool.and_eq_true] at hnumeric
    exact numericData_plain hnumeric.2

end InverterMonitor.Http
