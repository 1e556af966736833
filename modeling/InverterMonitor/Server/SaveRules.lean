import InverterMonitor.Server.Rules

/-!
# Saving rules and reading them back

`rulesFileText` is the text `saveRules` writes.  Proved here:

* `parseRuleCondition_saved`, `parseRuleCommand_saved`, `parseRuleObject_saved`:
  reading one saved item computes its `reload`;
* `parseRulesArray_rulesFileText`: reading a saved list computes
  `reloadRule` of every rule, in order, and nothing else.
-/

namespace InverterMonitor.Rules
open Text Cxx Json Registers

/-! ## The writer -/

def spaces (n : Nat) : Bytes := List.replicate n ' '

/-- `n` blanks, the quoted key and a colon, followed by the value. -/
def memberText (n : Nat) (key : String) (value : Bytes) : Bytes :=
  spaces n ++ ('"' : Byte) :: (ascii key ++ ('"' : Byte) :: (':' : Byte) :: value)

def quotedText (s : Bytes) : Bytes := ('"' : Byte) :: (jsonEscape s ++ ascii "\"")

/-- Items on lines of their own, with commas between them. -/
def separated {α : Type} (item : α → Bytes) : List α → Bytes
  | [] => []
  | [x] => item x ++ ascii "\n"
  | x :: y :: xs => item x ++ ascii ",\n" ++ separated item (y :: xs)

def saveConditionValue (c : RuleCondition) : Bytes :=
  if c.valueInputType ≠ .unknown then
    memberText 8 "valueType" (quotedText c.valueInputType.text) ++ ascii ",\n" ++
    memberText 8 "valueAddress" (decimal c.valueInputAddress.toNat) ++ ascii "\n"
  else
    memberText 8 "value"
      (if c.valueIsString then quotedText c.valueString else formatGeneral 6 c.valueNumber) ++
    ascii "\n"

def saveCondition (c : RuleCondition) : Bytes :=
  spaces 6 ++ ascii "\x7b\n" ++
  memberText 8 "inputType" (quotedText c.inputType.text) ++ ascii ",\n" ++
  memberText 8 "inputAddress" (decimal c.inputAddress.toNat) ++ ascii ",\n" ++
  memberText 8 "operator" (quotedText c.op.text) ++ ascii ",\n" ++
  saveConditionValue c ++
  spaces 6 ++ ascii "\x7d"

/-- The character test that decides whether data is printed bare. -/
def numericData (data : Bytes) : Bool :=
  data.all fun c => c == '.' || c == '-' || c == '+' || isDigit c

def isBare (c : RuleCommand) : Bool :=
  c.type != .send && c.type != .system && numericData c.data

def saveCommandData (c : RuleCommand) : Bytes :=
  if c.data = [] then []
  else
    memberText 8 "data" (if isBare c then c.data else quotedText c.data) ++
    (if 0 < c.address then ascii ",\n" else ascii "\n")

def saveCommand (c : RuleCommand) : Bytes :=
  spaces 6 ++ ascii "\x7b\n" ++
  memberText 8 "type" (quotedText c.type.text) ++ ascii ",\n" ++
  saveCommandData c ++
  (if 0 < c.address then memberText 8 "address" (decimal c.address.toNat) ++ ascii "\n" else []) ++
  spaces 6 ++ ascii "\x7d"

def saveRule (r : Rule) : Bytes :=
  spaces 2 ++ ascii "\x7b\n" ++
  memberText 4 "id" (decimal r.id.toNat) ++ ascii ",\n" ++
  memberText 4 "enabled" (if r.enabled then ascii "true" else ascii "false") ++ ascii ",\n" ++
  memberText 4 "name" (quotedText r.name) ++ ascii ",\n" ++
  memberText 4 "conditions" (ascii "[\n" ++ separated saveCondition r.conditions ++
    spaces 4 ++ ascii "]") ++ ascii ",\n" ++
  memberText 4 "commands" (ascii "[\n" ++ separated saveCommand r.commands ++
    spaces 4 ++ ascii "]") ++ ascii "\n" ++
  spaces 2 ++ ascii "\x7d"

def rulesFileText (rules : List Rule) : Bytes :=
  ascii "[\n" ++ separated saveRule rules ++ ascii "]\n"

/-! ## What a saved item becomes -/

/-- The condition that the saved members denote. -/
def reloadCondition (c : RuleCondition) : Except Failure RuleCondition :=
  let saved : RuleCondition :=
    { inputType := c.inputType, inputAddress := c.inputAddress, op := c.op }
  if c.valueInputType ≠ .unknown then
    .ok { saved with
      valueInputType := c.valueInputType, valueInputAddress := c.valueInputAddress }
  else
    conditionValue saved
      (if c.valueIsString then ⟨c.valueString, true⟩ else ⟨formatGeneral 6 c.valueNumber, false⟩)

/-- A numeral the reader accepts as a value: it must not start with its point. -/
def PlainNumeral (s : Bytes) : Prop := IsNumeral s ∧ s.head? ≠ some '.'

/-- Data that is printed bare is a numeral. -/
def CommandSaveable (c : RuleCommand) : Prop :=
  c.data = [] ∨ isBare c = false ∨ PlainNumeral c.data

open Classical in
noncomputable def reloadCommand (c : RuleCommand) : Except Failure RuleCommand :=
  if CommandSaveable c then .ok c else .error .rejected

noncomputable def reloadRule (r : Rule) : Except Failure Rule := do
  let conditions ← r.conditions.mapM reloadCondition
  let commands ← r.commands.mapM reloadCommand
  return { r with conditions := conditions, commands := commands }

/-! ## Reading one saved member -/

/-- The line break and the indentation before a member. -/
theorem blank_indent (n : Nat) : Blank (ascii "\n" ++ spaces n) := by
  rw [blank_append]
  refine ⟨by decide, fun b hb => ?_⟩
  rw [List.eq_of_mem_replicate hb]
  decide

@[simp] theorem memberText_append (n : Nat) (key : String) (value s : Bytes) :
    memberText n key value ++ s = memberText n key (value ++ s) := by
  simp [memberText]

/-- The reader takes the next member behind a line break. -/
theorem parseMembers_memberText {σ : Type}
    {member : Bytes → σ → Cursor → Except Failure (σ × Cursor)} (fuel n : Nat) (st : σ)
    (key : String) (s : Bytes) (hkey : jsonEscape (ascii key) = ascii key) :
    parseMembers member (fuel + 1) st (.inside (ascii "\n" ++ memberText n key s)) =
      (do
        let (st, c) ← member (lower (ascii key)) st (.inside s)
        parseMembers member fuel st (skipComma c)) := by
  have hgap : Blank (ascii "\n" ++ spaces n) := blank_indent n
  rw [memberText, ← List.append_assoc]
  exact parseMembers_member fuel st s hgap hkey

theorem parseMembers_close {σ : Type}
    {member : Bytes → σ → Cursor → Except Failure (σ × Cursor)} (fuel n : Nat) (st : σ)
    (s : Bytes) :
    parseMembers member (fuel + 1) st (.inside (ascii "\n" ++ (spaces n ++ (ascii "\x7d" ++ s)))) =
      .ok (st, .inside s) := by
  have hgap : Blank (ascii "\n" ++ spaces n) := blank_indent n
  rw [← List.append_assoc]
  exact parseMembers_end fuel st s hgap

theorem skipComma_line (s : Bytes) :
    skipComma (.inside (ascii ",\n" ++ s)) = .inside (ascii "\n" ++ s) :=
  skipComma_comma _

/-- Without a comma the separator handling moves on to the closing brace. -/
theorem parseMembers_last {σ : Type}
    {member : Bytes → σ → Cursor → Except Failure (σ × Cursor)} (fuel n : Nat) (st : σ)
    (s : Bytes) :
    parseMembers member (fuel + 1) st
        (skipComma (.inside (ascii "\n" ++ (spaces n ++ (ascii "\x7d" ++ s))))) =
      .ok (st, .inside s) := by
  have hgap : Blank (ascii "\n" ++ spaces n) := blank_indent n
  rw [← List.append_assoc]
  change parseMembers member (fuel + 1) st
    (skipComma (.inside ((ascii "\n" ++ spaces n) ++ ('}' : Byte) :: s))) = _
  rw [skipComma_gap s hgap (by decide) (by decide)]
  exact parseMembers_end fuel st s blank_nil

theorem parseValue_quoted (t s : Bytes) :
    parseJsonValueAsString (.inside (quotedText t ++ s)) = .ok (⟨t, true⟩, .inside s) := by
  have h := parseJsonValueAsString_quoted t s
  simpa [quotedText, show ascii "\"" = [('"' : Byte)] by decide] using h

/-- A decimal number as a numeral. -/
def decimalParts (n : Nat) : NumeralParts where
  sign := []
  whole := decimal n
  fraction := []
  exponent := []
  sign_eq := Or.inl rfl
  whole_digits := digits_decimal n
  fraction_eq := Or.inl rfl
  has_digit := Or.inl (decimal_ne_nil n)
  exponent_eq := Or.inl rfl

theorem decimalParts_text (n : Nat) : (decimalParts n).text = decimal n := by
  simp [NumeralParts.text, NumeralParts.magnitude, decimalParts]

/-- The separators after a value end every numeral. -/
def Separator (s : Bytes) : Prop := ∃ t, s = ascii ",\n" ++ t ∨ s = ascii "\n" ++ t

theorem Separator.stops {s : Bytes} (h : Separator s) : Stops isNumeralByte s := by
  obtain ⟨t, rfl | rfl⟩ := h
  · change Stops isNumeralByte ((',' : Byte) :: (ascii "\n" ++ t))
    simp only [stops_cons]
    decide
  · change Stops isNumeralByte ((10 : Byte) :: t)
    simp only [stops_cons]
    decide

theorem parseUInt32_decimal (n : UInt32) {s : Bytes} (hs : Separator s) :
    parseUInt32 (.inside (decimal n.toNat ++ s)) = .ok (n, .inside s) := by
  have h := parseJsonValueAsString_numeral (decimalParts n.toNat)
    (fun _ => decimal_ne_nil n.toNat) hs.stops
  rw [decimalParts_text] at h
  simp [parseUInt32, h, stoul_decimal]

theorem parseJsonBool_text (value : Bool) (s : Bytes) :
    parseJsonBool (.inside ((if value then ascii "true" else ascii "false") ++ s)) =
      .ok (some value, .inside s) := by
  cases value <;> rfl

/-! ## Reading one saved item -/

/-- The text of a condition behind its opening brace. -/
def conditionTail (c : RuleCondition) (s : Bytes) : Bytes :=
  ascii "\n" ++
  memberText 8 "inputType" (quotedText c.inputType.text ++ (ascii ",\n" ++
  memberText 8 "inputAddress" (decimal c.inputAddress.toNat ++ (ascii ",\n" ++
  memberText 8 "operator" (quotedText c.op.text ++ (ascii ",\n" ++
  (saveConditionValue c ++ (spaces 6 ++ (ascii "\x7d" ++ s)))))))))

theorem saveCondition_append (c : RuleCondition) (s : Bytes) :
    saveCondition c ++ s = spaces 6 ++ (ascii "\x7b" ++ conditionTail c s) := by
  simp only [saveCondition, conditionTail, List.append_assoc, memberText_append,
    show ascii "\x7b\n" = ascii "\x7b" ++ ascii "\n" by decide]

/-- A member followed by another one. -/
theorem parseMembers_next {σ : Type}
    {member : Bytes → σ → Cursor → Except Failure (σ × Cursor)} {st st' : σ} {key : String}
    {value : Bytes} (fuel n : Nat) (s : Bytes) (hkey : jsonEscape (ascii key) = ascii key)
    (hread : member (lower (ascii key)) st (.inside (value ++ (ascii ",\n" ++ s))) =
      .ok (st', .inside (ascii ",\n" ++ s))) :
    parseMembers member (fuel + 1) st
        (.inside (ascii "\n" ++ memberText n key (value ++ (ascii ",\n" ++ s)))) =
      parseMembers member fuel st' (.inside (ascii "\n" ++ s)) := by
  rw [parseMembers_memberText fuel n st key _ hkey, hread]
  simp only [ok_bind, skipComma_line]

/-- A member that ends its object. -/
theorem parseMembers_final {σ : Type}
    {member : Bytes → σ → Cursor → Except Failure (σ × Cursor)} {st st' : σ} {key : String}
    {value : Bytes} (fuel n m : Nat) (s : Bytes) (hkey : jsonEscape (ascii key) = ascii key)
    (hread : member (lower (ascii key)) st
        (.inside (value ++ (ascii "\n" ++ (spaces m ++ (ascii "\x7d" ++ s))))) =
      .ok (st', .inside (ascii "\n" ++ (spaces m ++ (ascii "\x7d" ++ s))))) :
    parseMembers member (fuel + 2) st
        (.inside (ascii "\n" ++
          memberText n key (value ++ (ascii "\n" ++ (spaces m ++ (ascii "\x7d" ++ s)))))) =
      .ok (st', .inside s) := by
  rw [parseMembers_memberText (fuel + 1) n st key _ hkey, hread, ok_bind]
  exact parseMembers_last fuel m st' s

theorem separator_comma (s : Bytes) : Separator (ascii ",\n" ++ s) := ⟨s, Or.inl rfl⟩

theorem separator_line (s : Bytes) : Separator (ascii "\n" ++ s) := ⟨s, Or.inr rfl⟩

theorem parseNumber_formatGeneral {x : Float} (hx : isFinite x = true) {s : Bytes}
    (hs : Separator s) :
    parseJsonValueAsString (.inside (formatGeneral 6 x ++ s)) =
      .ok (⟨formatGeneral 6 x, false⟩, .inside s) := by
  obtain ⟨q, hq, hx⟩ := formatGeneral_eq 6 hx
  rw [hx]
  exact parseJsonValueAsString_numeral q (fun _ => hq) hs.stops

/-- A member that is read and put into its field. -/
theorem read_member {α σ : Type} {read : Except Failure (α × Cursor)} {x : α} {c : Cursor}
    (h : read = .ok (x, c)) (put : α → σ) :
    (read >>= fun p => pure (put p.1, p.2)) = (.ok (put x, c) : Except Failure (σ × Cursor)) := by
  rw [h]
  rfl

section

variable (bound : Nat) (c : RuleCondition) (s : Bytes)

theorem conditionMember_inputType (t : ConditionInputType) :
    conditionMember bound (lower (ascii "inputType")) c (.inside (quotedText t.text ++ s)) =
      .ok ({ c with inputType := t }, .inside s) := by
  have h := read_member (parseValue_quoted t.text s) fun value =>
    { c with inputType := parseConditionInputType value.text }
  rw [parse_inputType_text] at h
  exact h

theorem conditionMember_inputAddress (n : UInt32) (hs : Separator s) :
    conditionMember bound (lower (ascii "inputAddress")) c (.inside (decimal n.toNat ++ s)) =
      .ok ({ c with inputAddress := n }, .inside s) := by
  exact read_member (parseUInt32_decimal n hs) fun n => { c with inputAddress := n }

theorem conditionMember_operator (op : ConditionOperator) :
    conditionMember bound (lower (ascii "operator")) c (.inside (quotedText op.text ++ s)) =
      .ok ({ c with op := op }, .inside s) := by
  have h := read_member (parseValue_quoted op.text s) fun value =>
    { c with op := parseConditionOperator value.text }
  rw [parse_operator_text] at h
  exact h

theorem conditionMember_valueType (t : ConditionInputType) :
    conditionMember bound (lower (ascii "valueType")) c (.inside (quotedText t.text ++ s)) =
      .ok ({ c with valueInputType := t }, .inside s) := by
  have h := read_member (parseValue_quoted t.text s) fun value =>
    { c with valueInputType := parseConditionInputType value.text }
  rw [parse_inputType_text] at h
  exact h

theorem conditionMember_valueAddress (n : UInt32) (hs : Separator s) :
    conditionMember bound (lower (ascii "valueAddress")) c (.inside (decimal n.toNat ++ s)) =
      .ok ({ c with valueInputAddress := n }, .inside s) := by
  exact read_member (parseUInt32_decimal n hs) fun n => { c with valueInputAddress := n }

theorem conditionMember_value :
    conditionMember bound (lower (ascii "value")) c (.inside s) =
      (do let (value, s) ← parseJsonValueAsString (.inside s)
          return (← conditionValue c value, s)) := rfl

end

/-- The text of the value member of a condition that compares with a constant. -/
def savedConstant (c : RuleCondition) : JsonText :=
  if c.valueIsString then ⟨c.valueString, true⟩ else ⟨formatGeneral 6 c.valueNumber, false⟩

theorem parseValue_savedConstant {c : RuleCondition}
    (hc : c.valueIsString = false → isFinite c.valueNumber = true) {s : Bytes}
    (hs : Separator s) :
    parseJsonValueAsString (.inside
        ((if c.valueIsString then quotedText c.valueString else formatGeneral 6 c.valueNumber) ++
          s)) = .ok (savedConstant c, .inside s) := by
  cases h : c.valueIsString with
  | true => simp [savedConstant, h, parseValue_quoted]
  | false => simp [savedConstant, h, parseNumber_formatGeneral (hc h) hs]

theorem parseRuleCondition_saved (bound : Nat) {c : RuleCondition}
    (hc : c.valueIsString = false → isFinite c.valueNumber = true) (s : Bytes) :
    parseRuleCondition (bound + 6) (.inside (ascii "\x7b" ++ conditionTail c s)) =
      (reloadCondition c).map (·, .inside s) := by
  rw [parseRuleCondition, parseObject_open, conditionTail,
    parseMembers_next _ _ _ (by decide) (conditionMember_inputType _ _ _ _),
    parseMembers_next _ _ _ (by decide)
      (conditionMember_inputAddress _ _ _ _ (separator_comma _)),
    parseMembers_next _ _ _ (by decide) (conditionMember_operator _ _ _ _)]
  by_cases hv : c.valueInputType = .unknown
  · have hread := parseValue_savedConstant hc (separator_line (spaces 6 ++ (ascii "\x7d" ++ s)))
    simp only [saveConditionValue, hv, ne_eq, not_true_eq_false, ↓reduceIte, memberText_append,
      List.append_assoc]
    rw [parseMembers_memberText _ _ _ _ _ (by decide), conditionMember_value, hread, ok_bind]
    simp only [reloadCondition, hv, ne_eq, not_true_eq_false, ↓reduceIte]
    change ((conditionValue _ (savedConstant c) >>= _) >>= _) =
      (conditionValue _ (savedConstant c)).map _
    cases conditionValue
        { inputType := c.inputType, inputAddress := c.inputAddress, op := c.op }
        (savedConstant c) with
    | error e => rfl
    | ok d =>
      simp only [ok_bind, pure_eq_ok, ok_map]
      exact parseMembers_last _ _ d s
  · simp only [saveConditionValue, hv, ne_eq, not_false_eq_true, ↓reduceIte, memberText_append,
      List.append_assoc]
    rw [parseMembers_next _ _ _ (by decide) (conditionMember_valueType _ _ _ _),
      parseMembers_final _ _ _ _ (by decide)
        (conditionMember_valueAddress _ _ _ _ (separator_line _))]
    simp [reloadCondition, hv, Except.map]

/-! ### Commands -/

section

variable (bound : Nat) (c : RuleCommand) (s : Bytes)

theorem commandMember_type (t : CommandType) :
    commandMember bound (lower (ascii "type")) c (.inside (quotedText t.text ++ s)) =
      .ok ({ c with type := t }, .inside s) := by
  have h := read_member (parseValue_quoted t.text s) fun value =>
    { c with type := parseCommandType value.text }
  rw [parse_commandType_text] at h
  exact h

theorem commandMember_data :
    commandMember bound (lower (ascii "data")) c (.inside s) =
      (do let (value, s) ← parseJsonValueAsString (.inside s)
          return ({ c with data := value.text }, s)) := rfl

theorem commandMember_address (n : UInt32) (hs : Separator s) :
    commandMember bound (lower (ascii "address")) c (.inside (decimal n.toNat ++ s)) =
      .ok ({ c with address := n }, .inside s) := by
  exact read_member (parseUInt32_decimal n hs) fun n => { c with address := n }

end

/-- Text that must end before a separator lies inside the data before it. -/
theorem prefix_before_separator {t u d s : Bytes} (h : t ++ u = d ++ s)
    (ht : ∀ b ∈ t, isNumeralByte b = true) (hs : Separator s) :
    ∃ v, d = t ++ v ∧ u = v ++ s := by
  rcases List.append_eq_append_iff.mp h with ⟨v, hd, hu⟩ | ⟨v, hv, hsv⟩
  · exact ⟨v, hd, hu⟩
  · cases v with
    | nil => exact ⟨[], by simpa using hv.symm, by simpa using hsv.symm⟩
    | cons b v =>
      have hstop : isNumeralByte b = false := hs.stops b (by simp [hsv])
      rw [ht b (by simp [hv])] at hstop
      cases hstop

/-- The characters of bare data. -/
theorem numericData_byte {d : Bytes} (h : numericData d = true) {b : Byte} (hb : b ∈ d) :
    isSpace b = false ∧ b ≠ '"' ∧ b ≠ ',' ∧ b ≠ '}' ∧ (b = '.' ∨ isNumberStart b = true) := by
  have hmem := List.all_eq_true.mp h b hb
  simp only [Bool.or_eq_true, beq_iff_eq] at hmem
  rcases hmem with ((rfl | rfl) | rfl) | hd
  · decide
  · decide
  · decide
  · exact ⟨isSpace_of_isDigit hd, ne_of_isDigit hd (by decide), ne_of_isDigit hd (by decide),
      ne_of_isDigit hd (by decide), Or.inr (by simp [isNumberStart, hd])⟩

/-- A leftover of bare data is no key, so the reader gives up. -/
theorem parseMembers_leftover {σ : Type}
    {member : Bytes → σ → Cursor → Except Failure (σ × Cursor)} {v : Bytes} (fuel : Nat) (st : σ)
    (s : Bytes) (hne : v ≠ []) (hv : numericData v = true) :
    parseMembers member (fuel + 1) st (skipComma (.inside (v ++ s))) = .error .rejected := by
  cases v with
  | nil => exact absurd rfl hne
  | cons b v =>
    obtain ⟨hspace, hquote, hcomma, hbrace, _⟩ := numericData_byte hv (b := b) (by simp)
    have hskip := skipComma_gap (v ++ s) blank_nil hspace hcomma
    rw [List.nil_append] at hskip
    rw [List.cons_append, hskip]
    simp [parseMembers, skipWhitespace_cons _ hspace, parseJsonString, hquote, hbrace, orReject]

theorem numberToken_bare {d s t u : Bytes} (hs : Separator s) (hplain : ¬PlainNumeral d)
    (hhead : d.head? ≠ some '.') (h : numberToken (d ++ s) = (some t, u)) :
    ∃ v, v ≠ [] ∧ d = t ++ v ∧ u = v ++ s := by
  obtain ⟨htu, ht⟩ := numberToken_sound h
  obtain ⟨v, hd, hu⟩ := prefix_before_separator htu.symm ht.bytes hs
  refine ⟨v, fun hv => hplain ⟨?_, hhead⟩, hd, hu⟩
  rw [hd, hv, List.append_nil]
  exact ht

/-- Bare data that is no numeral stops the reader, here or at the next key. -/
theorem parseMembers_bareData (bound fuel n : Nat) (st : RuleCommand) {d s : Bytes}
    (hne : d ≠ []) (hd : numericData d = true) (hplain : ¬PlainNumeral d) (hs : Separator s) :
    parseMembers (commandMember bound) (fuel + 2) st
      (.inside (ascii "\n" ++ memberText n "data" (d ++ s))) = .error .rejected := by
  rw [parseMembers_memberText _ _ _ _ _ (by decide), commandMember_data]
  cases hdata : d with
  | nil => exact absurd hdata hne
  | cons b d' =>
    rw [← hdata]
    obtain ⟨hspace, hquote, _, _, hstart⟩ := numericData_byte hd (b := b) (by simp [hdata])
    have hskip : skipWhitespace (.inside (d ++ s)) = .inside (d ++ s) := by
      rw [hdata, List.cons_append, skipWhitespace_cons _ hspace]
    have hrest : (Cursor.inside (d ++ s)).rest = b :: (d' ++ s) := by simp [hdata]
    rcases hstart with rfl | hstart
    · have hread : parseJsonValueAsString (.inside (d ++ s)) = .error .rejected := by
        rw [hdata]
        rfl
      rw [hread]
      rfl
    · have hhead : d.head? ≠ some '.' := by
        rintro h
        have : b = '.' := by simpa [hdata] using h
        subst this
        exact absurd hstart (by decide)
      have hread : parseJsonValueAsString (.inside (d ++ s)) =
          (orReject (parseJsonNumberAsString (.inside (d ++ s)))).map
            fun number => (⟨number.1, false⟩, number.2) := by
        simp only [parseJsonValueAsString, hskip, hrest, hquote, hstart, ↓reduceIte]
        cases orReject (parseJsonNumberAsString (.inside (d ++ s))) <;> rfl
      cases htoken : numberToken (d ++ s) with
      | mk token u =>
        have hnumber : parseJsonNumberAsString (.inside (d ++ s)) = (token, .inside u) := by
          simp [parseJsonNumberAsString, hskip, htoken]
        cases token with
        | none =>
          rw [hread, hnumber]
          rfl
        | some t =>
          obtain ⟨v, hv, hdv, hu⟩ := numberToken_bare hs hplain hhead htoken
          have hvd : numericData v = true := by
            rw [hdv, numericData, List.all_append, Bool.and_eq_true] at hd
            exact hd.2
          rw [hread, hnumber, hu]
          exact parseMembers_leftover fuel { st with data := t } s hv hvd

/-- The text of a command behind its opening brace. -/
def commandTail (c : RuleCommand) (s : Bytes) : Bytes :=
  ascii "\n" ++
  memberText 8 "type" (quotedText c.type.text ++ (ascii ",\n" ++
  (saveCommandData c ++
  ((if 0 < c.address then memberText 8 "address" (decimal c.address.toNat ++ ascii "\n")
    else []) ++ (spaces 6 ++ (ascii "\x7d" ++ s))))))

theorem saveCommand_append (c : RuleCommand) (s : Bytes) :
    saveCommand c ++ s = spaces 6 ++ (ascii "\x7b" ++ commandTail c s) := by
  simp only [saveCommand, commandTail, List.append_assoc, memberText_append,
    show ascii "\x7b\n" = ascii "\x7b" ++ ascii "\n" by decide]

theorem parseValue_plainNumeral {d s : Bytes} (hd : PlainNumeral d) (hs : Separator s) :
    parseJsonValueAsString (.inside (d ++ s)) = .ok (⟨d, false⟩, .inside s) := by
  obtain ⟨⟨q, rfl⟩, hhead⟩ := hd
  refine parseJsonValueAsString_numeral q (fun hsign hwhole => hhead ?_) hs.stops
  rcases q.fraction_eq with hf | ⟨ds, _, hf⟩
  · rcases q.has_digit with h | h
    · exact absurd hwhole h
    · simp [hf] at h
  · simp [NumeralParts.text, NumeralParts.magnitude, hsign, hwhole, hf]

theorem commandMember_savedData (bound : Nat) (st : RuleCommand) {c : RuleCommand} {s : Bytes}
    (hc : isBare c = false ∨ PlainNumeral c.data) (hs : Separator s) :
    commandMember bound (lower (ascii "data")) st
        (.inside ((if isBare c then c.data else quotedText c.data) ++ s)) =
      .ok ({ st with data := c.data }, .inside s) := by
  rw [commandMember_data]
  cases hbare : isBare c with
  | false => simp [parseValue_quoted]
  | true =>
    rcases hc with hc | hc
    · rw [hc] at hbare
      cases hbare
    · simp [parseValue_plainNumeral hc hs]

theorem parseRuleCommand_saved (bound : Nat) (c : RuleCommand) (s : Bytes) :
    parseRuleCommand (bound + 4) (.inside (ascii "\x7b" ++ commandTail c s)) =
      (reloadCommand c).map (·, .inside s) := by
  rw [parseRuleCommand, parseObject_open, commandTail,
    parseMembers_next _ _ _ (by decide) (commandMember_type _ _ _ _)]
  have hzero : ¬0 < c.address → c.address = 0 := fun h =>
    UInt32.le_zero_iff.mp (UInt32.not_lt.mp h)
  by_cases hdata : c.data = []
  · have hsave : reloadCommand c = .ok c := if_pos (Or.inl hdata)
    rw [hsave, saveCommandData, if_pos hdata, List.nil_append]
    by_cases haddress : 0 < c.address
    · rw [if_pos haddress, memberText_append, List.append_assoc,
        parseMembers_final _ _ _ _ (by decide)
          (commandMember_address _ _ _ _ (separator_line _))]
      simp [← hdata]
    · rw [if_neg haddress, List.nil_append, parseMembers_close]
      simp [← hdata, ← hzero haddress]
  rw [saveCommandData, if_neg hdata]
  by_cases hc : isBare c = false ∨ PlainNumeral c.data
  · have hsave : reloadCommand c = .ok c := if_pos (Or.inr hc)
    rw [hsave]
    by_cases haddress : 0 < c.address
    · simp only [if_pos haddress, memberText_append, List.append_assoc]
      rw [parseMembers_next _ _ _ (by decide) (commandMember_savedData _ _ hc (separator_comma _)),
        parseMembers_final _ _ _ _ (by decide)
          (commandMember_address _ _ _ _ (separator_line _))]
      simp
    · simp only [if_neg haddress, memberText_append, List.append_assoc, List.nil_append]
      rw [parseMembers_final _ _ _ _ (by decide)
          (commandMember_savedData _ _ hc (separator_line _))]
      simp [← hzero haddress]
  · have hsave : reloadCommand c = .error .rejected := by
      refine if_neg ?_
      rintro (h | h)
      · exact hdata h
      · exact hc h
    obtain ⟨hbare, hplain⟩ := not_or.mp hc
    rw [Bool.not_eq_false] at hbare
    have hnumeric : numericData c.data = true := by
      simp only [isBare, Bool.and_eq_true] at hbare
      exact hbare.2
    rw [hsave, if_pos hbare]
    by_cases haddress : 0 < c.address
    · simp only [if_pos haddress, memberText_append, List.append_assoc]
      exact parseMembers_bareData _ _ _ _ hdata hnumeric hplain (separator_comma _)
    · simp only [if_neg haddress, memberText_append, List.append_assoc]
      exact parseMembers_bareData _ _ _ _ hdata hnumeric hplain (separator_line _)

/-! ### Lists -/

/-- The reader takes the next item behind a line break. -/
theorem parseElements_item {α : Type} {element : Cursor → Except Failure (α × Cursor)}
    {push : List α → α → List α} {item : α → Bytes} {tail : α → Bytes → Bytes} {k : Nat}
    (hitem : ∀ x s, item x ++ s = spaces k ++ (ascii "\x7b" ++ tail x s)) (fuel : Nat)
    (out : List α) (x : α) (t : Bytes) :
    parseElements element push (fuel + 1) out (.inside (ascii "\n" ++ (item x ++ t))) =
      (do
        let (x, c) ← element (.inside (ascii "\x7b" ++ tail x t))
        parseElements element push fuel (push out x) (skipComma c)) := by
  rw [hitem, ← List.append_assoc]
  exact parseElements_element fuel out (tail x t) (blank_indent k) (by decide) (by decide)

/-- Without a comma the separator handling moves on to the closing bracket. -/
theorem parseElements_last {α : Type} {element : Cursor → Except Failure (α × Cursor)}
    {push : List α → α → List α} (fuel n : Nat) (out : List α) (s : Bytes) :
    parseElements element push (fuel + 1) out
        (skipComma (.inside (ascii "\n" ++ (spaces n ++ (ascii "]" ++ s))))) =
      .ok (out, .inside s) := by
  have hskip : skipComma (.inside (ascii "\n" ++ (spaces n ++ (ascii "]" ++ s)))) =
      .inside (ascii "]" ++ s) := by
    rw [← List.append_assoc]
    exact skipComma_gap s (blank_indent n) (by decide) (by decide)
  rw [hskip]
  exact parseElements_end fuel out s blank_nil

/-- The element loop over saved items folds `push` over the reloaded ones. -/
theorem parseElements_separated {α : Type} {element : Cursor → Except Failure (α × Cursor)}
    {push : List α → α → List α} {item : α → Bytes} {tail : α → Bytes → Bytes}
    {reload : α → Except Failure α} {k : Nat}
    (hitem : ∀ x s, item x ++ s = spaces k ++ (ascii "\x7b" ++ tail x s)) (n : Nat) (s : Bytes)
    (xs : List α)
    (hread : ∀ x ∈ xs, ∀ s,
      element (.inside (ascii "\x7b" ++ tail x s)) = (reload x).map (·, .inside s))
    (out : List α) {fuel : Nat} (hfuel : xs.length < fuel) :
    parseElements element push fuel out
        (.inside (ascii "\n" ++ (separated item xs ++ (spaces n ++ (ascii "]" ++ s))))) =
      (xs.foldlM (fun out x => (reload x).map (push out)) out).map (·, .inside s) := by
  induction xs generalizing out fuel with
  | nil =>
    obtain ⟨fuel, rfl⟩ := Nat.exists_eq_add_one.mpr (Nat.lt_of_le_of_lt (Nat.zero_le _) hfuel)
    simp only [separated, List.nil_append]
    rw [← List.append_assoc]
    exact parseElements_end fuel out s (blank_indent n)
  | cons x xs ih =>
    obtain ⟨fuel, rfl⟩ := Nat.exists_eq_add_one.mpr (Nat.lt_of_le_of_lt (Nat.zero_le _) hfuel)
    have hx := hread x (by simp)
    have hxs : ∀ y ∈ xs, ∀ s,
        element (.inside (ascii "\x7b" ++ tail y s)) = (reload y).map (·, .inside s) :=
      fun y hy => hread y (by simp [hy])
    have hlen : xs.length < fuel := by
      simpa using hfuel
    rw [List.foldlM_cons]
    cases xs with
    | nil =>
      obtain ⟨fuel, rfl⟩ := Nat.exists_eq_add_one.mpr hlen
      simp only [separated, List.append_assoc]
      rw [parseElements_item hitem, hx]
      cases reload x with
      | error e => rfl
      | ok y => exact parseElements_last fuel n (push out y) s
    | cons y xs =>
      simp only [separated, List.append_assoc]
      rw [parseElements_item hitem, hx]
      cases reload x with
      | error e => rfl
      | ok z =>
        simp only [ok_map, ok_bind, skipComma_line]
        exact ih hxs (push out z) hlen

theorem foldlM_pushBack {α : Type} (f : α → Except Failure α) (xs out : List α) :
    xs.foldlM (fun out x => (f x).map (pushBack out)) out = (xs.mapM f).map (out ++ ·) := by
  induction xs generalizing out with
  | nil => simp
  | cons x xs ih =>
    rw [List.foldlM_cons, List.mapM_cons]
    cases f x with
    | error e => rfl
    | ok y =>
      simp only [ok_map, ok_bind]
      rw [ih]
      cases xs.mapM f with
      | error e => rfl
      | ok ys => simp [pushBack]

/-- Reading the array of a rule's conditions or commands. -/
theorem parseArray_separated {α : Type} {element : Cursor → Except Failure (α × Cursor)}
    {item : α → Bytes} {tail : α → Bytes → Bytes}
    {reload : α → Except Failure α} {k : Nat}
    (hitem : ∀ x s, item x ++ s = spaces k ++ (ascii "\x7b" ++ tail x s)) (n : Nat) (s : Bytes)
    (xs : List α)
    (hread : ∀ x ∈ xs, ∀ s,
      element (.inside (ascii "\x7b" ++ tail x s)) = (reload x).map (·, .inside s))
    {bound : Nat} (hbound : xs.length < bound) :
    parseArray element pushBack bound
        (.inside (ascii "[\n" ++ (separated item xs ++ (spaces n ++ (ascii "]" ++ s))))) =
      (xs.mapM reload).map (·, .inside s) := by
  change parseArray element pushBack bound (.inside (ascii "[" ++ (ascii "\n" ++ _))) = _
  rw [parseArray_open, parseElements_separated hitem n s xs hread [] hbound, foldlM_pushBack]
  cases xs.mapM reload <;> rfl

/-! ### Rules -/

/-- A constant that is a number is finite: every numeral gives a finite one. -/
def FiniteConstant (c : RuleCondition) : Prop :=
  c.valueIsString = false → isFinite c.valueNumber = true

section

variable (bound : Nat) (r : Rule) (s : Bytes)

theorem ruleMember_id (n : UInt32) (hs : Separator s) :
    ruleMember bound (lower (ascii "id")) r (.inside (decimal n.toNat ++ s)) =
      .ok ({ r with id := n }, .inside s) := by
  exact read_member (parseUInt32_decimal n hs) fun n => { r with id := n }

theorem ruleMember_enabled (value : Bool) :
    ruleMember bound (lower (ascii "enabled")) r
        (.inside ((if value then ascii "true" else ascii "false") ++ s)) =
      .ok ({ r with enabled := value }, .inside s) := by
  change (parseJsonBool _ >>= fun read => orReject read >>= fun p =>
    pure ({ r with enabled := p.1 }, p.2)) = _
  rw [parseJsonBool_text, ok_bind]
  exact read_member rfl fun value => { r with enabled := value }

theorem ruleMember_name (name : Bytes) :
    ruleMember bound (lower (ascii "name")) r (.inside (quotedText name ++ s)) =
      .ok ({ r with name := name }, .inside s) := by
  have h : parseJsonString (.inside (quotedText name ++ s)) = (some name, .inside s) := by
    rw [quotedText, List.cons_append, List.append_assoc]
    exact parseJsonString_quoted name s blank_nil
  have hread : orReject (parseJsonString (.inside (quotedText name ++ s))) =
      .ok (name, .inside s) := by
    rw [h]
    rfl
  exact read_member hread fun name => { r with name := name }

/-- The text of an array member of a rule. -/
def arrayText {α : Type} (item : α → Bytes) (xs : List α) (s : Bytes) : Bytes :=
  ascii "[\n" ++ (separated item xs ++ (spaces 4 ++ (ascii "]" ++ s)))

theorem ruleMember_conditions (conditions : List RuleCondition)
    (hfinite : ∀ c ∈ conditions, FiniteConstant c) (hbound : conditions.length < bound + 6) :
    ruleMember (bound + 6) (lower (ascii "conditions")) r
        (.inside (arrayText saveCondition conditions s)) =
      (conditions.mapM reloadCondition).map fun conditions =>
        ({ r with conditions := conditions }, .inside s) := by
  have h := parseArray_separated saveCondition_append 4 s conditions
    (fun c hc s => parseRuleCondition_saved bound (hfinite c hc) s) hbound
  change (parseArray _ pushBack _ (.inside (ascii "[\n" ++ _)) >>= fun p =>
    pure ({ r with conditions := p.1 }, p.2)) = _
  rw [h]
  cases conditions.mapM reloadCondition <;> rfl

theorem ruleMember_commands (commands : List RuleCommand) (hbound : commands.length < bound + 4) :
    ruleMember (bound + 4) (lower (ascii "commands")) r
        (.inside (arrayText saveCommand commands s)) =
      (commands.mapM reloadCommand).map fun commands =>
        ({ r with commands := commands }, .inside s) := by
  have h := parseArray_separated saveCommand_append 4 s commands
    (fun c _ s => parseRuleCommand_saved bound c s) hbound
  change (parseArray _ pushBack _ (.inside (ascii "[\n" ++ _)) >>= fun p =>
    pure ({ r with commands := p.1 }, p.2)) = _
  rw [h]
  cases commands.mapM reloadCommand <;> rfl

/-- The text of a rule behind its opening brace. -/
def ruleTail : Bytes :=
  ascii "\n" ++
  memberText 4 "id" (decimal r.id.toNat ++ (ascii ",\n" ++
  memberText 4 "enabled" ((if r.enabled then ascii "true" else ascii "false") ++ (ascii ",\n" ++
  memberText 4 "name" (quotedText r.name ++ (ascii ",\n" ++
  memberText 4 "conditions" (arrayText saveCondition r.conditions (ascii ",\n" ++
  memberText 4 "commands" (arrayText saveCommand r.commands (ascii "\n" ++
  (spaces 2 ++ (ascii "\x7d" ++ s))))))))))))

theorem saveRule_append : saveRule r ++ s = spaces 2 ++ (ascii "\x7b" ++ ruleTail r s) := by
  simp only [saveRule, ruleTail, arrayText, List.append_assoc, memberText_append,
    show ascii "\x7b\n" = ascii "\x7b" ++ ascii "\n" by decide]

end

theorem parseRuleObject_saved (bound : Nat) {r : Rule}
    (hfinite : ∀ c ∈ r.conditions, FiniteConstant c)
    (hconditions : r.conditions.length < bound + 6) (hcommands : r.commands.length < bound + 6)
    (s : Bytes) :
    parseRuleObject (bound + 6) (.inside (ascii "\x7b" ++ ruleTail r s)) =
      (reloadRule r).map (·, .inside s) := by
  rw [parseRuleObject, parseObject_open, ruleTail,
    parseMembers_next _ _ _ (by decide) (ruleMember_id _ _ _ _ (separator_comma _)),
    parseMembers_next _ _ _ (by decide) (ruleMember_enabled _ _ _ _),
    parseMembers_next _ _ _ (by decide) (ruleMember_name _ _ _ _),
    parseMembers_memberText _ _ _ _ _ (by decide),
    ruleMember_conditions _ _ _ _ hfinite hconditions, reloadRule]
  cases r.conditions.mapM reloadCondition with
  | error e => rfl
  | ok conditions =>
    simp only [ok_map, ok_bind, skipComma_line]
    rw [parseMembers_memberText _ _ _ _ _ (by decide),
      ruleMember_commands (bound + 2) _ _ _ hcommands]
    cases r.commands.mapM reloadCommand with
    | error e => rfl
    | ok commands =>
      simp only [ok_map, ok_bind, pure_eq_ok]
      exact parseMembers_last _ _ _ s

/-! ### The file -/

theorem length_le_separated {α : Type} (item : α → Bytes) (xs : List α) :
    xs.length ≤ (separated item xs).length := by
  induction xs with
  | nil => simp
  | cons x xs ih =>
    cases xs with
    | nil => simp [separated, ascii]
    | cons y xs =>
      have hcomma : (ascii ",\n").length = 2 := by decide
      simp only [separated, List.length_append, List.length_cons] at ih ⊢
      omega

theorem length_item_le_separated {α : Type} (item : α → Bytes) {x : α} {xs : List α}
    (hx : x ∈ xs) : (item x).length ≤ (separated item xs).length := by
  induction xs with
  | nil => cases hx
  | cons y xs ih =>
    cases xs with
    | nil =>
      rw [List.mem_singleton] at hx
      simp [separated, hx]
    | cons z xs =>
      simp only [separated, List.length_append]
      rcases List.mem_cons.mp hx with rfl | hx
      · omega
      · have := ih hx
        omega

/-- Every list of a saved rule is shorter than the text of the rule. -/
theorem length_lists_le_saveRule (r : Rule) :
    r.conditions.length ≤ (saveRule r).length ∧ r.commands.length ≤ (saveRule r).length := by
  have hconditions := length_le_separated saveCondition r.conditions
  have hcommands := length_le_separated saveCommand r.commands
  simp only [saveRule, memberText, List.length_append, List.length_cons]
  omega

theorem foldlM_pushRule {rules : List Rule} (hid : ∀ r ∈ rules, r.id ≠ 0) (out : List Rule) :
    rules.foldlM (fun out r => (reloadRule r).map (pushRule out)) out =
      rules.foldlM (fun out r => (reloadRule r).map (pushBack out)) out := by
  induction rules generalizing out with
  | nil => rfl
  | cons r rules ih =>
    rw [List.foldlM_cons, List.foldlM_cons]
    have hpush : (reloadRule r).map (pushRule out) = (reloadRule r).map (pushBack out) := by
      simp only [reloadRule]
      cases r.conditions.mapM reloadCondition with
      | error e => rfl
      | ok conditions =>
        cases r.commands.mapM reloadCommand with
        | error e => rfl
        | ok commands => simp [pushRule, withRuleId, hid r (by simp)]
    rw [hpush]
    cases (reloadRule r).map (pushBack out) with
    | error e => rfl
    | ok out => exact ih (fun r hr => hid r (by simp [hr])) out

/-- Reading a saved list reloads its rules, one after the other. -/
theorem parseRulesArray_rulesFileText {rules : List Rule} (hid : ∀ r ∈ rules, r.id ≠ 0)
    (hfinite : ∀ r ∈ rules, ∀ c ∈ r.conditions, FiniteConstant c) :
    parseRulesArray (rulesFileText rules) = rules.mapM reloadRule := by
  have hlen : (separated saveRule rules).length + 4 = (rulesFileText rules).length := by
    have hopen : (ascii "[\n").length = 2 := by decide
    have hclose : (ascii "]\n").length = 2 := by decide
    simp only [rulesFileText, List.length_append]
    omega
  obtain ⟨bound, hbound⟩ : ∃ bound, loopBound (rulesFileText rules) = bound + 6 :=
    ⟨2 * (separated saveRule rules).length + 4, by rw [loopBound]; omega⟩
  have hread : ∀ r ∈ rules, ∀ s,
      parseRuleObject (bound + 6) (.inside (ascii "\x7b" ++ ruleTail r s)) =
        (reloadRule r).map (·, .inside s) := by
    intro r hr s
    have hlists := length_lists_le_saveRule r
    have hrule := length_item_le_separated saveRule hr
    rw [loopBound] at hbound
    exact parseRuleObject_saved bound (hfinite r hr) (by omega) (by omega) s
  have hrules : rules.length < bound + 6 := by
    have := length_le_separated saveRule rules
    rw [loopBound] at hbound
    omega
  have htext : rulesFileText rules =
      ascii "[" ++ (ascii "\n" ++ (separated saveRule rules ++
        (spaces 0 ++ (ascii "]" ++ ascii "\n")))) := by
    simp only [rulesFileText, List.append_assoc]
    rfl
  rw [parseRulesArray, hbound, htext, parseArray_open,
    parseElements_separated saveRule_append 0 (ascii "\n") rules hread [] hrules,
    foldlM_pushRule hid, foldlM_pushBack]
  cases rules.mapM reloadRule <;> rfl

end InverterMonitor.Rules
