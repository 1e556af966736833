import InverterMonitor.Server.JsonBounds
import InverterMonitor.Server.RuleStore

/-!
# Which rule files `loadRules` survives

`numericTexts` lists the texts that stand where the rule format has a number,
up to the first syntax error.  Proved here:

* `parseRulesArray_settles`: the parser follows the scan, so it throws exactly
  when some of these texts cannot be converted, and never runs out of rounds;
* `loadRules_harmless_iff`: loading is harmless exactly for the other files.
-/

namespace InverterMonitor.Rules
open Text Cxx Json

/-! ## The scan -/

/-- A text at a number's place, and the call that converts it. -/
inductive NumericText
  | stoul (text : Bytes)
  | stod (text : Bytes)
  deriving DecidableEq, Repr

def NumericText.convertible : NumericText → Bool
  | stoul text => (Cxx.stoul text).toBool
  | stod text => (Cxx.stod text).toBool

/-- The number texts met so far and, unless the syntax is broken, where to go on. -/
structure Scan (σ : Type) where
  texts : List NumericText
  next : Option (σ × Cursor)

namespace Scan

variable {σ τ : Type}

def found (st : σ) (c : Cursor) : Scan σ := ⟨[], some (st, c)⟩

def stop : Scan σ := ⟨[], none⟩

def andThen (x : Scan σ) (f : σ → Cursor → Scan τ) : Scan τ :=
  match x.next with
  | none => ⟨x.texts, none⟩
  | some (st, c) => ⟨x.texts ++ (f st c).texts, (f st c).next⟩

end Scan

def scanValue (texts : JsonText → List NumericText) (c : Cursor) : Scan JsonText :=
  match parseJsonValueAsString c with
  | .ok (value, c) => ⟨texts value, some (value, c)⟩
  | .error _ => .stop

def scanUInt32 (c : Cursor) : Scan JsonText := scanValue (fun value => [.stoul value.text]) c

def scanText (c : Cursor) : Scan JsonText := scanValue (fun _ => []) c

def scanSkip (bound : Nat) (c : Cursor) : Scan Unit :=
  match skipJsonValue bound c with
  | .ok c => .found () c
  | .error _ => .stop

def scanRead {α : Type} (read : Option α × Cursor) : Scan Unit :=
  match read with
  | (some _, c) => .found () c
  | (none, _) => .stop

def scanMembers {σ : Type} (member : Bytes → σ → Cursor → Scan σ) : Nat → σ → Cursor → Scan σ
  | 0, _, _ => .stop
  | fuel + 1, st, c =>
    let c := skipWhitespace c
    match c.rest with
    | [] => .stop
    | b :: _ =>
      if b = '}' then .found st c.advance
      else
        match parseJsonString c with
        | (none, _) => .stop
        | (some key, c) =>
          match consumeChar c ':' with
          | (false, _) => .stop
          | (true, c) =>
            (member (lower key) st c).andThen fun st c =>
              scanMembers member fuel st (skipComma c)

def scanObject {σ : Type} (member : Bytes → σ → Cursor → Scan σ) (bound : Nat) (st : σ)
    (c : Cursor) : Scan σ :=
  match consumeChar c '{' with
  | (false, _) => .stop
  | (true, c) => scanMembers member bound st c

def scanElements {σ : Type} (element : Cursor → Scan σ) : Nat → Cursor → Scan Unit
  | 0, _ => .stop
  | fuel + 1, c =>
    let c := skipWhitespace c
    match c.rest with
    | [] => .stop
    | b :: _ =>
      if b = ']' then .found () c.advance
      else (element c).andThen fun _ c => scanElements element fuel (skipComma c)

def scanArray {σ : Type} (element : Cursor → Scan σ) (bound : Nat) (c : Cursor) : Scan Unit :=
  match consumeChar c '[' with
  | (false, _) => .stop
  | (true, c) => scanElements element bound c

/-- A quoted value is a time of day, not a number, once the input type is time. -/
def valueTexts (inputType : ConditionInputType) (value : JsonText) : List NumericText :=
  if value.isString ∧ inputType = .time then [] else [.stod value.text]

def scanConditionMember (bound : Nat) (key : Bytes) (inputType : ConditionInputType) (c : Cursor) :
    Scan ConditionInputType :=
  if key = ascii "inputtype" then
    (scanText c).andThen fun value c => .found (parseConditionInputType value.text) c
  else if key = ascii "inputaddress" then (scanUInt32 c).andThen fun _ c => .found inputType c
  else if key = ascii "operator" then (scanText c).andThen fun _ c => .found inputType c
  else if key = ascii "valuetype" then (scanText c).andThen fun _ c => .found inputType c
  else if key = ascii "valueaddress" then (scanUInt32 c).andThen fun _ c => .found inputType c
  else if key = ascii "value" then
    (scanValue (valueTexts inputType) c).andThen fun _ c => .found inputType c
  else (scanSkip bound c).andThen fun _ c => .found inputType c

def scanCommandMember (bound : Nat) (key : Bytes) (_ : Unit) (c : Cursor) : Scan Unit :=
  if key = ascii "type" then (scanText c).andThen fun _ c => .found () c
  else if key = ascii "data" then (scanText c).andThen fun _ c => .found () c
  else if key = ascii "address" then (scanUInt32 c).andThen fun _ c => .found () c
  else (scanSkip bound c).andThen fun _ c => .found () c

def scanCondition (bound : Nat) (c : Cursor) : Scan ConditionInputType :=
  scanObject (scanConditionMember bound) bound .unknown c

def scanCommand (bound : Nat) (c : Cursor) : Scan Unit :=
  scanObject (scanCommandMember bound) bound () c

def scanBool (c : Cursor) : Scan Unit :=
  match parseJsonBool c with
  | .ok read => scanRead read
  | .error _ => .stop

def scanRuleMember (bound : Nat) (key : Bytes) (_ : Unit) (c : Cursor) : Scan Unit :=
  if key = ascii "id" then (scanUInt32 c).andThen fun _ c => .found () c
  else if key = ascii "enabled" then scanBool c
  else if key = ascii "name" then scanRead (parseJsonString c)
  else if key = ascii "conditions" then scanArray (scanCondition bound) bound c
  else if key = ascii "commands" then scanArray (scanCommand bound) bound c
  else (scanSkip bound c).andThen fun _ c => .found () c

def scanRule (bound : Nat) (c : Cursor) : Scan Unit :=
  scanObject (scanRuleMember bound) bound () c

/-- The texts at the places of numbers in a rule file. -/
def numericTexts (data : Bytes) : List NumericText :=
  (scanArray (scanRule (loopBound data)) (loopBound data) (.inside data)).texts

/-! ## The parser follows the scan -/

/-- A parser result and a scan that describe the same reading.  `limit` bounds
what is left of the text afterwards; `view` is what the scan keeps of a value. -/
inductive Settles {α σ : Type} (view : α → σ) (limit : Nat) :
    Except Failure (α × Cursor) → Scan σ → Prop
  | value {a : α} {c : Cursor} {texts : List NumericText} :
      (∀ t ∈ texts, t.convertible = true) → c.left ≤ limit →
      Settles view limit (.ok (a, c)) ⟨texts, some (view a, c)⟩
  | rejected {texts : List NumericText} :
      (∀ t ∈ texts, t.convertible = true) →
      Settles view limit (.error .rejected) ⟨texts, none⟩
  | raised {e : Exception} {texts : List NumericText} {next : Option (σ × Cursor)} :
      (∃ t ∈ texts, t.convertible = false) →
      Settles view limit (.error (.raised e)) ⟨texts, next⟩

namespace Settles

variable {α β σ τ : Type} {view : α → σ} {view' : β → τ} {limit limit' : Nat}

theorem mono {p : Except Failure (α × Cursor)} {s : Scan σ} (h : Settles view limit p s)
    (hle : limit ≤ limit') : Settles view limit' p s := by
  cases h with
  | value htexts hleft => exact .value htexts (le_trans hleft hle)
  | rejected htexts => exact .rejected htexts
  | raised htexts => exact .raised htexts

/-- Two readings one after the other. -/
theorem andThen {p : Except Failure (α × Cursor)} {s : Scan σ}
    {f : α × Cursor → Except Failure (β × Cursor)} {g : σ → Cursor → Scan τ}
    (h : Settles view limit p s)
    (hf : ∀ a c, c.left ≤ limit → Settles view' limit' (f (a, c)) (g (view a) c)) :
    Settles view' limit' (p >>= f) (s.andThen g) := by
  cases h with
  | value htexts hleft =>
    rename_i a c texts
    simp only [ok_bind, Scan.andThen]
    generalize hs : g (view a) c = s
    have hnext := hf a c hleft
    rw [hs] at hnext
    generalize f (a, c) = q at hnext
    cases hnext with
    | value hmore hleft =>
      refine .value (fun t ht => ?_) hleft
      rcases List.mem_append.mp ht with ht | ht
      · exact htexts t ht
      · exact hmore t ht
    | rejected hmore =>
      refine .rejected fun t ht => ?_
      rcases List.mem_append.mp ht with ht | ht
      · exact htexts t ht
      · exact hmore t ht
    | raised hmore =>
      obtain ⟨t, ht, hbad⟩ := hmore
      exact .raised ⟨t, List.mem_append_right _ ht, hbad⟩
  | rejected htexts => exact .rejected htexts
  | raised htexts =>
    rename_i texts next
    obtain ⟨t, ht, hbad⟩ := htexts
    cases next with
    | none => exact .raised ⟨t, ht, hbad⟩
    | some next => exact .raised ⟨t, List.mem_append_left _ ht, hbad⟩

/-- What is computed from a value read is not the scan's concern. -/
theorem map {p : Except Failure (α × Cursor)} {s : Scan σ} (h : Settles view limit p s)
    (view' : β → σ) (g : α → β) (hg : ∀ a, view' (g a) = view a) :
    Settles view' limit (do let (a, c) ← p; return (g a, c)) s := by
  cases h with
  | value htexts hleft =>
    rename_i a c texts
    rw [← hg a]
    exact .value htexts hleft
  | rejected htexts => exact .rejected htexts
  | raised htexts => exact .raised htexts

theorem found {a : α} {c : Cursor} (hleft : c.left ≤ limit) :
    Settles view limit (.ok (a, c)) (.found (view a) c) := .value (by simp) hleft

theorem stop : Settles view limit (.error .rejected) .stop := .rejected (by simp)

end Settles

section

variable {limit : Nat}

theorem scanText_settles (c : Cursor) :
    Settles id c.left (parseJsonValueAsString c) (scanText c) := by
  unfold scanText scanValue
  rcases parseJsonValueAsString_plain c with ⟨value, d, hread, hleft⟩ | hread
  · rw [hread]
    exact .found hleft
  · rw [hread]
    exact .stop

theorem scanUInt32_settles {σ : Type} (st : σ) (c : Cursor) :
    Settles (fun _ : UInt32 => st) c.left (parseUInt32 c)
      ((scanUInt32 c).andThen fun _ c => .found st c) := by
  unfold scanUInt32 scanValue parseUInt32
  rcases parseJsonValueAsString_plain c with ⟨value, d, hread, hleft⟩ | hread
  · rw [hread]
    simp only [ok_bind]
    cases hvalue : stoul value.text with
    | ok n =>
      refine .value (fun t ht => ?_) hleft
      have ht : t = .stoul value.text := by simpa [Scan.found] using ht
      simp [ht, NumericText.convertible, hvalue, Except.toBool]
    | error e =>
      refine .raised ⟨.stoul value.text, by simp, ?_⟩
      simp [NumericText.convertible, hvalue, Except.toBool]
  · rw [hread]
    exact .stop

theorem conditionValue_time {condition : RuleCondition} {value : JsonText}
    (hstring : value.isString = true) (htime : condition.inputType = .time) :
    ∃ x, conditionValue condition value = .ok
      { condition with valueIsString := true, valueString := value.text, valueNumber := x } := by
  unfold conditionValue stringValueNumber
  simp only [hstring, htime, ↓reduceIte]
  exact ⟨_, rfl⟩

/-- Other values are converted, and change nothing that later members look at. -/
theorem conditionValue_stod {condition : RuleCondition} {value : JsonText}
    (h : ¬(value.isString = true ∧ condition.inputType = .time)) :
    ∃ f : Float → RuleCondition, (∀ x, (f x).inputType = condition.inputType) ∧
      conditionValue condition value = (raise (stod value.text)).map f := by
  unfold conditionValue stringValueNumber
  cases hstring : value.isString with
  | true =>
    have hinput : condition.inputType ≠ .time := fun htime => h ⟨hstring, htime⟩
    refine ⟨fun x => { condition with
      valueIsString := true, valueString := value.text, valueNumber := x }, fun _ => rfl, ?_⟩
    simp only [↓reduceIte, hinput]
    cases stod value.text <;> rfl
  | false =>
    refine ⟨fun x => { condition with
      valueIsString := false, valueString := [], valueNumber := x }, fun _ => rfl, ?_⟩
    simp only [Bool.false_eq_true, ↓reduceIte]
    cases stod value.text <;> rfl

theorem scanValue_settles (condition : RuleCondition) (c : Cursor) :
    Settles RuleCondition.inputType c.left
      (do
        let (value, c) ← parseJsonValueAsString c
        return (← conditionValue condition value, c))
      ((scanValue (valueTexts condition.inputType) c).andThen fun _ c =>
        .found condition.inputType c) := by
  unfold scanValue
  rcases parseJsonValueAsString_plain c with ⟨value, d, hread, hleft⟩ | hread
  · rw [hread]
    simp only [ok_bind]
    by_cases htime : value.isString = true ∧ condition.inputType = .time
    · obtain ⟨x, hvalue⟩ := conditionValue_time htime.1 htime.2
      rw [hvalue, valueTexts, if_pos htime]
      exact .value (by simp [Scan.found]) hleft
    · obtain ⟨f, hf, hvalue⟩ := conditionValue_stod htime
      rw [hvalue, valueTexts, if_neg htime]
      cases hx : stod value.text with
      | ok x =>
        have hview := hf x
        rw [← hview]
        refine .value (fun t ht => ?_) hleft
        have ht : t = .stod value.text := by simpa [Scan.found] using ht
        simp [ht, NumericText.convertible, hx, Except.toBool]
      | error e =>
        refine .raised ⟨.stod value.text, by simp, ?_⟩
        simp [NumericText.convertible, hx, Except.toBool]
  · rw [hread]
    exact .stop

theorem scanSkip_settles {α σ : Type} (view : α → σ) (a : α) {bound : Nat} {c : Cursor}
    (h : 2 * c.left + 1 ≤ bound) :
    Settles view c.left (do return (a, ← skipJsonValue bound c))
      ((scanSkip bound c).andThen fun _ c => .found (view a) c) := by
  unfold scanSkip
  obtain ⟨d, hd, hleft⟩ := skipJsonValue_total h
  rw [hd]
  exact .found hleft

theorem scanRead_settles {α : Type} {read : Option α × Cursor}
    (h : ∀ a d, read = (some a, d) → d.left ≤ limit) :
    Settles (fun _ : α => ()) limit (orReject read) (scanRead read) := by
  obtain ⟨value, d⟩ := read
  cases value with
  | none => exact .stop
  | some a => exact .found (h a d rfl)

theorem conditionMember_settles {bound : Nat} (key : Bytes) (condition : RuleCondition)
    {c : Cursor} (h : 2 * c.left + 1 ≤ bound) :
    Settles RuleCondition.inputType c.left (conditionMember bound key condition c)
      (scanConditionMember bound key condition.inputType c) := by
  unfold conditionMember scanConditionMember
  split
  · exact (scanText_settles c).andThen fun value c hc => .found hc
  split
  · exact (scanUInt32_settles condition.inputType c).map
      RuleCondition.inputType (fun n => { condition with inputAddress := n }) fun _ => rfl
  split
  · exact (scanText_settles c).andThen fun value c hc => .found hc
  split
  · exact (scanText_settles c).andThen fun value c hc => .found hc
  split
  · exact (scanUInt32_settles condition.inputType c).map
      RuleCondition.inputType (fun n => { condition with valueInputAddress := n }) fun _ => rfl
  split
  · exact scanValue_settles condition c
  · exact scanSkip_settles RuleCondition.inputType condition h

theorem commandMember_settles {bound : Nat} (key : Bytes) (command : RuleCommand)
    {c : Cursor} (h : 2 * c.left + 1 ≤ bound) :
    Settles (fun _ : RuleCommand => ()) c.left (commandMember bound key command c)
      (scanCommandMember bound key () c) := by
  unfold commandMember scanCommandMember
  split
  · exact (scanText_settles c).andThen fun value c hc => .found hc
  split
  · exact (scanText_settles c).andThen fun value c hc => .found hc
  split
  · exact (scanUInt32_settles () c).map (fun _ => ())
      (fun n => { command with address := n }) fun _ => rfl
  · exact scanSkip_settles (fun _ => ()) command h

/-! ### The loops -/

variable {α σ : Type} {view : α → σ}

theorem parseMembers_settles
    {member : Bytes → α → Cursor → Except Failure (α × Cursor)}
    {smember : Bytes → σ → Cursor → Scan σ} {bound : Nat}
    (hmember : ∀ key st s, 2 * s.length + 1 ≤ bound →
      Settles view s.length (member key st (.inside s)) (smember key (view st) (.inside s)))
    {fuel : Nat} (st : α) {c : Cursor} (hfuel : c.left < fuel) (hbound : 2 * c.left + 1 ≤ bound) :
    Settles view c.left (parseMembers member fuel st c)
      (scanMembers smember fuel (view st) c) := by
  induction fuel generalizing st c with
  | zero => omega
  | succ fuel ih =>
    have hspace := left_skipWhitespace_le c
    unfold parseMembers scanMembers
    simp only
    cases hs : (skipWhitespace c).rest with
    | nil => exact .stop
    | cons b s =>
      simp only
      split
      · refine .found ?_
        rw [Cursor.left_advance]
        omega
      · cases hkey : parseJsonString (skipWhitespace c) with
        | mk key d =>
          cases key with
          | none => exact .stop
          | some key =>
            have hkeyleft := (parseJsonString_some hkey).2
            simp only [orReject, ok_bind]
            cases hcolon : consumeChar d ':' with
            | mk found e =>
              cases found with
              | false => exact .stop
              | true =>
                obtain ⟨⟨t, rfl⟩, hcolonleft⟩ := consumeChar_true hcolon
                rw [Cursor.left_inside] at hcolonleft
                refine (hmember (lower key) st t (by omega)).andThen fun st' f hf => ?_
                have hcomma := left_skipComma_le f
                exact (ih (c := skipComma f) st' (by omega) (by omega)).mono (by omega)

theorem parseObject_settles
    {member : Bytes → α → Cursor → Except Failure (α × Cursor)}
    {smember : Bytes → σ → Cursor → Scan σ} {bound : Nat}
    (hmember : ∀ key st s, 2 * s.length + 1 ≤ bound →
      Settles view s.length (member key st (.inside s)) (smember key (view st) (.inside s)))
    (st : α) {c : Cursor} (hbound : 2 * c.left + 1 ≤ bound) :
    Settles view (c.left - 1) (parseObject member bound st c)
      (scanObject smember bound (view st) c) := by
  unfold parseObject scanObject
  cases hopen : consumeChar c '{' with
  | mk found d =>
    cases found with
    | false => exact .stop
    | true =>
      have hopenleft := (consumeChar_true hopen).2
      exact (parseMembers_settles hmember st (by omega) (by omega)).mono (by omega)

theorem parseElements_settles {element : Cursor → Except Failure (α × Cursor)}
    {push : List α → α → List α} {selement : Cursor → Scan σ} {bound : Nat}
    (helement : ∀ c, 2 * c.left + 1 ≤ bound →
      Settles view (c.left - 1) (element c) (selement c))
    {fuel : Nat} (out : List α) {c : Cursor} (hfuel : c.left < fuel)
    (hbound : 2 * c.left + 1 ≤ bound) :
    Settles (fun _ => ()) c.left (parseElements element push fuel out c)
      (scanElements selement fuel c) := by
  induction fuel generalizing out c with
  | zero => omega
  | succ fuel ih =>
    have hspace := left_skipWhitespace_le c
    unfold parseElements scanElements
    simp only
    cases hs : (skipWhitespace c).rest with
    | nil => exact .stop
    | cons b s =>
      have hpos : 0 < (skipWhitespace c).left := by
        rw [Cursor.eq_inside_of_rest hs]
        simp
      simp only
      split
      · refine .found ?_
        rw [Cursor.left_advance]
        omega
      · refine (helement (skipWhitespace c) (by omega)).andThen fun x d hd => ?_
        have hcomma := left_skipComma_le d
        exact (ih (c := skipComma d) (push out x) (by omega) (by omega)).mono (by omega)

theorem parseArray_settles {element : Cursor → Except Failure (α × Cursor)}
    {push : List α → α → List α} {selement : Cursor → Scan σ} {bound : Nat}
    (helement : ∀ c, 2 * c.left + 1 ≤ bound →
      Settles view (c.left - 1) (element c) (selement c))
    {c : Cursor} (hbound : 2 * c.left + 1 ≤ bound) :
    Settles (fun _ => ()) c.left (parseArray element push bound c)
      (scanArray selement bound c) := by
  unfold parseArray scanArray
  cases hopen : consumeChar c '[' with
  | mk found d =>
    cases found with
    | false => exact .stop
    | true =>
      have hopenleft := (consumeChar_true hopen).2
      exact (parseElements_settles helement [] (by omega) (by omega)).mono (by omega)

theorem parseRuleCondition_settles {bound : Nat} (c : Cursor) (h : 2 * c.left + 1 ≤ bound) :
    Settles RuleCondition.inputType (c.left - 1) (parseRuleCondition bound c)
      (scanCondition bound c) :=
  parseObject_settles (fun key condition s => conditionMember_settles key condition (c := .inside s)) {} h

theorem parseRuleCommand_settles {bound : Nat} (c : Cursor) (h : 2 * c.left + 1 ≤ bound) :
    Settles (fun _ : RuleCommand => ()) (c.left - 1) (parseRuleCommand bound c)
      (scanCommand bound c) :=
  parseObject_settles (fun key command s => commandMember_settles key command (c := .inside s)) {} h

/-- The truth value of a rule is read behind a colon, hence inside the text. -/
theorem ruleMember_settles {bound : Nat} (key : Bytes) (rule : Rule) (s : Bytes)
    (h : 2 * s.length + 1 ≤ bound) :
    Settles (fun _ : Rule => ()) s.length (ruleMember bound key rule (.inside s))
      (scanRuleMember bound key () (.inside s)) := by
  unfold ruleMember scanRuleMember
  split
  · exact (scanUInt32_settles () (.inside s)).map (fun _ => ())
      (fun n => { rule with id := n }) fun _ => rfl
  split
  · obtain ⟨value, t, hread, hlen⟩ := parseJsonBool_inside s
    unfold scanBool
    rw [hread]
    refine (scanRead_settles fun a d hd => ?_).map (fun _ => ())
      (fun value => { rule with enabled := value }) fun _ => rfl
    obtain ⟨_, rfl⟩ := Prod.mk.inj hd
    exact hlen
  split
  · refine (scanRead_settles fun a d hd => ?_).map (fun _ => ())
      (fun name => { rule with name := name }) fun _ => rfl
    have := (parseJsonString_some hd).2
    simp only [Cursor.left_inside] at this
    omega
  split
  · exact (parseArray_settles (c := .inside s) parseRuleCondition_settles h).map (fun _ => ())
      (fun conditions => { rule with conditions := conditions }) fun _ => rfl
  split
  · exact (parseArray_settles (c := .inside s) parseRuleCommand_settles h).map (fun _ => ())
      (fun commands => { rule with commands := commands }) fun _ => rfl
  · exact scanSkip_settles (c := .inside s) (fun _ => ()) rule h

theorem parseRuleObject_settles {bound : Nat} (c : Cursor) (h : 2 * c.left + 1 ≤ bound) :
    Settles (fun _ : Rule => ()) (c.left - 1) (parseRuleObject bound c) (scanRule bound c) :=
  parseObject_settles (fun key rule s => ruleMember_settles key rule s) {} h

end

/-- A file is parsed, rejected, or makes a conversion throw. -/
theorem parseRulesArray_settles (data : Bytes) :
    ((∃ rules, parseRulesArray data = .ok rules) ∨ parseRulesArray data = .error .rejected) ∧
        (∀ t ∈ numericTexts data, t.convertible = true) ∨
      (∃ e, parseRulesArray data = .error (.raised e)) ∧
        ∃ t ∈ numericTexts data, t.convertible = false := by
  have hrule : ∀ c : Cursor, 2 * c.left + 1 ≤ loopBound data →
      Settles (fun _ : Rule => ()) (c.left - 1) (parseRuleObject (loopBound data) c)
        (scanRule (loopBound data) c) := parseRuleObject_settles
  have h : Settles (fun _ => ()) _ (parseArray (parseRuleObject (loopBound data)) pushRule
      (loopBound data) (.inside data)) _ := parseArray_settles hrule (by simp [loopBound])
  unfold parseRulesArray numericTexts
  generalize scanArray (scanRule (loopBound data)) (loopBound data) (.inside data) = scan at h
  generalize parseArray (parseRuleObject (loopBound data)) pushRule (loopBound data)
    (.inside data) = result at h
  cases h with
  | value htexts _ => exact Or.inl ⟨Or.inl ⟨_, rfl⟩, htexts⟩
  | rejected htexts => exact Or.inl ⟨Or.inr rfl, htexts⟩
  | raised htexts => exact Or.inr ⟨⟨_, rfl⟩, htexts⟩

theorem parseRulesArray_ne_diverged (data : Bytes) :
    parseRulesArray data ≠ .error .diverged := by
  rcases parseRulesArray_settles data with ⟨⟨rules, h⟩ | h, _⟩ | ⟨⟨e, h⟩, _⟩ <;> simp [h]

/-! ## Loading -/

/-- Loading replaces the store by the parsed list, or leaves it alone. -/
def LoadsHarmlessly (content : Bytes) (store : RuleStore) : Prop :=
  (∃ rules, parseRulesArray content = .ok rules ∧
      loadRules (some content) store = .ok (true, loadedStore rules)) ∨
    loadRules (some content) store = .ok (false, store)

theorem loadRules_harmless_iff (content : Bytes) (store : RuleStore) :
    LoadsHarmlessly content store ↔ ∀ t ∈ numericTexts content, t.convertible = true := by
  rcases parseRulesArray_settles content with ⟨⟨rules, h⟩ | h, htexts⟩ | ⟨⟨e, h⟩, t, ht, hbad⟩
  · exact iff_of_true (Or.inl ⟨rules, h, by simp [loadRules, h]⟩) htexts
  · exact iff_of_true (Or.inr (by simp [loadRules, h])) htexts
  · refine iff_of_false ?_ ?_
    · rintro (⟨rules, hrules, _⟩ | hload)
      · rw [h] at hrules
        cases hrules
      · simp [loadRules, h] at hload
    · intro hall
      rw [hall t ht] at hbad
      cases hbad

/-- An id that is no number is not caught anywhere. -/
theorem loadRules_raises :
    loadRules (some (ascii "[\x7b\"id\":\"pump\"\x7d]")) {} =
      .error (.raised .invalidArgument) := by
  have h : parseRulesArray (ascii "[\x7b\"id\":\"pump\"\x7d]") =
      .error (.raised .invalidArgument) := by decide +kernel
  simp only [loadRules, h]

end InverterMonitor.Rules
