import InverterMonitor.Server.LoadRules

/-!
# The positions of the rules parser

The parsers of `rules.hpp` on the whole text and a position, as the source has
them.  An access `data[pos]` outside the text and a `data.compare(pos, …)` from
behind its end are failures of their own, and so is a loop that goes on for more
rounds than `loopBound` allows.

* `parseRulesArray_matches`: the parsers do at every position what the readers
  of the rest of the text do;
* `parseRulesArray_in_range`: no such failure occurs.
-/

namespace InverterMonitor.Positions
open Text Cxx Json Rules

/-! ## Accesses -/

/-- How a parser ends without a result. -/
inductive Stop
  | rejected
  /-- `stoul` or `stod` throws. -/
  | raised (e : Exception)
  /-- `data[pos]` with `pos ≥ data.size()` -/
  | index
  /-- `data.compare(pos, …)` with `pos > data.size()` -/
  | compare
  | diverged
  deriving DecidableEq, Repr

def raise {α : Type} : Except Exception α → Except Stop α
  | .ok a => .ok a
  | .error e => .error (.raised e)

def orReject {α : Type} (r : Option α × Nat) : Except Stop (α × Nat) :=
  match r with
  | (some a, pos) => .ok (a, pos)
  | (none, _) => .error .rejected

section

variable (data : Bytes)

def byteAt (pos : Nat) : Except Stop Byte :=
  match data[pos]? with
  | some b => .ok b
  | none => .error .index

/-- `data.compare(pos, word.size(), word) == 0` -/
def compareAt (pos : Nat) (word : Bytes) : Except Stop Bool :=
  if data.length < pos then .error .compare else .ok (word.isPrefixOf (data.drop pos))

/-- `pos < data.size() && p(data[pos])` -/
def holdsAt (p : Byte → Bool) (pos : Nat) : Except Stop Bool :=
  if pos < data.length then do return p (← byteAt data pos) else .ok false

/-- `while (pos < data.size() && p(data[pos])) { ++pos; }` -/
def skipWhile (p : Byte → Bool) : Nat → Nat → Except Stop Nat
  | 0, _ => .error .diverged
  | rounds + 1, pos => do
    if ← holdsAt data p pos then skipWhile p rounds (pos + 1) else return pos

/-! ## Scanners -/

def skipWhitespace (pos : Nat) : Except Stop Nat := skipWhile data isSpace (loopBound data) pos

def consumeChar (pos : Nat) (expected : Byte) : Except Stop (Bool × Nat) := do
  let pos ← skipWhitespace data pos
  if ← holdsAt data (· == expected) pos then return (true, pos + 1) else return (false, pos)

/-- The loop of `parseJsonString`. -/
def stringLoop : Nat → Nat → Except Stop (Option Bytes × Nat)
  | 0, _ => .error .diverged
  | rounds + 1, pos => do
    if pos < data.length then
      let c ← byteAt data pos
      if c = '"' then return (some [], pos + 1)
      else if c = '\\' ∧ pos + 1 < data.length then
        let escaped ← byteAt data (pos + 1)
        let (out, pos) ← stringLoop rounds (pos + 2)
        return (out.map (unescape escaped :: ·), pos)
      else
        let (out, pos) ← stringLoop rounds (pos + 1)
        return (out.map (c :: ·), pos)
    else return (none, pos)

def parseJsonString (pos : Nat) : Except Stop (Option Bytes × Nat) := do
  let pos ← skipWhitespace data pos
  if ← holdsAt data (· == '"') pos then stringLoop data (loopBound data) (pos + 1)
  else return (none, pos)

/-- An optional sign. -/
def skipSign (pos : Nat) : Except Stop Nat := do
  if ← holdsAt data isSign pos then return pos + 1 else return pos

/-- Whether there are digits, and where they end. -/
def skipDigits (pos : Nat) : Except Stop (Bool × Nat) := do
  let stop ← skipWhile data isDigit (loopBound data) pos
  return (pos < stop, stop)

/-- A point and digits; whether there are digits. -/
def skipFraction (pos : Nat) : Except Stop (Bool × Nat) := do
  if ← holdsAt data (· == '.') pos then skipDigits data (pos + 1) else return (false, pos)

/-- An optional exponent; whether it has digits. -/
def skipExponent (pos : Nat) : Except Stop (Bool × Nat) := do
  if ← holdsAt data (fun b => b == 'e' || b == 'E') pos then
    skipDigits data (← skipSign data (pos + 1))
  else return (true, pos)

def parseJsonNumberAsString (pos : Nat) : Except Stop (Option Bytes × Nat) := do
  let start ← skipWhitespace data pos
  let (hasWhole, pos) ← skipDigits data (← skipSign data start)
  let (hasFraction, pos) ← skipFraction data pos
  if !(hasWhole || hasFraction) then return (none, pos)
  let (complete, pos) ← skipExponent data pos
  return (if complete then some ((data.drop start).take (pos - start)) else none, pos)

def parseJsonBool (pos : Nat) : Except Stop (Option Bool × Nat) := do
  let pos ← skipWhitespace data pos
  if ← compareAt data pos (ascii "true") then return (some true, pos + 4)
  if ← compareAt data pos (ascii "false") then return (some false, pos + 5)
  return (none, pos)

def parseJsonValueAsString (pos : Nat) : Except Stop (JsonText × Nat) := do
  let pos ← skipWhitespace data pos
  if data.length ≤ pos then throw .rejected
  let b ← byteAt data pos
  if b = '"' then
    let (out, pos) ← orReject (← parseJsonString data pos)
    return (⟨out, true⟩, pos)
  else if isNumberStart b then
    let (out, pos) ← orReject (← parseJsonNumberAsString data pos)
    return (⟨out, false⟩, pos)
  else
    match ← parseJsonBool data pos with
    | (some value, pos) => return (⟨if value then ascii "true" else ascii "false", false⟩, pos)
    | (none, pos) =>
      if ← compareAt data pos (ascii "null") then return (⟨[], false⟩, pos + 4)
      throw .rejected

/-! ## Skipping a value -/

mutual

def skipJsonValue : Nat → Nat → Except Stop Nat
  | 0, _ => .error .diverged
  | rounds + 1, pos => do
    let pos ← skipWhitespace data pos
    if data.length ≤ pos then return pos
    let b ← byteAt data pos
    if b = '{' then skipElements '}' rounds (pos + 1)
    else if b = '[' then skipElements ']' rounds (pos + 1)
    else if b = '"' then return (← parseJsonString data pos).2
    else if (← compareAt data pos (ascii "true")) || (← compareAt data pos (ascii "false")) ||
        (← compareAt data pos (ascii "null")) then
      let (_, pos) ← parseJsonBool data pos
      if ← compareAt data pos (ascii "null") then return pos + 4
      return pos
    else
      match ← parseJsonNumberAsString data pos with
      | (some _, pos) => return pos
      | (none, pos) => return pos + 1

/-- The loop over the inside of an object or an array that ends with `close`. -/
def skipElements (close : Byte) : Nat → Nat → Except Stop Nat
  | 0, _ => .error .diverged
  | rounds + 1, pos => do
    if data.length ≤ pos then return pos
    let pos ← skipWhitespace data (← skipJsonValue rounds pos)
    if ← holdsAt data (· == ',') pos then skipElements close rounds (pos + 1)
    else if ← holdsAt data (· == close) pos then return pos + 1
    else skipElements close rounds (pos + 1)

end

/-! ## Loops over members and elements -/

def skipComma (pos : Nat) : Except Stop Nat := do return (← consumeChar data pos ',').2

def parseMembers {σ : Type} (member : Bytes → σ → Nat → Except Stop (σ × Nat)) :
    Nat → σ → Nat → Except Stop (σ × Nat)
  | 0, _, _ => .error .diverged
  | rounds + 1, s, pos => do
    let pos ← skipWhitespace data pos
    if data.length ≤ pos then throw .rejected
    if (← byteAt data pos) = '}' then return (s, pos + 1)
    let (key, pos) ← orReject (← parseJsonString data pos)
    match ← consumeChar data pos ':' with
    | (false, _) => throw .rejected
    | (true, pos) =>
      let (s, pos) ← member (lower key) s pos
      parseMembers member rounds s (← skipComma data pos)

def parseObject {σ : Type} (member : Bytes → σ → Nat → Except Stop (σ × Nat)) (s : σ)
    (pos : Nat) : Except Stop (σ × Nat) := do
  match ← consumeChar data pos '{' with
  | (false, _) => throw .rejected
  | (true, pos) => parseMembers data member (loopBound data) s pos

def parseElements {α : Type} (element : Nat → Except Stop (α × Nat))
    (push : List α → α → List α) : Nat → List α → Nat → Except Stop (List α × Nat)
  | 0, _, _ => .error .diverged
  | rounds + 1, out, pos => do
    let pos ← skipWhitespace data pos
    if data.length ≤ pos then throw .rejected
    if (← byteAt data pos) = ']' then return (out, pos + 1)
    let (x, pos) ← element pos
    parseElements element push rounds (push out x) (← skipComma data pos)

def parseArray {α : Type} (element : Nat → Except Stop (α × Nat)) (push : List α → α → List α)
    (pos : Nat) : Except Stop (List α × Nat) := do
  match ← consumeChar data pos '[' with
  | (false, _) => throw .rejected
  | (true, pos) => parseElements data element push (loopBound data) [] pos

/-! ## Parsers -/

def parseUInt32 (pos : Nat) : Except Stop (UInt32 × Nat) := do
  let (value, pos) ← parseJsonValueAsString data pos
  let n ← raise (stoul value.text)
  return (n.toUInt32, pos)

def conditionValue (condition : RuleCondition) (value : JsonText) :
    Except Stop RuleCondition := do
  if value.isString then
    let number ← raise (stringValueNumber condition.inputType value.text)
    return { condition with
      valueIsString := true, valueString := value.text, valueNumber := number }
  else
    let number ← raise (stod value.text)
    return { condition with valueIsString := false, valueString := [], valueNumber := number }

def conditionMember (key : Bytes) (condition : RuleCondition) (pos : Nat) :
    Except Stop (RuleCondition × Nat) := do
  if key = ascii "inputtype" then
    let (value, pos) ← parseJsonValueAsString data pos
    return ({ condition with inputType := parseConditionInputType value.text }, pos)
  else if key = ascii "inputaddress" then
    let (n, pos) ← parseUInt32 data pos
    return ({ condition with inputAddress := n }, pos)
  else if key = ascii "operator" then
    let (value, pos) ← parseJsonValueAsString data pos
    return ({ condition with op := parseConditionOperator value.text }, pos)
  else if key = ascii "valuetype" then
    let (value, pos) ← parseJsonValueAsString data pos
    return ({ condition with valueInputType := parseConditionInputType value.text }, pos)
  else if key = ascii "valueaddress" then
    let (n, pos) ← parseUInt32 data pos
    return ({ condition with valueInputAddress := n }, pos)
  else if key = ascii "value" then
    let (value, pos) ← parseJsonValueAsString data pos
    return (← conditionValue condition value, pos)
  else return (condition, ← skipJsonValue data (loopBound data) pos)

def commandMember (key : Bytes) (command : RuleCommand) (pos : Nat) :
    Except Stop (RuleCommand × Nat) := do
  if key = ascii "type" then
    let (value, pos) ← parseJsonValueAsString data pos
    return ({ command with type := parseCommandType value.text }, pos)
  else if key = ascii "data" then
    let (value, pos) ← parseJsonValueAsString data pos
    return ({ command with data := value.text }, pos)
  else if key = ascii "address" then
    let (n, pos) ← parseUInt32 data pos
    return ({ command with address := n }, pos)
  else return (command, ← skipJsonValue data (loopBound data) pos)

def parseRuleCondition (pos : Nat) : Except Stop (RuleCondition × Nat) :=
  parseObject data (conditionMember data) {} pos

def parseRuleCommand (pos : Nat) : Except Stop (RuleCommand × Nat) :=
  parseObject data (commandMember data) {} pos

def ruleMember (key : Bytes) (rule : Rule) (pos : Nat) : Except Stop (Rule × Nat) := do
  if key = ascii "id" then
    let (n, pos) ← parseUInt32 data pos
    return ({ rule with id := n }, pos)
  else if key = ascii "enabled" then
    let (value, pos) ← orReject (← parseJsonBool data pos)
    return ({ rule with enabled := value }, pos)
  else if key = ascii "name" then
    let (value, pos) ← orReject (← parseJsonString data pos)
    return ({ rule with name := value }, pos)
  else if key = ascii "conditions" then
    let (conditions, pos) ← parseArray data (parseRuleCondition data) pushBack pos
    return ({ rule with conditions := conditions }, pos)
  else if key = ascii "commands" then
    let (commands, pos) ← parseArray data (parseRuleCommand data) pushBack pos
    return ({ rule with commands := commands }, pos)
  else return (rule, ← skipJsonValue data (loopBound data) pos)

def parseRuleObject (pos : Nat) : Except Stop (Rule × Nat) :=
  parseObject data (ruleMember data) {} pos

def parseRulesArray : Except Stop (List Rule) := do
  let pos ← skipWhitespace data 0
  return (← parseArray data (parseRuleObject data) pushRule pos).1

end

/-! ## Positions and the rest of the text -/

/-- The rest of the text from a position on. -/
def cursorAt (data : Bytes) (pos : Nat) : Cursor :=
  if pos ≤ data.length then .inside (data.drop pos) else .beyond (pos - data.length - 1)

section

variable {data : Bytes} {pos : Nat}

theorem cursorAt_inside (h : pos ≤ data.length) : cursorAt data pos = .inside (data.drop pos) :=
  if_pos h

theorem byteAt_lt (h : pos < data.length) :
    ∃ b, byteAt data pos = .ok b ∧ data.drop pos = b :: data.drop (pos + 1) := by
  refine ⟨data[pos], ?_, List.drop_eq_getElem_cons h⟩
  rw [byteAt, List.getElem?_eq_getElem h]

theorem rest_cursorAt (data : Bytes) (pos : Nat) : (cursorAt data pos).rest = data.drop pos := by
  unfold cursorAt
  split
  · rfl
  · rw [Cursor.rest_beyond, List.drop_eq_nil_of_le (by omega)]

theorem cursorAt_succ (data : Bytes) (pos : Nat) :
    cursorAt data (pos + 1) = (cursorAt data pos).advance := by
  by_cases hpos : pos < data.length
  · obtain ⟨b, _, hdrop⟩ := byteAt_lt hpos
    rw [cursorAt_inside hpos, cursorAt_inside (Nat.le_of_lt hpos), hdrop, Cursor.advance_cons]
  · have hbeyond : cursorAt data (pos + 1) = .beyond (pos - data.length) := by
      rw [cursorAt, if_neg (by omega)]
      congr 1
      omega
    rw [hbeyond]
    rcases Nat.eq_or_lt_of_le (Nat.not_lt.mp hpos) with heq | hlt
    · rw [cursorAt_inside (by omega), List.drop_eq_nil_of_le (by omega), ← heq, Nat.sub_self]
      rfl
    · rw [cursorAt, if_neg (by omega), Cursor.advance]
      congr 1
      omega

theorem cursorAt_add (data : Bytes) (pos n : Nat) :
    cursorAt data (pos + n) = skipBytes (cursorAt data pos) n := by
  induction n generalizing pos with
  | zero => rfl
  | succ n ih =>
    rw [skipBytes, Function.iterate_succ_apply, ← cursorAt_succ, ← skipBytes, ← ih,
      Nat.add_right_comm, Nat.add_assoc]

theorem rest_eq_nil_iff : (cursorAt data pos).rest = [] ↔ data.length ≤ pos := by
  rw [rest_cursorAt, List.drop_eq_nil_iff]

/-- No guarded access fails. -/
theorem holdsAt_eq (p : Byte → Bool) (data : Bytes) (pos : Nat) :
    holdsAt data p pos = .ok ((data.drop pos).head?.any p) := by
  unfold holdsAt
  split
  · next hpos =>
    obtain ⟨b, hb, hdrop⟩ := byteAt_lt hpos
    rw [hb, hdrop]
    rfl
  · next hpos =>
    rw [List.drop_eq_nil_of_le (Nat.not_lt.mp hpos)]
    rfl

theorem compareAt_eq (h : pos ≤ data.length) (word : Bytes) :
    compareAt data pos word = .ok (word.isPrefixOf (data.drop pos)) :=
  if_neg (Nat.not_lt.mpr h)

/-! ## Scanners -/

/-- `token` stands at `pos` and ends at `pos'`. -/
structure Spans (data : Bytes) (pos : Nat) (token : Bytes) (pos' : Nat) : Prop where
  text : data.drop pos = token ++ data.drop pos'
  length : pos' = pos + token.length
  inside : pos' ≤ data.length

theorem spans_of_drop {token rest : Bytes} (hpos : pos ≤ data.length)
    (h : data.drop pos = token ++ rest) :
    Spans data pos token (pos + token.length) ∧ data.drop (pos + token.length) = rest := by
  have hrest : data.drop (pos + token.length) = rest := by
    rw [← List.drop_drop, h, List.drop_left]
  have hlength := congrArg List.length h
  rw [List.length_drop, List.length_append] at hlength
  exact ⟨⟨by rw [hrest, h], rfl, by omega⟩, hrest⟩

theorem Spans.append {token token' : Bytes} {pos' pos'' : Nat} (h : Spans data pos token pos')
    (h' : Spans data pos' token' pos'') : Spans data pos (token ++ token') pos'' := by
  refine ⟨?_, ?_, h'.inside⟩
  · rw [h.text, h'.text, List.append_assoc]
  · rw [h'.length, h.length, List.length_append]
    omega

theorem Spans.take {token : Bytes} {pos' : Nat} (h : Spans data pos token pos') :
    (data.drop pos).take (pos' - pos) = token := by
  rw [h.text, h.length, Nat.add_sub_cancel_left, List.take_left]

/-- The loop takes what it can, in at most one round for each byte. -/
theorem skipWhile_spans (p : Byte → Bool) {rounds : Nat} (hpos : pos ≤ data.length)
    (hrounds : data.length - pos < rounds) :
    ∃ pos', skipWhile data p rounds pos = .ok pos' ∧
      Spans data pos ((data.drop pos).takeWhile p) pos' ∧
      data.drop pos' = (data.drop pos).dropWhile p := by
  induction rounds generalizing pos with
  | zero => omega
  | succ rounds ih =>
    by_cases hend : pos < data.length
    · obtain ⟨b, _, hdrop⟩ := byteAt_lt hend
      simp only [skipWhile, holdsAt_eq, hdrop, List.head?_cons, Option.any_some, ok_bind]
      cases hp : p b with
      | true =>
        obtain ⟨pos', hskip, hspans, hrest⟩ := @ih (pos + 1) (by omega) (by omega)
        refine ⟨pos', hskip, ⟨?_, ?_, hspans.inside⟩, ?_⟩
        · rw [List.takeWhile_cons_of_pos hp, List.cons_append, ← hspans.text, hdrop]
        · rw [List.takeWhile_cons_of_pos hp, List.length_cons, hspans.length]
          omega
        · rw [List.dropWhile_cons_of_pos hp, hrest]
      | false =>
        refine ⟨pos, rfl, ⟨?_, ?_, hpos⟩, ?_⟩
        · rw [List.takeWhile_cons_of_neg (by simp [hp])]
          rfl
        · rw [List.takeWhile_cons_of_neg (by simp [hp])]
          rfl
        · rw [List.dropWhile_cons_of_neg (by simp [hp]), hdrop]
    · have hnil : data.drop pos = [] := List.drop_eq_nil_of_le (by omega)
      refine ⟨pos, ?_, ⟨?_, ?_, hpos⟩, ?_⟩
      · simp only [skipWhile, holdsAt_eq, hnil]
        rfl
      all_goals simp [hnil]

theorem loopBound_gt (data : Bytes) (pos : Nat) : data.length - pos < loopBound data := by
  unfold loopBound
  omega

/-- A scanner that ends at the position of a cursor. -/
def Scans {α : Type} (data : Bytes) (x : Except Stop (α × Nat)) (y : α × Cursor) : Prop :=
  ∃ pos', x = .ok (y.1, pos') ∧ cursorAt data pos' = y.2

theorem skipWhitespace_scans (data : Bytes) (pos : Nat) :
    ∃ pos', skipWhitespace data pos = .ok pos' ∧
      cursorAt data pos' = Json.skipWhitespace (cursorAt data pos) := by
  by_cases hpos : pos ≤ data.length
  · obtain ⟨pos', hskip, hspans, hrest⟩ := skipWhile_spans isSpace hpos (loopBound_gt data pos)
    refine ⟨pos', hskip, ?_⟩
    rw [cursorAt_inside hspans.inside, cursorAt_inside hpos, hrest]
    rfl
  · refine ⟨pos, ?_, ?_⟩
    · simp only [skipWhitespace, loopBound, skipWhile, holdsAt_eq,
        List.drop_eq_nil_of_le (Nat.le_of_not_le hpos)]
      rfl
    · rw [cursorAt, if_neg hpos]
      rfl

/-- A cursor inside the text is at a position inside. -/
theorem le_length_of_inside {s : Bytes} (h : cursorAt data pos = .inside s) :
    pos ≤ data.length := by
  unfold cursorAt at h
  split at h
  · assumption
  · cases h

theorem consumeChar_scans (data : Bytes) (pos : Nat) (expected : Byte) :
    Scans data (consumeChar data pos expected)
      (Json.consumeChar (cursorAt data pos) expected) := by
  obtain ⟨pos', hskip, hcursor⟩ := skipWhitespace_scans data pos
  have hhead : (data.drop pos').head?.any (· == expected) = true ↔
      (Json.skipWhitespace (cursorAt data pos)).rest.head? = some expected := by
    rw [← hcursor, rest_cursorAt]
    cases (data.drop pos').head? <;> simp
  simp only [consumeChar, Json.consumeChar, hskip, holdsAt_eq, ok_bind]
  split
  · next h =>
    rw [if_pos (hhead.mp h)]
    exact ⟨pos' + 1, rfl, by rw [cursorAt_succ, hcursor]⟩
  · next h =>
    rw [if_neg (mt hhead.mpr h)]
    exact ⟨pos', rfl, hcursor⟩

theorem skipComma_scans (data : Bytes) (pos : Nat) :
    ∃ pos', skipComma data pos = .ok pos' ∧
      cursorAt data pos' = Json.skipComma (cursorAt data pos) := by
  obtain ⟨pos', hconsume, hcursor⟩ := consumeChar_scans data pos ','
  refine ⟨pos', ?_, hcursor⟩
  rw [skipComma, hconsume]
  rfl

theorem stringLoop_scans {rounds : Nat} (hpos : pos ≤ data.length)
    (hrounds : data.length - pos < rounds) :
    ∃ pos', stringLoop data rounds pos = .ok ((stringBody (data.drop pos)).1, pos') ∧
      pos' ≤ data.length ∧ data.drop pos' = (stringBody (data.drop pos)).2 := by
  induction rounds generalizing pos with
  | zero => omega
  | succ rounds ih =>
    by_cases hend : pos < data.length
    · obtain ⟨c, hc, hdrop⟩ := byteAt_lt hend
      simp only [stringLoop, if_pos hend, hc, ok_bind, hdrop]
      by_cases hquote : c = '"'
      · rw [hquote, stringBody_quote]
        exact ⟨pos + 1, rfl, hend, rfl⟩
      rw [if_neg hquote]
      by_cases hescape : c = '\\'
      · by_cases hnext : pos + 1 < data.length
        · obtain ⟨escaped, hescaped, hdrop'⟩ := byteAt_lt hnext
          obtain ⟨pos', hloop, hinside, hrest⟩ :=
            @ih (pos + 2) hnext (by omega)
          rw [if_pos ⟨hescape, hnext⟩, hescaped, hdrop', hescape, stringBody_escape]
          simp only [ok_bind, hloop]
          exact ⟨pos', rfl, hinside, hrest⟩
        · have hnil : data.drop (pos + 1) = [] := List.drop_eq_nil_of_le (by omega)
          obtain ⟨pos', hloop, hinside, hrest⟩ :=
            @ih (pos + 1) hend (by omega)
          rw [hnil] at hloop hrest
          rw [if_neg (fun h => hnext h.2), hnil, hescape]
          simp only [ok_bind, hloop]
          exact ⟨pos', rfl, hinside, hrest⟩
      · obtain ⟨pos', hloop, hinside, hrest⟩ :=
          @ih (pos + 1) hend (by omega)
        rw [if_neg (fun h => hescape h.1), stringBody_plain _ hquote hescape]
        simp only [ok_bind, hloop]
        exact ⟨pos', rfl, hinside, hrest⟩
    · have hnil : data.drop pos = [] := List.drop_eq_nil_of_le (by omega)
      refine ⟨pos, ?_, hpos, ?_⟩
      · simp only [stringLoop, if_neg hend, hnil]
        rfl
      · rw [hnil]
        rfl

theorem parseJsonString_scans (data : Bytes) (pos : Nat) :
    Scans data (parseJsonString data pos) (Json.parseJsonString (cursorAt data pos)) := by
  obtain ⟨pos', hskip, hcursor⟩ := skipWhitespace_scans data pos
  simp only [parseJsonString, Json.parseJsonString, hskip, ok_bind, holdsAt_eq, ← hcursor]
  by_cases hend : pos' < data.length
  · obtain ⟨b, _, hdrop⟩ := byteAt_lt hend
    rw [cursorAt_inside (Nat.le_of_lt hend), hdrop]
    by_cases hquote : b = '"'
    · obtain ⟨pos'', hloop, hinside, hrest⟩ :=
        @stringLoop_scans data (pos' + 1) (loopBound data) hend (loopBound_gt data _)
      simp only [List.head?_cons, Option.any_some, hquote, beq_self_eq_true, ↓reduceIte]
      exact ⟨pos'', hloop, by rw [cursorAt_inside hinside, hrest]⟩
    · have hfalse : (b == '"') = false := by simpa using hquote
      simp only [List.head?_cons, Option.any_some, hfalse, Bool.false_eq_true, if_neg hquote,
        ↓reduceIte]
      exact ⟨pos', rfl, by rw [cursorAt_inside (Nat.le_of_lt hend), hdrop]⟩
  · have hnil : data.drop pos' = [] := List.drop_eq_nil_of_le (by omega)
    have hrest := rest_cursorAt data pos'
    rw [hnil] at hrest ⊢
    refine ⟨pos', ?_, ?_⟩
    · cases hc : cursorAt data pos' with
      | inside s =>
        rw [hc, Cursor.rest_inside] at hrest
        rw [hrest]
        rfl
      | beyond n => rfl
    · cases hc : cursorAt data pos' with
      | inside s =>
        rw [hc, Cursor.rest_inside] at hrest
        rw [hrest]
      | beyond n => rfl

/-! ### Numbers -/

theorem skipSign_spans (hpos : pos ≤ data.length) :
    ∃ pos', skipSign data pos = .ok pos' ∧ Spans data pos (signToken (data.drop pos)).1 pos' ∧
      data.drop pos' = (signToken (data.drop pos)).2 := by
  obtain ⟨hspans, hrest⟩ := spans_of_drop hpos (signToken_sound (data.drop pos)).2
  refine ⟨_, ?_, hspans, hrest⟩
  simp only [skipSign, holdsAt_eq, ok_bind]
  cases data.drop pos with
  | nil => rfl
  | cons b s =>
    by_cases hb : b = '-' ∨ b = '+'
    · have hsign : isSign b = true := by simpa [isSign] using hb
      simp [signToken, hb, hsign]
    · have hsign : isSign b = false := by simpa [isSign] using hb
      simp [signToken, hb, hsign]

theorem skipDigits_spans (hpos : pos ≤ data.length) :
    ∃ pos', skipDigits data pos = .ok (decide (digitsOf (data.drop pos) ≠ []), pos') ∧
      Spans data pos (digitsOf (data.drop pos)) pos' ∧
      data.drop pos' = afterDigits (data.drop pos) := by
  obtain ⟨pos', hskip, hspans, hrest⟩ := skipWhile_spans isDigit hpos (loopBound_gt data pos)
  refine ⟨pos', ?_, hspans, hrest⟩
  have hsome : pos < pos' ↔ digitsOf (data.drop pos) ≠ [] := by
    rw [hspans.length, ← List.length_pos_iff]
    unfold digitsOf
    omega
  simp only [skipDigits, hskip, ok_bind, decide_eq_decide.mpr hsome, pure_eq_ok]

theorem skipFraction_spans (hpos : pos ≤ data.length) :
    ∃ pos', skipFraction data pos =
        .ok (decide ((fractionToken (data.drop pos)).1.tail ≠ []), pos') ∧
      Spans data pos (fractionToken (data.drop pos)).1 pos' ∧
      data.drop pos' = (fractionToken (data.drop pos)).2 := by
  obtain ⟨hspans, hrest⟩ := spans_of_drop hpos (fractionToken_sound (data.drop pos)).2
  refine ⟨_, ?_, hspans, hrest⟩
  simp only [skipFraction, holdsAt_eq, ok_bind]
  by_cases hend : pos < data.length
  · obtain ⟨b, _, hdrop⟩ := byteAt_lt hend
    rw [hdrop]
    by_cases hpoint : b = '.'
    · obtain ⟨pos', hskip, hdigits, _⟩ := @skipDigits_spans data (pos + 1) hend
      have hlength := hdigits.length
      simp only [List.head?_cons, Option.any_some, hpoint, beq_self_eq_true, ↓reduceIte, hskip,
        fractionToken, List.tail_cons, List.length_cons]
      congr 2
      omega
    · have hfalse : (b == '.') = false := by simpa using hpoint
      simp [fractionToken, hpoint, hfalse]
  · rw [List.drop_eq_nil_of_le (by omega)]
    rfl

theorem skipExponent_spans (hpos : pos ≤ data.length) :
    ∃ pos', skipExponent data pos = .ok ((exponentToken (data.drop pos)).1.isSome, pos') ∧
      pos' ≤ data.length ∧ data.drop pos' = (exponentToken (data.drop pos)).2 ∧
      ∀ token, (exponentToken (data.drop pos)).1 = some token → Spans data pos token pos' := by
  simp only [skipExponent, holdsAt_eq, ok_bind]
  by_cases hend : pos < data.length
  · obtain ⟨b, _, hdrop⟩ := byteAt_lt hend
    have hletter : Spans data pos [b] (pos + 1) := ⟨hdrop, rfl, hend⟩
    rw [hdrop]
    by_cases hexponent : b = 'e' ∨ b = 'E'
    · obtain ⟨pos', hsign, hsignSpans, hsignRest⟩ := @skipSign_spans data (pos + 1) hend
      obtain ⟨pos'', hdigits, hspans, hrest⟩ := @skipDigits_spans data pos' hsignSpans.inside
      have htrue : (b == 'e' || b == 'E') = true := by simpa using hexponent
      rw [hsignRest] at hdigits hspans hrest
      simp only [List.head?_cons, Option.any_some, htrue, ↓reduceIte, hsign, ok_bind, hdigits,
        exponentToken, if_pos hexponent]
      refine ⟨pos'', ?_, hspans.inside, ?_, ?_⟩
      · split
        · next hnone => simp [hnone]
        · next hsome => simp [hsome]
      · rw [hrest]
        split
        · next hnone =>
          have happend := digitsOf_append_afterDigits (signToken (data.drop (pos + 1))).2
          rwa [hnone, List.nil_append] at happend
        · rfl
      · intro token htoken
        split at htoken
        · cases htoken
        · cases htoken
          exact (hletter.append hsignSpans).append hspans
    · have hfalse : (b == 'e' || b == 'E') = false := by simpa using hexponent
      simp only [List.head?_cons, Option.any_some, hfalse, Bool.false_eq_true, ↓reduceIte,
        exponentToken, if_neg hexponent]
      refine ⟨pos, rfl, hpos, hdrop, ?_⟩
      rintro token ⟨⟩
      exact ⟨rfl, rfl, hpos⟩
  · have hnil : data.drop pos = [] := List.drop_eq_nil_of_le (by omega)
    rw [hnil]
    refine ⟨pos, rfl, hpos, hnil, ?_⟩
    rintro token ⟨⟩
    exact ⟨rfl, rfl, hpos⟩

theorem parseJsonNumberAsString_scans (hpos : pos ≤ data.length) :
    Scans data (parseJsonNumberAsString data pos)
      (Json.parseJsonNumberAsString (cursorAt data pos)) := by
  obtain ⟨start, hskip, hcursor⟩ := skipWhitespace_scans data pos
  have hstart : start ≤ data.length := by
    apply @le_length_of_inside data start (skipSpaces (data.drop pos))
    rw [hcursor, cursorAt_inside hpos]
    rfl
  obtain ⟨pos₁, hsign, hspans₁, hrest₁⟩ := skipSign_spans hstart
  obtain ⟨pos₂, hdigits, hspans₂, hrest₂⟩ := skipDigits_spans hspans₁.inside
  obtain ⟨pos₃, hfraction, hspans₃, hrest₃⟩ := skipFraction_spans hspans₂.inside
  obtain ⟨pos₄, hexponent, hinside, hrest₄, hspans₄⟩ := skipExponent_spans hspans₃.inside
  rw [hrest₁] at hdigits hspans₂ hrest₂
  rw [hrest₂] at hfraction hspans₃ hrest₃
  rw [hrest₃] at hexponent hrest₄ hspans₄
  have hread : Json.parseJsonNumberAsString (cursorAt data pos) =
      ((numberToken (data.drop start)).1, .inside (numberToken (data.drop start)).2) := by
    rw [Json.parseJsonNumberAsString, ← hcursor, cursorAt_inside hstart]
  simp only [hread, parseJsonNumberAsString, hskip, ok_bind, hsign, hdigits, hfraction,
    numberToken]
  by_cases hnone : digitsOf (signToken (data.drop start)).2 = [] ∧
      (fractionToken (afterDigits (signToken (data.drop start)).2)).1.tail = []
  · simp only [hnone.1, hnone.2, and_self, ↓reduceIte, ne_eq, not_true_eq_false, decide_false,
      Bool.or_self, Bool.not_false]
    exact ⟨pos₃, rfl, by rw [cursorAt_inside hspans₃.inside, hrest₃]⟩
  · have hdigit : (!(decide (digitsOf (signToken (data.drop start)).2 ≠ []) ||
        decide ((fractionToken (afterDigits (signToken (data.drop start)).2)).1.tail ≠ []))) =
        false := by
      rw [not_and_or] at hnone
      rcases hnone with h | h <;> simp [h]
    simp only [hdigit, Bool.false_eq_true, ↓reduceIte, if_neg hnone, hexponent, ok_bind]
    refine ⟨pos₄, ?_, by rw [cursorAt_inside hinside, hrest₄]⟩
    cases htoken : (exponentToken (fractionToken
        (afterDigits (signToken (data.drop start)).2)).2).1 with
    | none => rfl
    | some token =>
      have hspans := ((hspans₁.append hspans₂).append hspans₃).append (hspans₄ token htoken)
      simp only [Option.isSome_some, ↓reduceIte, hspans.take, Option.map_some, pure_eq_ok]

/-! ## Values -/

/-- The same result, at the position of the cursor. -/
inductive Matches {α : Type} (data : Bytes) :
    Except Stop (α × Nat) → Except Failure (α × Cursor) → Prop
  | ok (a : α) (pos : Nat) : Matches data (.ok (a, pos)) (.ok (a, cursorAt data pos))
  | rejected : Matches data (.error .rejected) (.error .rejected)
  | raised (e : Exception) : Matches data (.error (.raised e)) (.error (.raised e))
  | diverged : Matches data (.error .diverged) (.error .diverged)

/-- Two parsers one after the other. -/
theorem Matches.bind {α β : Type} {x : Except Stop (α × Nat)} {y : Except Failure (α × Cursor)}
    {f : α × Nat → Except Stop (β × Nat)} {g : α × Cursor → Except Failure (β × Cursor)}
    (h : Matches data x y) (hf : ∀ a pos, Matches data (f (a, pos)) (g (a, cursorAt data pos))) :
    Matches data (x >>= f) (y >>= g) := by
  cases h with
  | ok a pos => exact hf a pos
  | rejected => exact .rejected
  | raised e => exact .raised e
  | diverged => exact .diverged

/-- A scanner, and what is done when it finds something. -/
theorem Scans.orReject {α β : Type} {x : Except Stop (Option α × Nat)} {y : Option α × Cursor}
    {f : α × Nat → Except Stop (β × Nat)} {g : α × Cursor → Except Failure (β × Cursor)}
    (h : Scans data x y) (hf : ∀ a pos, Matches data (f (a, pos)) (g (a, cursorAt data pos))) :
    Matches data (x >>= fun r => Positions.orReject r >>= f) (Json.orReject y >>= g) := by
  obtain ⟨pos', hx, hcursor⟩ := h
  obtain ⟨out, c⟩ := y
  change cursorAt data pos' = c at hcursor
  rw [hx, ← hcursor]
  cases out with
  | none => exact .rejected
  | some a => exact hf a pos'

theorem raise_cases {α : Type} (x : Except Exception α) :
    (∃ a, raise x = .ok a ∧ Json.raise x = .ok a) ∨
      ∃ e, raise x = .error (.raised e) ∧ Json.raise x = .error (.raised e) := by
  cases x with
  | ok a => exact Or.inl ⟨a, rfl, rfl⟩
  | error e => exact Or.inr ⟨e, rfl, rfl⟩

/-- Inside the text the comparisons do not fail, and the result is inside. -/
theorem parseJsonBool_scans (hpos : pos ≤ data.length) :
    ∃ value pos', parseJsonBool data pos = .ok (value, pos') ∧ pos' ≤ data.length ∧
      Json.parseJsonBool (cursorAt data pos) = .ok (value, cursorAt data pos') := by
  obtain ⟨start, hskip, hcursor⟩ := skipWhitespace_scans data pos
  have hstart : start ≤ data.length := by
    apply @le_length_of_inside data start (skipSpaces (data.drop pos))
    rw [hcursor, cursorAt_inside hpos]
    rfl
  have hbehind {word : Bytes} (h : word.isPrefixOf (data.drop start) = true) :
      start + word.length ≤ data.length := by
    have hlength := (List.isPrefixOf_iff_prefix.mp h).length_le
    rw [List.length_drop] at hlength
    omega
  simp only [parseJsonBool, Json.parseJsonBool, hskip, ok_bind, compareAt_eq hstart, ← hcursor,
    cursorAt_inside hstart, Json.compareAt]
  split
  · next h =>
    refine ⟨some true, start + 4, rfl, hbehind h, ?_⟩
    rw [cursorAt_add, cursorAt_inside hstart]
    rfl
  split
  · next h =>
    refine ⟨some false, start + 5, rfl, hbehind h, ?_⟩
    rw [cursorAt_add, cursorAt_inside hstart]
    rfl
  · exact ⟨none, start, rfl, hstart, by rw [cursorAt_inside hstart]; rfl⟩

theorem parseJsonValueAsString_matches (data : Bytes) (pos : Nat) :
    Matches data (parseJsonValueAsString data pos)
      (Json.parseJsonValueAsString (cursorAt data pos)) := by
  obtain ⟨start, hskip, hcursor⟩ := skipWhitespace_scans data pos
  simp only [parseJsonValueAsString, Json.parseJsonValueAsString, hskip, ok_bind, ← hcursor]
  by_cases hend : data.length ≤ start
  · rw [if_pos hend, rest_eq_nil_iff.mpr hend]
    exact .rejected
  · have hinside : start ≤ data.length := by omega
    obtain ⟨b, hb, hdrop⟩ := @byteAt_lt data start (by omega)
    have hrest : (cursorAt data start).rest = b :: data.drop (start + 1) := by
      rw [rest_cursorAt, hdrop]
    simp only [if_neg hend, hb, ok_bind, hrest]
    split
    · exact (parseJsonString_scans data start).orReject fun out pos' => .ok _ pos'
    split
    · exact (parseJsonNumberAsString_scans hinside).orReject fun out pos' => .ok _ pos'
    · obtain ⟨value, pos', hread, hpos', hread'⟩ := parseJsonBool_scans hinside
      rw [hread, hread']
      cases value with
      | some value => exact .ok _ pos'
      | none =>
        simp only [ok_bind, compareAt_eq hpos', cursorAt_inside hpos', Json.compareAt]
        split
        · rw [← cursorAt_inside hpos', ← cursorAt_add]
          exact .ok _ _
        · exact .rejected

/-! ## Skipping -/

/-- Skipping ends at the same place, or in neither. -/
def Skips (data : Bytes) (x : Except Stop Nat) (y : Except Failure Cursor) : Prop :=
  (∃ pos', x = .ok pos' ∧ y = .ok (cursorAt data pos')) ∨
    x = .error .diverged ∧ y = .error .diverged

theorem skipJsonValue_step {rounds : Nat}
    (helements : ∀ close pos, Skips data (skipElements data close rounds pos)
      (Json.skipElements close rounds (cursorAt data pos)))
    (pos : Nat) :
    Skips data (skipJsonValue data (rounds + 1) pos)
      (Json.skipJsonValue (rounds + 1) (cursorAt data pos)) := by
  obtain ⟨start, hskip, hcursor⟩ := skipWhitespace_scans data pos
  simp only [skipJsonValue, Json.skipJsonValue, hskip, ok_bind, ← hcursor]
  by_cases hend : data.length ≤ start
  · rw [if_pos hend, rest_eq_nil_iff.mpr hend]
    exact Or.inl ⟨start, rfl, rfl⟩
  · have hinside : start ≤ data.length := by omega
    obtain ⟨b, hb, hdrop⟩ := @byteAt_lt data start (by omega)
    have hrest : (cursorAt data start).rest = b :: data.drop (start + 1) := by
      rw [rest_cursorAt, hdrop]
    simp only [if_neg hend, hb, ok_bind, hrest]
    split
    · rw [← cursorAt_succ]
      exact helements '}' (start + 1)
    split
    · rw [← cursorAt_succ]
      exact helements ']' (start + 1)
    split
    · obtain ⟨pos', hread, hread'⟩ := parseJsonString_scans data start
      rw [hread, ← hread']
      exact Or.inl ⟨pos', rfl, rfl⟩
    simp only [compareAt_eq hinside, ok_bind, hdrop]
    split
    · obtain ⟨value, pos', hread, hpos', hread'⟩ := parseJsonBool_scans hinside
      simp only [hread, hread', ok_bind, compareAt_eq hpos', cursorAt_inside hpos', Json.compareAt]
      split
      · rw [← cursorAt_inside hpos', ← cursorAt_add]
        exact Or.inl ⟨pos' + 4, rfl, rfl⟩
      · rw [← cursorAt_inside hpos']
        exact Or.inl ⟨pos', rfl, rfl⟩
    · obtain ⟨pos', hread, hread'⟩ := parseJsonNumberAsString_scans hinside
      rw [hread, ok_bind]
      cases hnumber : Json.parseJsonNumberAsString (cursorAt data start) with
      | mk out c =>
        rw [hnumber] at hread'
        change cursorAt data pos' = c at hread'
        rw [← hread']
        cases out with
        | some out => exact Or.inl ⟨pos', rfl, rfl⟩
        | none => exact Or.inl ⟨pos' + 1, rfl, by rw [cursorAt_succ]; rfl⟩

theorem skipElements_step {rounds : Nat}
    (hvalue : ∀ pos, Skips data (skipJsonValue data rounds pos)
      (Json.skipJsonValue rounds (cursorAt data pos)))
    (helements : ∀ close pos, Skips data (skipElements data close rounds pos)
      (Json.skipElements close rounds (cursorAt data pos)))
    (close : Byte) (pos : Nat) :
    Skips data (skipElements data close (rounds + 1) pos)
      (Json.skipElements close (rounds + 1) (cursorAt data pos)) := by
  simp only [skipElements, Json.skipElements]
  by_cases hend : data.length ≤ pos
  · rw [if_pos hend, if_pos (rest_eq_nil_iff.mpr hend)]
    exact Or.inl ⟨pos, rfl, rfl⟩
  · rw [if_neg hend, if_neg (mt rest_eq_nil_iff.mp hend)]
    rcases hvalue pos with ⟨pos', hread, hread'⟩ | ⟨hread, hread'⟩
    · obtain ⟨start, hskip, hcursor⟩ := skipWhitespace_scans data pos'
      have hhead (b : Byte) : (data.drop start).head?.any (· == b) = true ↔
          (cursorAt data start).rest.head? = some b := by
        rw [rest_cursorAt]
        cases (data.drop start).head? <;> simp
      simp only [hread, hread', ok_bind, hskip, holdsAt_eq, ← hcursor, hhead]
      split
      · rw [← cursorAt_succ]
        exact helements close (start + 1)
      split
      · exact Or.inl ⟨start + 1, rfl, by rw [cursorAt_succ]; rfl⟩
      · rw [← cursorAt_succ]
        exact helements close (start + 1)
    · rw [hread, hread']
      exact Or.inr ⟨rfl, rfl⟩

theorem skip_skips (data : Bytes) (rounds : Nat) :
    (∀ pos, Skips data (skipJsonValue data rounds pos)
      (Json.skipJsonValue rounds (cursorAt data pos))) ∧
    (∀ close pos, Skips data (skipElements data close rounds pos)
      (Json.skipElements close rounds (cursorAt data pos))) := by
  induction rounds with
  | zero => exact ⟨fun _ => Or.inr ⟨rfl, rfl⟩, fun _ _ => Or.inr ⟨rfl, rfl⟩⟩
  | succ rounds ih =>
    obtain ⟨hvalue, helements⟩ := ih
    exact ⟨skipJsonValue_step helements, skipElements_step hvalue helements⟩

/-- Skipping as a parser of nothing. -/
theorem Skips.matches {α : Type} {x : Except Stop Nat} {y : Except Failure Cursor}
    (h : Skips data x y) (a : α) :
    Matches data (do return (a, ← x)) (do return (a, ← y)) := by
  rcases h with ⟨pos', rfl, rfl⟩ | ⟨rfl, rfl⟩
  · exact .ok a pos'
  · exact .diverged

/-! ## Loops -/

section

variable {σ : Type} {member : Bytes → σ → Nat → Except Stop (σ × Nat)}
  {member' : Bytes → σ → Cursor → Except Failure (σ × Cursor)}

theorem parseMembers_matches
    (hmember : ∀ key s pos, pos ≤ data.length →
      Matches data (member key s pos) (member' key s (cursorAt data pos)))
    (rounds : Nat) (s : σ) (pos : Nat) :
    Matches data (parseMembers data member rounds s pos)
      (Json.parseMembers member' rounds s (cursorAt data pos)) := by
  induction rounds generalizing s pos with
  | zero => exact .diverged
  | succ rounds ih =>
    obtain ⟨start, hskip, hcursor⟩ := skipWhitespace_scans data pos
    simp only [parseMembers, Json.parseMembers, hskip, ok_bind, ← hcursor]
    by_cases hend : data.length ≤ start
    · rw [if_pos hend, rest_eq_nil_iff.mpr hend]
      exact .rejected
    · obtain ⟨b, hb, hdrop⟩ := @byteAt_lt data start (by omega)
      have hrest : (cursorAt data start).rest = b :: data.drop (start + 1) := by
        rw [rest_cursorAt, hdrop]
      simp only [if_neg hend, hb, ok_bind, hrest]
      split
      · rw [← cursorAt_succ]
        exact .ok s (start + 1)
      · refine (parseJsonString_scans data start).orReject fun key pos' => ?_
        obtain ⟨pos₁, hcolon, hcursor₁⟩ := consumeChar_scans data pos' ':'
        simp only [hcolon, ok_bind]
        cases hconsume : Json.consumeChar (cursorAt data pos') ':' with
        | mk found c =>
          rw [hconsume] at hcursor₁
          change cursorAt data pos₁ = c at hcursor₁
          cases found with
          | false => exact .rejected
          | true =>
            obtain ⟨⟨rest, hinside⟩, _⟩ := consumeChar_true hconsume
            rw [← hcursor₁] at hinside ⊢
            refine (hmember (lower key) s pos₁ (le_length_of_inside hinside)).bind fun s pos₂ => ?_
            obtain ⟨pos₃, hcomma, hcursor₃⟩ := skipComma_scans data pos₂
            simp only [hcomma, ok_bind, ← hcursor₃]
            exact ih s pos₃

theorem parseObject_matches
    (hmember : ∀ key s pos, pos ≤ data.length →
      Matches data (member key s pos) (member' key s (cursorAt data pos)))
    (s : σ) (pos : Nat) :
    Matches data (parseObject data member s pos)
      (Json.parseObject member' (loopBound data) s (cursorAt data pos)) := by
  obtain ⟨pos', hopen, hcursor⟩ := consumeChar_scans data pos '{'
  simp only [parseObject, Json.parseObject, hopen, ok_bind]
  cases hconsume : Json.consumeChar (cursorAt data pos) '{' with
  | mk found c =>
    rw [hconsume] at hcursor
    change cursorAt data pos' = c at hcursor
    rw [← hcursor]
    cases found with
    | false => exact .rejected
    | true => exact parseMembers_matches hmember (loopBound data) s pos'

end

section

variable {α : Type} {element : Nat → Except Stop (α × Nat)}
  {element' : Cursor → Except Failure (α × Cursor)} {push : List α → α → List α}

theorem parseElements_matches
    (helement : ∀ pos, Matches data (element pos) (element' (cursorAt data pos)))
    (rounds : Nat) (out : List α) (pos : Nat) :
    Matches data (parseElements data element push rounds out pos)
      (Json.parseElements element' push rounds out (cursorAt data pos)) := by
  induction rounds generalizing out pos with
  | zero => exact .diverged
  | succ rounds ih =>
    obtain ⟨start, hskip, hcursor⟩ := skipWhitespace_scans data pos
    simp only [parseElements, Json.parseElements, hskip, ok_bind, ← hcursor]
    by_cases hend : data.length ≤ start
    · rw [if_pos hend, rest_eq_nil_iff.mpr hend]
      exact .rejected
    · obtain ⟨b, hb, hdrop⟩ := @byteAt_lt data start (by omega)
      have hrest : (cursorAt data start).rest = b :: data.drop (start + 1) := by
        rw [rest_cursorAt, hdrop]
      simp only [if_neg hend, hb, ok_bind, hrest]
      split
      · rw [← cursorAt_succ]
        exact .ok out (start + 1)
      · refine (helement start).bind fun x pos' => ?_
        obtain ⟨pos₁, hcomma, hcursor₁⟩ := skipComma_scans data pos'
        simp only [hcomma, ok_bind, ← hcursor₁]
        exact ih (push out x) pos₁

theorem parseArray_matches
    (helement : ∀ pos, Matches data (element pos) (element' (cursorAt data pos))) (pos : Nat) :
    Matches data (parseArray data element push pos)
      (Json.parseArray element' push (loopBound data) (cursorAt data pos)) := by
  obtain ⟨pos', hopen, hcursor⟩ := consumeChar_scans data pos '['
  simp only [parseArray, Json.parseArray, hopen, ok_bind]
  cases hconsume : Json.consumeChar (cursorAt data pos) '[' with
  | mk found c =>
    rw [hconsume] at hcursor
    change cursorAt data pos' = c at hcursor
    rw [← hcursor]
    cases found with
    | false => exact .rejected
    | true => exact parseElements_matches helement (loopBound data) [] pos'

end

/-! ## Rules -/

theorem parseUInt32_matches (data : Bytes) (pos : Nat) :
    Matches data (parseUInt32 data pos) (Rules.parseUInt32 (cursorAt data pos)) := by
  refine (parseJsonValueAsString_matches data pos).bind fun value pos' => ?_
  rcases raise_cases (stoul value.text) with ⟨n, hn, hn'⟩ | ⟨e, he, he'⟩
  · simp only [hn, hn']
    exact .ok _ pos'
  · simp only [he, he']
    exact .raised e

theorem conditionValue_cases (condition : RuleCondition) (value : JsonText) :
    (∃ c, conditionValue condition value = .ok c ∧ Rules.conditionValue condition value = .ok c) ∨
      ∃ e, conditionValue condition value = .error (.raised e) ∧
        Rules.conditionValue condition value = .error (.raised e) := by
  unfold conditionValue Rules.conditionValue
  split
  · rcases raise_cases (stringValueNumber condition.inputType value.text) with
      ⟨x, hx, hx'⟩ | ⟨e, he, he'⟩
    · exact Or.inl ⟨_, by rw [hx]; rfl, by rw [hx']; rfl⟩
    · exact Or.inr ⟨e, by rw [he]; rfl, by rw [he']; rfl⟩
  · rcases raise_cases (stod value.text) with ⟨x, hx, hx'⟩ | ⟨e, he, he'⟩
    · exact Or.inl ⟨_, by rw [hx]; rfl, by rw [hx']; rfl⟩
    · exact Or.inr ⟨e, by rw [he]; rfl, by rw [he']; rfl⟩

theorem conditionMember_matches (key : Bytes) (condition : RuleCondition) (pos : Nat) :
    Matches data (conditionMember data key condition pos)
      (Rules.conditionMember (loopBound data) key condition (cursorAt data pos)) := by
  unfold conditionMember Rules.conditionMember
  split
  · exact (parseJsonValueAsString_matches data pos).bind fun value pos' => .ok _ pos'
  split
  · exact (parseUInt32_matches data pos).bind fun n pos' => .ok _ pos'
  split
  · exact (parseJsonValueAsString_matches data pos).bind fun value pos' => .ok _ pos'
  split
  · exact (parseJsonValueAsString_matches data pos).bind fun value pos' => .ok _ pos'
  split
  · exact (parseUInt32_matches data pos).bind fun n pos' => .ok _ pos'
  split
  · refine (parseJsonValueAsString_matches data pos).bind fun value pos' => ?_
    rcases conditionValue_cases condition value with ⟨c, hc, hc'⟩ | ⟨e, he, he'⟩
    · simp only [hc, hc']
      exact .ok c pos'
    · simp only [he, he']
      exact .raised e
  · exact ((skip_skips data (loopBound data)).1 pos).matches condition

theorem commandMember_matches (key : Bytes) (command : RuleCommand) (pos : Nat) :
    Matches data (commandMember data key command pos)
      (Rules.commandMember (loopBound data) key command (cursorAt data pos)) := by
  unfold commandMember Rules.commandMember
  split
  · exact (parseJsonValueAsString_matches data pos).bind fun value pos' => .ok _ pos'
  split
  · exact (parseJsonValueAsString_matches data pos).bind fun value pos' => .ok _ pos'
  split
  · exact (parseUInt32_matches data pos).bind fun n pos' => .ok _ pos'
  · exact ((skip_skips data (loopBound data)).1 pos).matches command

theorem ruleMember_matches (key : Bytes) (rule : Rule) (pos : Nat) (hpos : pos ≤ data.length) :
    Matches data (ruleMember data key rule pos)
      (Rules.ruleMember (loopBound data) key rule (cursorAt data pos)) := by
  unfold ruleMember Rules.ruleMember
  split
  · exact (parseUInt32_matches data pos).bind fun n pos' => .ok _ pos'
  split
  · obtain ⟨value, pos', hread, _, hread'⟩ := parseJsonBool_scans hpos
    simp only [hread, hread', ok_bind]
    cases value with
    | some value => exact .ok _ pos'
    | none => exact .rejected
  split
  · exact (parseJsonString_scans data pos).orReject fun value pos' => .ok _ pos'
  split
  · refine (parseArray_matches (fun start => ?_) pos).bind fun conditions pos' => .ok _ pos'
    exact parseObject_matches (fun key s pos _ => conditionMember_matches key s pos) {} start
  split
  · refine (parseArray_matches (fun start => ?_) pos).bind fun commands pos' => .ok _ pos'
    exact parseObject_matches (fun key s pos _ => commandMember_matches key s pos) {} start
  · exact ((skip_skips data (loopBound data)).1 pos).matches rule

/-- White space is skipped once. -/
theorem parseArray_skipWhitespace {α : Type} (element : Cursor → Except Failure (α × Cursor))
    (push : List α → α → List α) (bound : Nat) (c : Cursor) :
    Json.parseArray element push bound (Json.skipWhitespace c) =
      Json.parseArray element push bound c := by
  have htwice : Json.skipWhitespace (Json.skipWhitespace c) = Json.skipWhitespace c := by
    cases c with
    | inside s => exact congrArg Cursor.inside (dropWhile_of_stops (stops_dropWhile isSpace s))
    | beyond n => rfl
  unfold Json.parseArray Json.consumeChar
  rw [htwice]

theorem parseRulesArray_matches (data : Bytes) :
    (∃ rules, parseRulesArray data = .ok rules ∧ Rules.parseRulesArray data = .ok rules) ∨
      (parseRulesArray data = .error .rejected ∧
        Rules.parseRulesArray data = .error .rejected) ∨
      (∃ e, parseRulesArray data = .error (.raised e) ∧
        Rules.parseRulesArray data = .error (.raised e)) ∨
      parseRulesArray data = .error .diverged ∧
        Rules.parseRulesArray data = .error .diverged := by
  obtain ⟨start, hskip, hcursor⟩ := skipWhitespace_scans data 0
  have hmatches := @parseArray_matches data _ _ _ pushRule
    (fun pos => parseObject_matches (@ruleMember_matches data) {} pos) start
  rw [hcursor, parseArray_skipWhitespace, cursorAt_inside (Nat.zero_le _), List.drop_zero]
    at hmatches
  simp only [parseRulesArray, Rules.parseRulesArray, hskip, ok_bind]
  change Matches data (parseArray data (parseRuleObject data) pushRule start)
    (Json.parseArray (Rules.parseRuleObject (loopBound data)) pushRule (loopBound data)
      (.inside data)) at hmatches
  generalize parseArray data (parseRuleObject data) pushRule start = x at hmatches ⊢
  generalize Json.parseArray (Rules.parseRuleObject (loopBound data)) pushRule (loopBound data)
    (.inside data) = y at hmatches ⊢
  cases hmatches with
  | ok rules pos => exact Or.inl ⟨rules, rfl, rfl⟩
  | rejected => exact Or.inr (Or.inl ⟨rfl, rfl⟩)
  | raised e => exact Or.inr (Or.inr (Or.inl ⟨e, rfl, rfl⟩))
  | diverged => exact Or.inr (Or.inr (Or.inr ⟨rfl, rfl⟩))

/-- A value is skipped from every position, also from one behind the end. -/
theorem skipJsonValue_in_range (data : Bytes) (pos : Nat) :
    ∃ pos', skipJsonValue data (loopBound data) pos = .ok pos' := by
  have hleft : (cursorAt data pos).left ≤ data.length := by
    rw [Cursor.left, rest_cursorAt, List.length_drop]
    omega
  obtain ⟨c, htotal, _⟩ := @skipJsonValue_total (loopBound data) (cursorAt data pos)
    (by unfold loopBound; omega)
  rcases (skip_skips data (loopBound data)).1 pos with ⟨pos', h, _⟩ | ⟨_, h⟩
  · exact ⟨pos', h⟩
  · rw [htotal] at h
    cases h

/-- Skipping a value that is cut short ends behind the text. -/
example : skipJsonValue (ascii "[[") (loopBound (ascii "[[")) 0 = .ok 3 := rfl

/-- The parser gives rules, rejects the text, or a number conversion throws; and every
value is skipped, whatever the position. -/
theorem parseRulesArray_in_range (data : Bytes) :
    ((∃ rules, parseRulesArray data = .ok rules) ∨ parseRulesArray data = .error .rejected ∨
      ∃ e, parseRulesArray data = .error (.raised e)) ∧
    ∀ pos, ∃ pos', skipJsonValue data (loopBound data) pos = .ok pos' := by
  refine ⟨?_, skipJsonValue_in_range data⟩
  rcases parseRulesArray_matches data with ⟨rules, h, _⟩ | ⟨h, _⟩ | ⟨e, h, _⟩ | ⟨_, h⟩
  · exact Or.inl ⟨rules, h⟩
  · exact Or.inr (Or.inl h)
  · exact Or.inr (Or.inr ⟨e, h⟩)
  · exact absurd h (parseRulesArray_ne_diverged data)

end

end InverterMonitor.Positions
