import InverterMonitor.Server.Registers

/-!
# The JSON reader of `rules.hpp`

The parsers share a text `data` and a position `pos`.  A `Cursor` is the text
from `pos` on; `skipJsonValue` may push `pos` beyond the end, which the second
constructor records.
-/

namespace InverterMonitor.Json
open Text Cxx Registers

inductive Cursor
  | inside (rest : Bytes)
  /-- `pos = data.size() + excess + 1` -/
  | beyond (excess : Nat)
  deriving DecidableEq, Repr

namespace Cursor

def rest : Cursor → Bytes
  | inside s => s
  | beyond _ => []

/-- `++pos` -/
def advance : Cursor → Cursor
  | inside (_ :: s) => inside s
  | inside [] => beyond 0
  | beyond n => beyond (n + 1)

@[simp] theorem rest_inside (s : Bytes) : (inside s).rest = s := rfl
@[simp] theorem rest_beyond (n : Nat) : (beyond n).rest = [] := rfl
@[simp] theorem advance_cons (b : Byte) (s : Bytes) : (inside (b :: s)).advance = inside s := rfl

theorem eq_inside_of_rest {c : Cursor} {b : Byte} {s : Bytes} (h : c.rest = b :: s) :
    c = inside (b :: s) := by
  cases c with
  | inside t => exact congrArg inside h
  | beyond n => simp at h

end Cursor

/-- How a parser ends without a result: it returns `false`, a library call
throws, or (never, see `parseRulesArray_ne_diverged`) the loop bound is reached. -/
inductive Failure
  | rejected
  | raised (e : Exception)
  | diverged
  deriving DecidableEq, Repr

def raise {α : Type} : Except Exception α → Except Failure α
  | .ok a => .ok a
  | .error e => .error (.raised e)

@[simp] theorem raise_ok {α : Type} (a : α) : raise (.ok a) = .ok a := rfl
@[simp] theorem raise_error {α : Type} (e : Exception) :
    raise (.error e : Except Exception α) = .error (.raised e) := rfl

theorem raise_eq_ok {α : Type} {x : Except Exception α} {a : α} :
    raise x = .ok a ↔ x = .ok a := by
  cases x <;> simp

/-! ## Scanners -/

def skipWhitespace : Cursor → Cursor
  | .inside s => .inside (skipSpaces s)
  | .beyond n => .beyond n

def consumeChar (c : Cursor) (expected : Byte) : Bool × Cursor :=
  let c := skipWhitespace c
  if c.rest.head? = some expected then (true, c.advance) else (false, c)

/-- The separator handling at the end of every list and member loop. -/
def skipComma (c : Cursor) : Cursor := (consumeChar c ',').2

def unescape (escaped : Byte) : Byte :=
  if escaped = 'b' then 8
  else if escaped = 'f' then 12
  else if escaped = 'n' then 10
  else if escaped = 'r' then 13
  else if escaped = 't' then 9
  else escaped

/-- The loop of `parseJsonString` after the opening quote. -/
def stringBody : Bytes → Option Bytes × Bytes
  | [] => (none, [])
  | c :: s =>
    if c = '"' then (some [], s)
    else if c = '\\' then
      match s with
      | [] => (none, [])
      | escaped :: s =>
        let (out, rest) := stringBody s
        (out.map (unescape escaped :: ·), rest)
    else
      let (out, rest) := stringBody s
      (out.map (c :: ·), rest)

theorem stringBody_quote (s : Bytes) : stringBody (('"' : Byte) :: s) = (some [], s) := by
  rw [stringBody.eq_def]
  rfl

theorem stringBody_plain {c : Byte} (s : Bytes) (hq : c ≠ '"') (hb : c ≠ '\\') :
    stringBody (c :: s) = ((stringBody s).1.map (c :: ·), (stringBody s).2) := by
  rw [stringBody.eq_def]
  simp [hq, hb]

theorem stringBody_escape (e : Byte) (s : Bytes) :
    stringBody (('\\' : Byte) :: e :: s) =
      ((stringBody s).1.map (unescape e :: ·), (stringBody s).2) := by
  rw [stringBody.eq_def]
  rfl

def parseJsonString (c : Cursor) : Option Bytes × Cursor :=
  match skipWhitespace c with
  | .inside (b :: s) =>
    if b = '"' then ((stringBody s).1, .inside (stringBody s).2) else (none, .inside (b :: s))
  | c => (none, c)

/-- An optional sign, as text. -/
def signToken : Bytes → Bytes × Bytes
  | [] => ([], [])
  | b :: s => if b = '-' ∨ b = '+' then ([b], s) else ([], b :: s)

def fractionToken : Bytes → Bytes × Bytes
  | [] => ([], [])
  | b :: s => if b = '.' then (b :: digitsOf s, afterDigits s) else ([], b :: s)

/-- An optional exponent; `none` when the letter is not followed by digits. -/
def exponentToken : Bytes → Option Bytes × Bytes
  | [] => (some [], [])
  | b :: s =>
    if b = 'e' ∨ b = 'E' then
      let (sign, t) := signToken s
      if digitsOf t = [] then (none, t) else (some (b :: sign ++ digitsOf t), afterDigits t)
    else (some [], b :: s)

def numberToken (s : Bytes) : Option Bytes × Bytes :=
  let (sign, t) := signToken s
  let (fraction, u) := fractionToken (afterDigits t)
  if digitsOf t = [] ∧ fraction.tail = [] then (none, u)
  else
    let (exponent, rest) := exponentToken u
    (exponent.map (sign ++ digitsOf t ++ fraction ++ ·), rest)

def parseJsonNumberAsString (c : Cursor) : Option Bytes × Cursor :=
  match skipWhitespace c with
  | .inside s => ((numberToken s).1, .inside (numberToken s).2)
  | c => (none, c)

/-- `data.compare(pos, word.size(), word) == 0`, which throws for `pos > data.size()`. -/
def compareAt (c : Cursor) (word : Bytes) : Except Failure Bool :=
  match c with
  | .inside s => .ok (word.isPrefixOf s)
  | .beyond _ => .error (.raised .outOfRange)

def skipBytes (c : Cursor) (n : Nat) : Cursor := (Cursor.advance)^[n] c

def parseJsonBool (c : Cursor) : Except Failure (Option Bool × Cursor) := do
  let c := skipWhitespace c
  if ← compareAt c (ascii "true") then return (some true, skipBytes c 4)
  if ← compareAt c (ascii "false") then return (some false, skipBytes c 5)
  return (none, c)

/-! ### Number tokens -/

theorem signToken_append {sign s : Bytes} (hs : sign = [] ∨ ∃ b, isSign b = true ∧ sign = [b])
    (h : Stops isSign s) : signToken (sign ++ s) = (sign, s) := by
  rcases hs with rfl | ⟨b, hb, rfl⟩
  · cases s with
    | nil => rfl
    | cons c s =>
      have hc : c ≠ '-' ∧ c ≠ '+' := by simpa [isSign] using h
      simp [signToken, hc]
  · have hb' : b = '-' ∨ b = '+' := by simpa [isSign] using hb
    simp [signToken, hb']

theorem signToken_sound (s : Bytes) :
    ((signToken s).1 = [] ∨ ∃ b, isSign b = true ∧ (signToken s).1 = [b]) ∧
      s = (signToken s).1 ++ (signToken s).2 := by
  cases s with
  | nil => exact ⟨Or.inl rfl, rfl⟩
  | cons b s =>
    by_cases hb : b = '-' ∨ b = '+'
    · have h : signToken (b :: s) = ([b], s) := by simp [signToken, hb]
      rw [h]
      exact ⟨Or.inr ⟨b, by simpa [isSign] using hb, rfl⟩, rfl⟩
    · have h : signToken (b :: s) = ([], b :: s) := by simp [signToken, hb]
      rw [h]
      exact ⟨Or.inl rfl, rfl⟩

theorem isSign_of_isDigit {b : Byte} (h : isDigit b = true) : isSign b = false := by
  have hm := ne_of_isDigit h (show isDigit '-' = false by decide)
  have hp := ne_of_isDigit h (show isDigit '+' = false by decide)
  simp [isSign, hm, hp]

theorem stops_of_numeral {q : Byte → Bool} {s : Bytes} (h : Stops isNumeralByte s)
    (hq : ∀ b, q b = true → isNumeralByte b = true) : Stops q s := by
  intro b hb
  have := h b hb
  cases hqb : q b
  · rfl
  · rw [hq b hqb] at this
    cases this

theorem fractionToken_append {f s : Bytes}
    (hf : f = [] ∨ ∃ ds, Digits ds ∧ f = ('.' : Byte) :: ds)
    (hs : Stops (fun b => isDigit b || b == '.') s) : fractionToken (f ++ s) = (f, s) := by
  rcases hf with rfl | ⟨ds, hds, rfl⟩
  · cases s with
    | nil => rfl
    | cons b s =>
      have hb : b ≠ '.' := by
        have := hs b (by simp)
        simp_all
      simp [fractionToken, hb]
  · have hd : Stops isDigit s := by
      intro b hb
      have := hs b hb
      simp_all
    simp [fractionToken, digitsOf_append hds hd, afterDigits_append hds hd]

theorem toLower_eq_e (b : Byte) : toLower b = ('e' : Byte) ↔ b = 'e' ∨ b = 'E' := by
  change toLower b = 101 ↔ b = 101 ∨ b = 69
  simp only [toLower, Bool.and_eq_true, decide_eq_true_eq]
  grind

theorem exponentToken_append {x s : Bytes}
    (hx : x = [] ∨ ∃ e t ds, toLower e = ('e' : Byte) ∧
      (t = [] ∨ ∃ b, isSign b = true ∧ t = [b]) ∧ Digits ds ∧ ds ≠ [] ∧ x = e :: t ++ ds)
    (hs : Stops isNumeralByte s) : exponentToken (x ++ s) = (some x, s) := by
  rcases hx with rfl | ⟨e, t, ds, he, ht, hds, hne, rfl⟩
  · cases s with
    | nil => rfl
    | cons b s =>
      have hb : ¬(b = 'e' ∨ b = 'E') := by
        rw [← toLower_eq_e]
        have := hs b (by simp)
        simp_all [isNumeralByte]
      simp [exponentToken, hb]
  · have hd : Stops isDigit s := stops_of_numeral hs fun _ => isNumeralByte_of_isDigit
    have hsign : Stops isSign (ds ++ s) := by
      cases ds with
      | nil => exact absurd rfl hne
      | cons b ds => simpa using isSign_of_isDigit (hds b (by simp))
    rw [List.cons_append, List.cons_append, List.append_assoc]
    simp [exponentToken, (toLower_eq_e e).mp he, signToken_append ht hsign, digitsOf_append hds hd,
      afterDigits_append hds hd, hne]

/-- A numeral is taken as a whole. -/
theorem numberToken_append (p : NumeralParts) {s : Bytes} (hs : Stops isNumeralByte s) :
    numberToken (p.text ++ s) = (some p.text, s) := by
  have hexp : Stops (fun b => isDigit b || b == '.') (p.exponent ++ s) := by
    rcases p.exponent_eq with h | ⟨e, t, ds, he, _, _, _, h⟩
    · rw [h]
      refine stops_of_numeral hs fun b hb => ?_
      simp only [Bool.or_eq_true] at hb
      rcases hb with hb | hb <;> simp [isNumeralByte, hb]
    · have he' : isDigit e = false ∧ e ≠ '.' := by
        constructor
        · cases hd : isDigit e
          · rfl
          · rw [toLower_of_isDigit hd] at he
            exact absurd he (ne_of_isDigit hd (by decide))
        · rintro rfl
          revert he
          decide
      simp [h, he']
  have hfrac : Stops isDigit (p.fraction ++ (p.exponent ++ s)) := by
    rcases p.fraction_eq with h | ⟨ds, _, h⟩
    · rw [h]
      intro b hb
      have := hexp b hb
      simp_all
    · rw [h]
      simp only [List.cons_append, stops_cons]
      decide
  have hsign : Stops isSign (p.whole ++ (p.fraction ++ (p.exponent ++ s))) := by
    obtain ⟨b, t, hm, hb⟩ := p.magnitude_head
    rw [← List.append_assoc, ← List.append_assoc, ← NumeralParts.magnitude, hm]
    simp only [List.cons_append, stops_cons]
    rcases hb with hb | rfl
    · exact isSign_of_isDigit hb
    · decide
  have hnone : ¬(p.whole = [] ∧ p.fraction.tail = []) := by
    rcases p.has_digit with h | h <;> simp [h]
  simp only [numberToken, NumeralParts.text, NumeralParts.magnitude, List.append_assoc,
    signToken_append p.sign_eq hsign, digitsOf_append p.whole_digits hfrac,
    afterDigits_append p.whole_digits hfrac, fractionToken_append p.fraction_eq hexp,
    exponentToken_append p.exponent_eq hs, hnone, ↓reduceIte, Option.map_some]

theorem fractionToken_sound (s : Bytes) :
    ((fractionToken s).1 = [] ∨ ∃ ds, Digits ds ∧ (fractionToken s).1 = ('.' : Byte) :: ds) ∧
      s = (fractionToken s).1 ++ (fractionToken s).2 := by
  cases s with
  | nil => exact ⟨Or.inl rfl, rfl⟩
  | cons b s =>
    by_cases hb : b = '.'
    · have h : fractionToken (b :: s) = (b :: digitsOf s, afterDigits s) := by
        simp [fractionToken, hb]
      rw [h, hb]
      exact ⟨Or.inr ⟨_, digits_digitsOf s, rfl⟩, by simp [digitsOf_append_afterDigits]⟩
    · have h : fractionToken (b :: s) = ([], b :: s) := by simp [fractionToken, hb]
      rw [h]
      exact ⟨Or.inl rfl, rfl⟩

theorem exponentToken_sound {s x u : Bytes} (h : exponentToken s = (some x, u)) :
    (x = [] ∨ ∃ e t ds, toLower e = ('e' : Byte) ∧
      (t = [] ∨ ∃ b, isSign b = true ∧ t = [b]) ∧ Digits ds ∧ ds ≠ [] ∧ x = e :: t ++ ds) ∧
      s = x ++ u := by
  cases s with
  | nil =>
    cases h
    exact ⟨Or.inl rfl, rfl⟩
  | cons b s =>
    by_cases hb : b = 'e' ∨ b = 'E'
    · simp only [exponentToken, hb, ↓reduceIte] at h
      split at h
      · cases h
      · next hne =>
        cases h
        obtain ⟨hsign, hs⟩ := signToken_sound s
        have hlower : toLower b = ('e' : Byte) := by
          rcases hb with rfl | rfl <;> decide
        refine ⟨Or.inr ⟨b, (signToken s).1, _, hlower, hsign, digits_digitsOf _, hne, rfl⟩, ?_⟩
        rw [List.append_assoc, digitsOf_append_afterDigits, List.cons_append, ← hs]
    · simp only [exponentToken, hb, ↓reduceIte] at h
      cases h
      exact ⟨Or.inl rfl, rfl⟩

/-- A token that is taken is a numeral. -/
theorem numberToken_sound {s t u : Bytes} (h : numberToken s = (some t, u)) :
    s = t ++ u ∧ IsNumeral t := by
  obtain ⟨hsign, hs⟩ := signToken_sound s
  obtain ⟨hfrac, hf⟩ := fractionToken_sound (afterDigits (signToken s).2)
  simp only [numberToken] at h
  split at h
  · cases h
  · next hnone =>
    obtain ⟨hx, hu⟩ := Prod.mk.inj h
    obtain ⟨x, hx', rfl⟩ := Option.map_eq_some_iff.mp hx
    obtain ⟨hexp, he⟩ := exponentToken_sound (Prod.ext hx' hu)
    constructor
    · simp only [List.append_assoc]
      rw [← he, ← hf, digitsOf_append_afterDigits, ← hs]
    · have hdigit : digitsOf (signToken s).2 ≠ [] ∨
          (fractionToken (afterDigits (signToken s).2)).1.tail ≠ [] := by
        by_cases hw : digitsOf (signToken s).2 = []
        · exact Or.inr fun hf => hnone ⟨hw, hf⟩
        · exact Or.inl hw
      exact ⟨⟨(signToken s).1, digitsOf (signToken s).2, _, x, hsign, digits_digitsOf _, hfrac,
        hdigit, hexp⟩, by simp only [NumeralParts.text, NumeralParts.magnitude, List.append_assoc]⟩

structure JsonText where
  text : Bytes
  isString : Bool
  deriving DecidableEq, Repr

def isNumberStart (b : Byte) : Bool := b == '-' || b == '+' || isDigit b

def orReject {α : Type} (r : Option α × Cursor) : Except Failure (α × Cursor) :=
  match r with
  | (some a, c) => .ok (a, c)
  | (none, _) => .error .rejected

def parseJsonValueAsString (c : Cursor) : Except Failure (JsonText × Cursor) := do
  let c := skipWhitespace c
  match c.rest with
  | [] => throw .rejected
  | b :: _ =>
    if b = '"' then
      let (out, c) ← orReject (parseJsonString c)
      return (⟨out, true⟩, c)
    else if isNumberStart b then
      let (out, c) ← orReject (parseJsonNumberAsString c)
      return (⟨out, false⟩, c)
    else
      match ← parseJsonBool c with
      | (some value, c) => return (⟨if value then ascii "true" else ascii "false", false⟩, c)
      | (none, c) =>
        if ← compareAt c (ascii "null") then return (⟨[], false⟩, skipBytes c 4)
        throw .rejected

/-! ## Skipping a value -/

mutual

def skipJsonValue : Nat → Cursor → Except Failure Cursor
  | 0, _ => .error .diverged
  | fuel + 1, c => do
    let c := skipWhitespace c
    match c.rest with
    | [] => return c
    | b :: _ =>
      if b = '{' then skipElements '}' fuel c.advance
      else if b = '[' then skipElements ']' fuel c.advance
      else if b = '"' then return (parseJsonString c).2
      else if (ascii "true").isPrefixOf c.rest || (ascii "false").isPrefixOf c.rest ||
          (ascii "null").isPrefixOf c.rest then
        let (_, c) ← parseJsonBool c
        if ← compareAt c (ascii "null") then return skipBytes c 4
        return c
      else
        match parseJsonNumberAsString c with
        | (some _, c) => return c
        | (none, c) => return c.advance

/-- The loop over the inside of an object or an array that ends with `close`. -/
def skipElements (close : Byte) : Nat → Cursor → Except Failure Cursor
  | 0, _ => .error .diverged
  | fuel + 1, c => do
    if c.rest = [] then return c
    let c := skipWhitespace (← skipJsonValue fuel c)
    if c.rest.head? = some (',' : Byte) then skipElements close fuel c.advance
    else if c.rest.head? = some close then return c.advance
    else skipElements close fuel c.advance

end

/-! ## Loops over members and elements -/

/-- The member loop of `parseRuleCondition`, `parseRuleCommand` and
`parseRuleObject`: `member` reads the value of one key, lowered, into `s`. -/
def parseMembers {σ : Type} (member : Bytes → σ → Cursor → Except Failure (σ × Cursor)) :
    Nat → σ → Cursor → Except Failure (σ × Cursor)
  | 0, _, _ => .error .diverged
  | fuel + 1, s, c => do
    let c := skipWhitespace c
    match c.rest with
    | [] => throw .rejected
    | b :: _ =>
      if b = '}' then return (s, c.advance)
      let (key, c) ← orReject (parseJsonString c)
      match consumeChar c ':' with
      | (false, _) => throw .rejected
      | (true, c) =>
        let (s, c) ← member (lower key) s c
        parseMembers member fuel s (skipComma c)

def parseObject {σ : Type} (member : Bytes → σ → Cursor → Except Failure (σ × Cursor)) (bound : Nat) (s : σ)
    (c : Cursor) : Except Failure (σ × Cursor) :=
  match consumeChar c '{' with
  | (false, _) => .error .rejected
  | (true, c) => parseMembers member bound s c

/-- The element loops of `parseRuleObject` and `parseRulesArray`. -/
def parseElements {α : Type} (element : Cursor → Except Failure (α × Cursor)) (push : List α → α → List α) :
    Nat → List α → Cursor → Except Failure (List α × Cursor)
  | 0, _, _ => .error .diverged
  | fuel + 1, out, c => do
    let c := skipWhitespace c
    match c.rest with
    | [] => throw .rejected
    | b :: _ =>
      if b = ']' then return (out, c.advance)
      let (x, c) ← element c
      parseElements element push fuel (push out x) (skipComma c)

def parseArray {α : Type} (element : Cursor → Except Failure (α × Cursor)) (push : List α → α → List α)
    (bound : Nat) (c : Cursor) : Except Failure (List α × Cursor) :=
  match consumeChar c '[' with
  | (false, _) => .error .rejected
  | (true, c) => parseElements element push bound [] c

/-! ## Reading printed text -/

theorem skipWhitespace_gap {gap : Bytes} {b : Byte} (s : Bytes) (hg : Blank gap)
    (hb : isSpace b = false) :
    skipWhitespace (.inside (gap ++ b :: s)) = .inside (b :: s) := by
  have hstop : Stops isSpace (b :: s) := by simp [hb]
  rw [skipWhitespace, skipSpaces, dropWhile_append_stop hg hstop]

theorem skipWhitespace_cons {b : Byte} (s : Bytes) (hb : isSpace b = false) :
    skipWhitespace (.inside (b :: s)) = .inside (b :: s) := by
  rw [skipWhitespace, skipSpaces_cons s hb]

theorem consumeChar_gap {gap : Bytes} {b : Byte} (s : Bytes) (hg : Blank gap)
    (hb : isSpace b = false) :
    consumeChar (.inside (gap ++ b :: s)) b = (true, .inside s) := by
  simp [consumeChar, skipWhitespace_gap s hg hb]

theorem skipComma_comma (s : Bytes) : skipComma (.inside ((',' : Byte) :: s)) = .inside s := by
  rw [skipComma, ← List.nil_append ((',' : Byte) :: s), consumeChar_gap s (by decide) (by decide)]

theorem skipComma_gap {gap : Bytes} {b : Byte} (s : Bytes) (hg : Blank gap)
    (hb : isSpace b = false) (hc : b ≠ ',') :
    skipComma (.inside (gap ++ b :: s)) = .inside (b :: s) := by
  simp [skipComma, consumeChar, skipWhitespace_gap s hg hb, hc]

/-- A byte is printed as itself, or as a backslash and a letter that stands for it. -/
theorem escapeByte_cases (c : Byte) :
    (escapeByte c = [c] ∧ c ≠ '"' ∧ c ≠ '\\') ∨
      ∃ letter, escapeByte c = [('\\' : Byte), letter] ∧ unescape letter = c := by
  by_cases hq : c = '"'
  · exact Or.inr ⟨'"', by rw [hq]; decide⟩
  by_cases hb : c = '\\'
  · exact Or.inr ⟨'\\', by rw [hb]; decide⟩
  by_cases h8 : c = 8
  · exact Or.inr ⟨'b', by rw [h8]; decide⟩
  by_cases h12 : c = 12
  · exact Or.inr ⟨'f', by rw [h12]; decide⟩
  by_cases h10 : c = 10
  · exact Or.inr ⟨'n', by rw [h10]; decide⟩
  by_cases h13 : c = 13
  · exact Or.inr ⟨'r', by rw [h13]; decide⟩
  by_cases h9 : c = 9
  · exact Or.inr ⟨'t', by rw [h9]; decide⟩
  exact Or.inl ⟨by simp [escapeByte, hq, hb, h8, h12, h10, h13, h9], hq, hb⟩

/-- The scanner undoes the escaper and stops behind the closing quote. -/
theorem stringBody_jsonEscape (s rest : Bytes) :
    stringBody (jsonEscape s ++ ('"' : Byte) :: rest) = (some s, rest) := by
  induction s with
  | nil => exact stringBody_quote rest
  | cons c s ih =>
    rcases escapeByte_cases c with ⟨h, hq, hb⟩ | ⟨letter, h, hu⟩
    · simp [h, stringBody_plain _ hq hb, ih]
    · simp [h, stringBody_escape, ih, hu]

theorem parseJsonString_quoted {gap : Bytes} (s rest : Bytes) (hg : Blank gap) :
    parseJsonString (.inside (gap ++ ('"' : Byte) :: (jsonEscape s ++ ('"' : Byte) :: rest))) =
      (some s, .inside rest) := by
  simp only [parseJsonString, skipWhitespace_gap _ hg (show isSpace '"' = false by decide),
    ↓reduceIte, stringBody_jsonEscape]

theorem parseJsonValueAsString_quoted (s rest : Bytes) :
    parseJsonValueAsString (.inside (('"' : Byte) :: (jsonEscape s ++ ('"' : Byte) :: rest))) =
      .ok (⟨s, true⟩, .inside rest) := by
  have hspace := skipWhitespace_cons (jsonEscape s ++ ('"' : Byte) :: rest)
    (show isSpace '"' = false by decide)
  have hread := parseJsonString_quoted s rest blank_nil
  rw [List.nil_append] at hread
  simp [parseJsonValueAsString, hspace, hread, orReject]

/-- A numeral that does not start with its point is read as a whole. -/
theorem parseJsonValueAsString_numeral (p : NumeralParts) (hp : p.sign = [] → p.whole ≠ [])
    {s : Bytes} (hs : Stops isNumeralByte s) :
    parseJsonValueAsString (.inside (p.text ++ s)) = .ok (⟨p.text, false⟩, .inside s) := by
  obtain ⟨b, t, hb, htext⟩ : ∃ b t, (isSign b = true ∨ isDigit b = true) ∧ p.text = b :: t := by
    rcases p.sign_eq with h | ⟨b, hb, h⟩
    · cases hw : p.whole with
      | nil => exact absurd hw (hp h)
      | cons b t =>
        exact ⟨b, t ++ p.fraction ++ p.exponent, Or.inr (p.whole_digits b (by simp [hw])),
          by simp [NumeralParts.text, NumeralParts.magnitude, h, hw]⟩
    · exact ⟨b, p.magnitude, Or.inl hb, by simp [NumeralParts.text, h]⟩
  have hstart : isNumberStart b = true := by
    rcases hb with hb | hb
    · simpa [isNumberStart, isSign, or_assoc] using Or.inl hb
    · simp [isNumberStart, hb]
  have hplain : isSpace b = false ∧ b ≠ '"' := by
    rcases hb with hb | hb
    · have : b = '-' ∨ b = '+' := by simpa [isSign] using hb
      rcases this with rfl | rfl <;> decide
    · exact ⟨isSpace_of_isDigit hb, ne_of_isDigit hb (by decide)⟩
  have hspace : skipWhitespace (.inside (p.text ++ s)) = .inside (p.text ++ s) := by
    rw [htext, List.cons_append, skipWhitespace_cons _ hplain.1]
  have hread : parseJsonNumberAsString (.inside (p.text ++ s)) = (some p.text, .inside s) := by
    simp [parseJsonNumberAsString, hspace, numberToken_append p hs]
  have hrest : (Cursor.inside (p.text ++ s)).rest = b :: (t ++ s) := by simp [htext]
  simp [parseJsonValueAsString, hspace, hrest, hplain.2, hstart, hread, orReject]

theorem parseMembers_end {σ : Type} {member : Bytes → σ → Cursor → Except Failure (σ × Cursor)}
    {gap : Bytes} (fuel : Nat) (st : σ) (s : Bytes) (hg : Blank gap) :
    parseMembers member (fuel + 1) st (.inside (gap ++ ('}' : Byte) :: s)) =
      .ok (st, .inside s) := by
  simp [parseMembers, skipWhitespace_gap s hg (show isSpace '}' = false by decide)]

/-- One member of an object: the key is read, the value goes to `member`. -/
theorem parseMembers_member {σ : Type}
    {member : Bytes → σ → Cursor → Except Failure (σ × Cursor)} {gap key : Bytes} (fuel : Nat)
    (st : σ) (s : Bytes) (hg : Blank gap) (hkey : jsonEscape key = key) :
    parseMembers member (fuel + 1) st
        (.inside (gap ++ ('"' : Byte) :: (key ++ ('"' : Byte) :: (':' : Byte) :: s))) =
      (do
        let (st, c) ← member (lower key) st (.inside s)
        parseMembers member fuel st (skipComma c)) := by
  have hspace := skipWhitespace_gap (key ++ ('"' : Byte) :: (':' : Byte) :: s) hg
    (show isSpace '"' = false by decide)
  have hread := parseJsonString_quoted key ((':' : Byte) :: s) blank_nil
  rw [List.nil_append, hkey] at hread
  have hcolon := consumeChar_gap s blank_nil (show isSpace ':' = false by decide)
  rw [List.nil_append] at hcolon
  have hbrace : ('"' : Byte) ≠ '}' := by decide
  simp [parseMembers, hspace, hread, hcolon, hbrace, orReject]

theorem parseElements_end {α : Type} {element : Cursor → Except Failure (α × Cursor)}
    {push : List α → α → List α} {gap : Bytes} (fuel : Nat) (out : List α) (s : Bytes)
    (hg : Blank gap) :
    parseElements element push (fuel + 1) out (.inside (gap ++ (']' : Byte) :: s)) =
      .ok (out, .inside s) := by
  simp [parseElements, skipWhitespace_gap s hg (show isSpace ']' = false by decide)]

theorem parseElements_element {α : Type} {element : Cursor → Except Failure (α × Cursor)}
    {push : List α → α → List α} {gap : Bytes} {b : Byte} (fuel : Nat) (out : List α) (s : Bytes)
    (hg : Blank gap) (hb : isSpace b = false) (hne : b ≠ ']') :
    parseElements element push (fuel + 1) out (.inside (gap ++ b :: s)) =
      (do
        let (x, c) ← element (.inside (b :: s))
        parseElements element push fuel (push out x) (skipComma c)) := by
  simp [parseElements, skipWhitespace_gap s hg hb, hne]

theorem parseObject_open {σ : Type} {member : Bytes → σ → Cursor → Except Failure (σ × Cursor)}
    (bound : Nat) (st : σ) (s : Bytes) :
    parseObject member bound st (.inside (ascii "\x7b" ++ s)) =
      parseMembers member bound st (.inside s) := by
  have h := consumeChar_gap s blank_nil (show isSpace '{' = false by decide)
  change parseObject member bound st (.inside ([] ++ ('{' : Byte) :: s)) = _
  simp only [parseObject, h]

theorem parseArray_open {α : Type} {element : Cursor → Except Failure (α × Cursor)}
    {push : List α → α → List α} (bound : Nat) (s : Bytes) :
    parseArray element push bound (.inside (ascii "[" ++ s)) =
      parseElements element push bound [] (.inside s) := by
  have h := consumeChar_gap s blank_nil (show isSpace '[' = false by decide)
  change parseArray element push bound (.inside ([] ++ ('[' : Byte) :: s)) = _
  simp only [parseArray, h]

end InverterMonitor.Json
