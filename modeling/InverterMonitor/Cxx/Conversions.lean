import InverterMonitor.Text.Bytes

/-!
# Number conversions of the C and C++ libraries

`strtoul`, `std::stoul`, `std::stod`, the extractions of `std::istream` and the
`%g` and `%f` output of a double, in the C locale.  A double is Lean's
`Float`.  Proved here:

* `strtoul_decimal`, `extractUnsigned_decimal`, `stoul_decimal`: a printed
  number that fits is read back;
* `stod_isFinite`: a numeral converts to a finite double or throws;
* `formatGeneral_eq`: a finite double is printed as a numeral.
-/

namespace Cxx
open Text

/-- What the throwing conversions of the standard library throw. -/
inductive Exception
  | invalidArgument
  | outOfRange
  deriving DecidableEq, Repr

/-! ## Functions that may fail -/

section

variable {ε α β : Type}

@[simp] theorem pure_eq_ok (a : α) : (pure a : Except ε α) = .ok a := rfl
@[simp] theorem throw_eq_error (e : ε) : (throw e : Except ε α) = .error e := rfl
@[simp] theorem ok_bind (a : α) (f : α → Except ε β) : (Except.ok a >>= f) = f a := rfl
@[simp] theorem error_bind (e : ε) (f : α → Except ε β) :
    (Except.error e >>= f) = .error e := rfl
@[simp] theorem ok_map (f : α → β) (a : α) : (Except.ok a : Except ε α).map f = .ok (f a) := rfl
@[simp] theorem error_map (f : α → β) (e : ε) :
    (Except.error e : Except ε α).map f = .error e := rfl

/-- A computation succeeds when its parts do, one after the other. -/
theorem bind_eq_ok {x : Except ε α} {f : α → Except ε β} {b : β} :
    (x >>= f) = .ok b ↔ ∃ a, x = .ok a ∧ f a = .ok b := by
  cases x with
  | ok a => simp
  | error e => simp

end

/-! ## Signs and digit runs -/

/-- An optional sign, and whether it is a minus. -/
def readSign : Bytes → Bool × Bytes
  | [] => (false, [])
  | b :: s => if b = '-' then (true, s) else if b = '+' then (false, s) else (false, b :: s)

def Digits (s : Bytes) : Prop := ∀ b ∈ s, isDigit b = true

instance (s : Bytes) : Decidable (Digits s) :=
  decidable_of_iff (s.all isDigit = true) List.all_eq_true

def digitsOf (s : Bytes) : Bytes := s.takeWhile isDigit
def afterDigits (s : Bytes) : Bytes := s.dropWhile isDigit

/-- `-n` in an unsigned type is taken modulo `2 ^ bits`. -/
def wrapSign (bits : Nat) (negative : Bool) (n : Nat) : Nat :=
  if negative then (2 ^ bits - n) % 2 ^ bits else n

theorem digits_decimal (n : Nat) : Digits (decimal n) := decimal_digits n

theorem digits_digitsOf (s : Bytes) : Digits (digitsOf s) := takeWhile_all isDigit s

theorem digitsOf_append_afterDigits (s : Bytes) : digitsOf s ++ afterDigits s = s :=
  List.takeWhile_append_dropWhile

theorem stops_afterDigits (s : Bytes) : Stops isDigit (afterDigits s) := stops_dropWhile isDigit s

theorem digitsOf_append {ds rest : Bytes} (hds : Digits ds) (hr : Stops isDigit rest) :
    digitsOf (ds ++ rest) = ds := takeWhile_append_stop hds hr

theorem afterDigits_append {ds rest : Bytes} (hds : Digits ds) (hr : Stops isDigit rest) :
    afterDigits (ds ++ rest) = rest := dropWhile_append_stop hds hr

theorem skipSpaces_digits {ds : Bytes} (rest : Bytes) (hds : Digits ds) (hne : ds ≠ []) :
    skipSpaces (ds ++ rest) = ds ++ rest :=
  skipSpaces_word rest ⟨hne, fun b hb => isSpace_of_isDigit (hds b hb)⟩

theorem readSign_digits {ds : Bytes} (rest : Bytes) (hds : Digits ds) (hne : ds ≠ []) :
    readSign (ds ++ rest) = (false, ds ++ rest) := by
  cases ds with
  | nil => exact absurd rfl hne
  | cons b ds =>
    have hb := hds b (by simp)
    simp [readSign, ne_of_isDigit hb (show isDigit '-' = false by decide),
      ne_of_isDigit hb (show isDigit '+' = false by decide)]

/-! ## Unsigned conversions -/

structure Converted where
  value : Nat
  overflow : Bool
  deriving DecidableEq, Repr

/-- `strtoul(s, &end, 10)` for a `bits`-wide `unsigned long`; `none` when no
digits are read, so that `end == s`.  An overflow saturates. -/
def strtoul (bits : Nat) (s : Bytes) : Option Converted :=
  let (negative, t) := readSign (skipSpaces s)
  let ds := digitsOf t
  if ds = [] then none
  else if 2 ^ bits ≤ numeralValue ds then some ⟨2 ^ bits - 1, true⟩
  else some ⟨wrapSign bits negative (numeralValue ds), false⟩

/-- `std::stoul`, where `unsigned long` has 64 bits. -/
def stoul (s : Bytes) : Except Exception UInt64 :=
  match strtoul 64 s with
  | none => .error .invalidArgument
  | some c => if c.overflow then .error .outOfRange else .ok (UInt64.ofNat c.value)

/-- `in >> n` for an unsigned `n` of `bits` bits: the value and the rest of the
stream, `none` when the stream fails. -/
def extractUnsigned (bits : Nat) (s : Bytes) : Option (Nat × Bytes) :=
  let (negative, t) := readSign (skipSpaces s)
  let ds := digitsOf t
  if ds = [] ∨ 2 ^ bits ≤ numeralValue ds then none
  else some (wrapSign bits negative (numeralValue ds), afterDigits t)

theorem strtoul_decimal {bits n : Nat} {rest : Bytes} (hn : n < 2 ^ bits)
    (hr : Stops isDigit rest) : strtoul bits (decimal n ++ rest) = some ⟨n, false⟩ := by
  have hd := digits_decimal n
  have hne := decimal_ne_nil n
  simp only [strtoul, skipSpaces_digits rest hd hne, readSign_digits rest hd hne,
    digitsOf_append hd hr, hne, numeralValue_decimal, Nat.not_le.mpr hn, ↓reduceIte, wrapSign,
    Bool.false_eq_true]

theorem extractUnsigned_decimal {bits n : Nat} {rest : Bytes} (hn : n < 2 ^ bits)
    (hr : Stops isDigit rest) : extractUnsigned bits (decimal n ++ rest) = some (n, rest) := by
  have hd := digits_decimal n
  have hne := decimal_ne_nil n
  simp only [extractUnsigned, skipSpaces_digits rest hd hne, readSign_digits rest hd hne,
    digitsOf_append hd hr, afterDigits_append hd hr, hne, numeralValue_decimal,
    Nat.not_le.mpr hn, or_self, ↓reduceIte, wrapSign, Bool.false_eq_true]

theorem stoul_decimal_of_lt {n : Nat} (hn : n < 2 ^ 64) :
    stoul (decimal n) = .ok (UInt64.ofNat n) := by
  have h := strtoul_decimal hn (stops_nil isDigit)
  rw [List.append_nil] at h
  simp only [stoul, h, Bool.false_eq_true, ↓reduceIte]

theorem stoul_decimal (n : UInt32) : stoul (decimal n.toNat) = .ok n.toUInt64 := by
  rw [stoul_decimal_of_lt (Nat.lt_trans n.toNat_lt (by decide)), UInt64.ofNat_uInt32ToNat]

/-- `in >> n` for a signed `n` of `bits` bits. -/
def extractInt (bits : Nat) (s : Bytes) : Option (Int × Bytes) :=
  let (negative, t) := readSign (skipSpaces s)
  let ds := digitsOf t
  let n : Int := if negative then -(numeralValue ds) else numeralValue ds
  if ds = [] ∨ n < -2 ^ (bits - 1) ∨ 2 ^ (bits - 1) ≤ n then none
  else some (n, afterDigits t)

/-- `in >> c` for a `char`. -/
def extractChar (s : Bytes) : Option (Byte × Bytes) :=
  match skipSpaces s with
  | [] => none
  | b :: t => some (b, t)

/-! ## Floating-point conversions -/

/-- The magnitude of a finite double as a quotient of integers. -/
def quotient (x : Float) : Option (Nat × Nat) :=
  match x.toModel.unpack with
  | .zero _ => some (0, 1)
  | .finite _ m e _ => some (if e < 0 then (m, 2 ^ e.natAbs) else (m * 2 ^ e.natAbs, 1))
  | _ => none

def isFinite (x : Float) : Bool := (quotient x).isSome

/-- The magnitude a numeral denotes: `mantissa * 10 ^ exponent`. -/
inductive Magnitude
  | number (mantissa : Nat) (exponent : Int)
  | infinity
  | nan
  deriving DecidableEq, Repr

/-- The digits of the class `p` after a point, and what follows them. -/
def splitFraction (p : Byte → Bool) : Bytes → Bytes × Bytes
  | [] => ([], [])
  | b :: s => if b = '.' then (s.takeWhile p, s.dropWhile p) else ([], b :: s)

/-- The value of an exponent part introduced by the letter `e`; zero when no digits follow. -/
def exponentOf (e : Byte) : Bytes → Int
  | [] => 0
  | b :: s =>
    if toLower b = e then
      let (negative, t) := readSign s
      if negative then -(numeralValue (digitsOf t)) else numeralValue (digitsOf t)
    else 0

def decimalMagnitude (s : Bytes) : Option Magnitude :=
  let whole := digitsOf s
  let (fraction, rest) := splitFraction isDigit (afterDigits s)
  if whole ++ fraction = [] then none
  else some (.number (numeralValue (whole ++ fraction)) (exponentOf 'e' rest - fraction.length))

def isHexDigit (b : Byte) : Bool := isDigit b || (97 ≤ toLower b && toLower b ≤ 102)
def hexDigitValue (b : Byte) : Nat := if isDigit b then digitValue b else (toLower b).toNat - 87
def hexNumeralValue (ds : Bytes) : Nat := ds.foldl (fun v b => v * 16 + hexDigitValue b) 0

/-- `mantissa * 2 ^ exponent` as a decimal magnitude. -/
def binaryMagnitude (mantissa : Nat) (exponent : Int) : Magnitude :=
  if exponent < 0 then .number (mantissa * 5 ^ exponent.natAbs) exponent
  else .number (mantissa * 2 ^ exponent.natAbs) 0

def hexMagnitude (s : Bytes) : Option Magnitude :=
  let whole := s.takeWhile isHexDigit
  let (fraction, rest) := splitFraction isHexDigit (s.dropWhile isHexDigit)
  if whole ++ fraction = [] then none
  else some (binaryMagnitude (hexNumeralValue (whole ++ fraction))
    (exponentOf 'p' rest - 4 * fraction.length))

/-- The longest prefix of an unsigned text that `strtod` converts. -/
def magnitudeOf (s : Bytes) : Option Magnitude :=
  if lower (s.take 3) = ascii "inf" then some .infinity
  else if lower (s.take 3) = ascii "nan" then some .nan
  else if lower (s.take 2) = ascii "0x" then
    -- without hexadecimal digits only the leading zero is converted
    some ((hexMagnitude (s.drop 2)).getD (.number 0 0))
  else decimalMagnitude s

/-- The result is subnormal and not exact, so that `strtod` reports a range error. -/
def underflows (mantissa : Nat) (exponent : Int) : Bool :=
  exponent < 0 && mantissa * 2 ^ 1076 < 10 ^ exponent.natAbs * (2 ^ 54 - 1) &&
    mantissa * 2 ^ 1074 % 10 ^ exponent.natAbs != 0

def nearestDouble (mantissa : Nat) (exponent : Int) : Float :=
  Float.ofScientific mantissa (exponent < 0) exponent.natAbs

def withSign (negative : Bool) (x : Float) : Float := if negative then -x else x

/-- `std::stod`. -/
def stod (s : Bytes) : Except Exception Float :=
  let t := readSign (skipSpaces s)
  match magnitudeOf t.2 with
  | none => .error .invalidArgument
  | some .infinity => .ok (withSign t.1 (1 / 0))
  | some .nan => .ok (0 / 0)
  | some (.number m e) =>
    let x := withSign t.1 (nearestDouble m e)
    if !isFinite x || underflows m e then .error .outOfRange else .ok x

/-- The part of `in >> x` after the sign and the digits before an exponent. -/
def extractExponent : Bytes → Option (Int × Bytes)
  | [] => some (0, [])
  | b :: s =>
    if toLower b = 'e' then
      let (negative, t) := readSign s
      let n : Int := numeralValue (digitsOf t)
      if digitsOf t = [] then none else some (if negative then -n else n, afterDigits t)
    else some (0, b :: s)

/-- `in >> x` for a `double`.  An overflow fails, an underflow does not. -/
def extractDouble (s : Bytes) : Option (Float × Bytes) :=
  let (negative, t) := readSign (skipSpaces s)
  let (fraction, rest) := splitFraction isDigit (afterDigits t)
  let ds := digitsOf t ++ fraction
  if ds = [] then none
  else do
    let (e, rest) ← extractExponent rest
    let x := withSign negative (nearestDouble (numeralValue ds) (e - fraction.length))
    if !isFinite x then none else some (x, rest)

/-! ## Output of doubles -/

/-- `a / b` rounded to the nearest integer, to the even one at a tie. -/
def halfEvenDiv (a b : Nat) : Nat :=
  let q := a / b
  let r := a % b
  if 2 * r < b then q else if b < 2 * r then q + 1 else q + q % 2

def isNegative (x : Float) : Bool := 2 ^ 63 ≤ x.toBits.toNat

/-- The decimal exponent of the positive quotient `n / d`. -/
def decimalExponent (n d : Nat) : Int :=
  if d ≤ n then (decimal (n / d)).length - 1 else -(decimal ((d - 1) / n)).length

/-- `n / d` rounded to `p` significant digits: the digits and the exponent of the first. -/
def significant (p n d : Nat) : Nat × Int :=
  let x := decimalExponent n d
  let shift := (p : Int) - 1 - x
  let ds := if shift < 0 then halfEvenDiv n (d * 10 ^ shift.natAbs)
    else halfEvenDiv (n * 10 ^ shift.natAbs) d
  if ds = 10 ^ p then (10 ^ (p - 1), x + 1) else (ds, x)

def stripZeros (fraction : Bytes) : Bytes := fraction.rdropWhile (· == '0')

def withFraction (whole fraction : Bytes) : Bytes :=
  if stripZeros fraction = [] then whole else whole ++ ('.' : Byte) :: stripZeros fraction

/-- At least two exponent digits are printed. -/
def formatExponent (x : Int) : Bytes :=
  'e' :: (if x < 0 then '-' else '+') ::
    (if x.natAbs < 10 then '0' :: decimal x.natAbs else decimal x.natAbs)

def formatSignificant (p : Nat) (ds : Bytes) (x : Int) : Bytes :=
  if x < -4 ∨ (p : Int) ≤ x then
    withFraction (ds.take 1) (ds.drop 1) ++ formatExponent x
  else if x < 0 then
    withFraction (ascii "0") (List.replicate (x.natAbs - 1) ('0' : Byte) ++ ds)
  else withFraction (ds.take (x.natAbs + 1)) (ds.drop (x.natAbs + 1))

def signText (x : Float) : Bytes := if isNegative x then ascii "-" else []

/-- `printf("%.*g", p, x)`, the form in which a stream of precision `p` prints a double. -/
def formatGeneral (p : Nat) (x : Float) : Bytes :=
  match quotient x with
  | none => if x.isNaN then ascii "nan" else signText x ++ ascii "inf"
  | some (n, d) =>
    if n = 0 then signText x ++ ascii "0"
    else
      let (ds, e) := significant p n d
      signText x ++ formatSignificant p (decimal ds) e

/-- `std::round` of a double that is not negative, as an index. -/
def roundHalfAway (x : Float) : Nat :=
  match quotient x with
  | none => 0
  | some (n, d) => (2 * n + d) / (2 * d)

/-- `printf("%.*f", p, x)`. -/
def formatFixed (p : Nat) (x : Float) : Bytes :=
  match quotient x with
  | none => if x.isNaN then ascii "nan" else signText x ++ ascii "inf"
  | some (n, d) =>
    let ds := decimal (halfEvenDiv (n * 10 ^ p) d)
    let padded := List.replicate (p + 1 - ds.length) ('0' : Byte) ++ ds
    signText x ++ padded.take (padded.length - p) ++ ('.' : Byte) :: padded.drop (padded.length - p)

/-! ## Numerals -/

def isSign (b : Byte) : Bool := b == '-' || b == '+'

/-- The bytes a decimal numeral may contain. -/
def isNumeralByte (b : Byte) : Bool := isDigit b || isSign b || b == '.' || toLower b == 'e'

/-- `[+-] digits [. digits] [e [+-] digits]` with at least one digit before the exponent. -/
structure NumeralParts where
  sign : Bytes
  whole : Bytes
  fraction : Bytes
  exponent : Bytes
  sign_eq : sign = [] ∨ ∃ b, isSign b = true ∧ sign = [b]
  whole_digits : Digits whole
  fraction_eq : fraction = [] ∨ ∃ ds, Digits ds ∧ fraction = ('.' : Byte) :: ds
  has_digit : whole ≠ [] ∨ fraction.tail ≠ []
  exponent_eq : exponent = [] ∨ ∃ e s ds, toLower e = ('e' : Byte) ∧
    (s = [] ∨ ∃ b, isSign b = true ∧ s = [b]) ∧ Digits ds ∧ ds ≠ [] ∧ exponent = e :: s ++ ds

namespace NumeralParts

def magnitude (p : NumeralParts) : Bytes := p.whole ++ p.fraction ++ p.exponent

def text (p : NumeralParts) : Bytes := p.sign ++ p.magnitude

theorem magnitude_head (p : NumeralParts) :
    ∃ b t, p.magnitude = b :: t ∧ (isDigit b = true ∨ b = '.') := by
  rcases List.eq_nil_or_concat p.whole with hw | _
  · rcases p.fraction_eq with hf | ⟨ds, _, hf⟩
    · exact absurd p.has_digit (by simp [hw, hf])
    · exact ⟨'.', ds ++ p.exponent, by simp [magnitude, hw, hf], Or.inr rfl⟩
  · cases hw : p.whole with
    | nil => simp_all
    | cons b t =>
      exact ⟨b, t ++ p.fraction ++ p.exponent, by simp [magnitude, hw],
        Or.inl (p.whole_digits b (by simp [hw]))⟩

theorem readSign_text (p : NumeralParts) : (readSign (skipSpaces p.text)).2 = p.magnitude := by
  obtain ⟨b, t, hm, hb⟩ := p.magnitude_head
  rcases p.sign_eq with hs | ⟨c, hc, hs⟩
  · have hspace : isSpace b = false := by
      rcases hb with hb | rfl
      · exact isSpace_of_isDigit hb
      · decide
    have hsign : b ≠ '-' ∧ b ≠ '+' := by
      rcases hb with hb | rfl
      · exact ⟨ne_of_isDigit hb (by decide), ne_of_isDigit hb (by decide)⟩
      · decide
    rw [text, hs, List.nil_append, hm, skipSpaces_cons t hspace]
    simp [readSign, hsign]
  · have hc' : c = '-' ∨ c = '+' := by simpa [isSign] using hc
    rw [text, hs, List.singleton_append]
    rcases hc' with rfl | rfl
    · rw [skipSpaces_cons _ (by decide)]
      rfl
    · rw [skipSpaces_cons _ (by decide)]
      rfl

end NumeralParts

def IsNumeral (s : Bytes) : Prop := ∃ p : NumeralParts, s = p.text

theorem isNumeralByte_of_isDigit {b : Byte} (h : isDigit b = true) : isNumeralByte b = true := by
  simp [isNumeralByte, h]

theorem isNumeralByte_of_isSign {b : Byte} (h : isSign b = true) : isNumeralByte b = true := by
  simp [isNumeralByte, h]

theorem IsNumeral.bytes {s : Bytes} (h : IsNumeral s) : ∀ b ∈ s, isNumeralByte b = true := by
  obtain ⟨p, rfl⟩ := h
  have hsign : ∀ t : Bytes, (t = [] ∨ ∃ b, isSign b = true ∧ t = [b]) →
      ∀ b ∈ t, isNumeralByte b = true := by
    rintro t (rfl | ⟨b, hb, rfl⟩) c hc
    · simp at hc
    · rw [List.mem_singleton.mp hc]
      exact isNumeralByte_of_isSign hb
  intro b hb
  simp only [NumeralParts.text, NumeralParts.magnitude, List.mem_append] at hb
  rcases hb with hb | (hb | hb) | hb
  · exact hsign _ p.sign_eq b hb
  · exact isNumeralByte_of_isDigit (p.whole_digits b hb)
  · rcases p.fraction_eq with h | ⟨ds, hds, h⟩
    · simp [h] at hb
    · rw [h] at hb
      rcases List.mem_cons.mp hb with rfl | hb
      · decide
      · exact isNumeralByte_of_isDigit (hds b hb)
  · rcases p.exponent_eq with h | ⟨e, t, ds, he, ht, hds, _, h⟩
    · simp [h] at hb
    · rw [h] at hb
      simp only [List.cons_append, List.mem_cons, List.mem_append] at hb
      rcases hb with rfl | hb | hb
      · simp [isNumeralByte, he]
      · exact hsign _ ht b hb
      · exact isNumeralByte_of_isDigit (hds b hb)

theorem hexMagnitude_number {s : Bytes} {m : Magnitude} (h : hexMagnitude s = some m) :
    ∃ n e, m = .number n e := by
  simp only [hexMagnitude, binaryMagnitude, Option.ite_none_left_eq_some,
    Option.some.injEq] at h
  rw [← h.2]
  split
  · exact ⟨_, _, rfl⟩
  · exact ⟨_, _, rfl⟩

theorem decimalMagnitude_number {s : Bytes} {m : Magnitude} (h : decimalMagnitude s = some m) :
    ∃ n e, m = .number n e := by
  simp only [decimalMagnitude, Option.ite_none_left_eq_some, Option.some.injEq] at h
  exact ⟨_, _, h.2.symm⟩

theorem magnitudeOf_number {s : Bytes} {m : Magnitude} (hinf : lower (s.take 3) ≠ ascii "inf")
    (hnan : lower (s.take 3) ≠ ascii "nan") (h : magnitudeOf s = some m) :
    ∃ n e, m = .number n e := by
  simp only [magnitudeOf, hinf, hnan, ↓reduceIte] at h
  split at h
  · cases hx : hexMagnitude (s.drop 2) with
    | none =>
      rw [hx] at h
      exact ⟨0, 0, (Option.some.inj h).symm⟩
    | some m' =>
      rw [hx] at h
      exact (Option.some.inj h) ▸ hexMagnitude_number hx
  · exact decimalMagnitude_number h

/-- A numeral denotes neither an infinity nor a NaN, so `stod` returns a finite double. -/
theorem stod_isFinite {s : Bytes} (h : IsNumeral s) {x : Float} (hx : stod s = .ok x) :
    isFinite x = true := by
  obtain ⟨p, rfl⟩ := h
  obtain ⟨b, t, hm, hb⟩ := p.magnitude_head
  have hlower : toLower b = b := by
    rcases hb with hb | rfl
    · exact toLower_of_isDigit hb
    · decide
  have hword : ∀ (c : Byte) (w : Bytes) (n : Nat), isDigit c = false → c ≠ '.' →
      lower ((b :: t).take (n + 1)) ≠ c :: w := by
    intro c w n hc hdot e
    have hbc : b = c := by
      rw [← hlower]
      exact (List.cons.inj e).1
    rcases hb with hb | hb
    · exact ne_of_isDigit hb hc hbc
    · exact hdot (hbc ▸ hb)
  have hinf : lower ((b :: t).take 3) ≠ ascii "inf" :=
    hword 'i' (ascii "nf") 2 (by decide) (by decide)
  have hnan : lower ((b :: t).take 3) ≠ ascii "nan" :=
    hword 'n' (ascii "an") 2 (by decide) (by decide)
  simp only [stod, p.readSign_text, hm] at hx
  rcases hmag : magnitudeOf (b :: t) with _ | m
  · simp [hmag] at hx
  · obtain ⟨n, e, rfl⟩ := magnitudeOf_number hinf hnan hmag
    simp only [hmag] at hx
    split at hx
    · cases hx
    · next h =>
      cases hx
      simp only [Bool.or_eq_true, not_or, Bool.not_eq_true, Bool.not_eq_false'] at h
      exact h.1

theorem withFraction_eq (whole : Bytes) {fraction : Bytes} (h : Digits fraction) :
    ∃ f, (f = [] ∨ ∃ ds, Digits ds ∧ f = ('.' : Byte) :: ds) ∧
      withFraction whole fraction = whole ++ f := by
  unfold withFraction
  split
  · exact ⟨[], Or.inl rfl, by simp⟩
  · have hstrip : Digits (stripZeros fraction) := fun b hb =>
      h b ((List.rdropWhile_prefix _ _).subset hb)
    exact ⟨_, Or.inr ⟨_, hstrip, rfl⟩, rfl⟩

theorem formatExponent_eq (x : Int) :
    ∃ s ds, isSign s = true ∧ Digits ds ∧ ds ≠ [] ∧
      formatExponent x = ('e' : Byte) :: [s] ++ ds := by
  refine ⟨if x < 0 then '-' else '+',
    if x.natAbs < 10 then '0' :: decimal x.natAbs else decimal x.natAbs, ?_, ?_, ?_, rfl⟩
  · split <;> decide
  · split
    · intro b hb
      rcases List.mem_cons.mp hb with rfl | hb
      · decide
      · exact decimal_digits _ b hb
    · exact decimal_digits _
  · split
    · simp
    · exact decimal_ne_nil _

/-- The digits of a finite double are printed as a numeral that starts with a digit. -/
theorem formatSignificant_eq (p : Nat) {ds : Bytes} (x : Int) (hds : Digits ds) (hne : ds ≠ []) :
    ∃ q : NumeralParts, q.sign = [] ∧ q.whole ≠ [] ∧ formatSignificant p ds x = q.text := by
  have htake : ∀ n, Digits (ds.take n) := fun n b hb => hds b (List.mem_of_mem_take hb)
  have hdrop : ∀ n, Digits (ds.drop n) := fun n b hb => hds b (List.mem_of_mem_drop hb)
  have hpos : ∀ n, ds.take (n + 1) ≠ [] := by simp [hne]
  have hfixed : ∀ whole fraction, Digits whole → whole ≠ [] → Digits fraction →
      ∃ q : NumeralParts, q.sign = [] ∧ q.whole ≠ [] ∧ withFraction whole fraction = q.text := by
    intro whole fraction hw hwne hf
    obtain ⟨f, hf, e⟩ := withFraction_eq whole hf
    exact ⟨⟨[], whole, f, [], Or.inl rfl, hw, hf, Or.inl hwne, Or.inl rfl⟩, rfl, hwne,
      by simp [NumeralParts.text, NumeralParts.magnitude, e]⟩
  unfold formatSignificant
  split
  · obtain ⟨f, hf, e⟩ := withFraction_eq (ds.take 1) (hdrop 1)
    obtain ⟨s, es, hs, hes, hesne, e'⟩ := formatExponent_eq x
    refine ⟨⟨[], ds.take 1, f, formatExponent x, Or.inl rfl, htake 1, hf, Or.inl (hpos 0),
      Or.inr ⟨'e', [s], es, by decide, Or.inr ⟨s, hs, rfl⟩, hes, hesne, e'⟩⟩, rfl, hpos 0, ?_⟩
    simp only [NumeralParts.text, NumeralParts.magnitude, e, List.nil_append]
  · split
    · apply hfixed (ascii "0") _ (by decide) (by decide)
      intro b hb
      rcases List.mem_append.mp hb with hb | hb
      · rw [List.eq_of_mem_replicate hb]
        decide
      · exact hds b hb
    · exact hfixed _ _ (htake _) (hpos _) (hdrop _)

theorem formatGeneral_eq (p : Nat) {x : Float} (hx : isFinite x = true) :
    ∃ q : NumeralParts, q.whole ≠ [] ∧ formatGeneral p x = q.text := by
  obtain ⟨⟨n, d⟩, hq⟩ := Option.isSome_iff_exists.mp hx
  have hbody : ∃ q : NumeralParts, q.sign = [] ∧ q.whole ≠ [] ∧
      formatGeneral p x = signText x ++ q.text := by
    simp only [formatGeneral, hq]
    split
    · exact ⟨⟨[], ascii "0", [], [], Or.inl rfl, by decide, Or.inl rfl, Or.inl (by decide),
        Or.inl rfl⟩, rfl, by decide, by simp [NumeralParts.text, NumeralParts.magnitude]⟩
    · obtain ⟨q, hs, hw, e⟩ := formatSignificant_eq p (significant p n d).2
        (decimal_digits (significant p n d).1) (decimal_ne_nil _)
      exact ⟨q, hs, hw, by rw [e]⟩
  obtain ⟨q, hs, hw, e⟩ := hbody
  have hsign : signText x = [] ∨ ∃ b, isSign b = true ∧ signText x = [b] := by
    unfold signText
    split
    · exact Or.inr ⟨'-', by decide, by decide⟩
    · exact Or.inl rfl
  refine ⟨⟨signText x, q.whole, q.fraction, q.exponent, hsign, q.whole_digits, q.fraction_eq,
    q.has_digit, q.exponent_eq⟩, hw, ?_⟩
  rw [e, NumeralParts.text, NumeralParts.text, hs]
  rfl

end Cxx
