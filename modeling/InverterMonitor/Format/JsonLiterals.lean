import InverterMonitor.Text.Bytes

/-!
# String literals of JSON

The characters between the quotes of a literal, as they are written, and what they
stand for: RFC 8259, section 7, in UTF-8.
-/

namespace InverterMonitor.JsonLiteral
open Text

def isHexDigit (b : Byte) : Bool :=
  isDigit b || (65 ≤ b && b ≤ 70) || (97 ≤ b && b ≤ 102)

def hexDigitValue (b : Byte) : Nat :=
  if isDigit b then b.toNat - 48 else if b ≤ 70 then b.toNat - 55 else b.toNat - 87

def hexValue (digits : Bytes) : Nat := digits.foldl (fun n b => n * 16 + hexDigitValue b) 0

/-- A character of a literal, with the digits of `\\uXXXX` as they are written. -/
inductive Piece
  | unescaped (c : Char)
  | short (letter : Byte)
  | codePoint (digits : Bytes)
  | surrogates (high low : Bytes)

/-- The character of a two-character escape. -/
def shortEscapes : List (Byte × Char) :=
  [('"', '"'), ('\\', '\\'), ('/', '/'), ('b', '\x08'), ('f', '\x0c'), ('n', '\n'), ('r', '\r'),
    ('t', '\t')]

namespace Piece

def text : Piece → Bytes
  | unescaped c => String.utf8EncodeChar c
  | short letter => [('\\' : Byte), letter]
  | codePoint digits => ('\\' : Byte) :: ('u' : Byte) :: digits
  | surrogates high low =>
    ('\\' : Byte) :: ('u' : Byte) :: (high ++ ('\\' : Byte) :: ('u' : Byte) :: low)

def char : Piece → Char
  | unescaped c => c
  | short letter => (shortEscapes.lookup letter).getD '\x00'
  | codePoint digits => Char.ofNat (hexValue digits)
  | surrogates high low =>
    Char.ofNat (0x10000 + (hexValue high - 0xD800) * 0x400 + (hexValue low - 0xDC00))

/-- Four digits, for a number in the range. -/
def IsHex (digits : Bytes) (least most : Nat) : Prop :=
  digits.length = 4 ∧ (∀ b ∈ digits, isHexDigit b = true) ∧
    least ≤ hexValue digits ∧ hexValue digits ≤ most

def WellFormed : Piece → Prop
  | unescaped c => 0x20 ≤ c.toNat ∧ c ≠ '"' ∧ c ≠ '\\'
  | short letter => letter ∈ shortEscapes.map Prod.fst
  | codePoint digits => IsHex digits 0 0xD7FF ∨ IsHex digits 0xE000 0xFFFF
  | surrogates high low => IsHex high 0xD800 0xDBFF ∧ IsHex low 0xDC00 0xDFFF

def isUnicode : Piece → Bool
  | codePoint _ | surrogates _ _ => true
  | _ => false

end Piece

/-- What stands between the quotes. -/
def text (pieces : List Piece) : Bytes := pieces.flatMap Piece.text

/-- The string the literal stands for, in UTF-8. -/
def denoted (pieces : List Piece) : Bytes :=
  pieces.flatMap fun piece => String.utf8EncodeChar piece.char

/-- The bytes of a character are its own code or no ASCII. -/
theorem toNat_of_mem_utf8 {c : Char} {b : Byte} (h : b ∈ String.utf8EncodeChar c)
    (hb : b.toNat < 128) : c.toNat = b.toNat := by
  change c.val.toNat = b.toNat
  simp only [String.utf8EncodeChar] at h
  split at h
  · cases List.mem_singleton.mp h
    rw [UInt8.toNat_ofNat']
    omega
  -- The leading bytes and those that follow have the top bit.
  split at h
  · simp only [List.mem_cons, List.not_mem_nil, or_false] at h
    rcases h with rfl | rfl <;> rw [UInt8.toNat_ofNat'] at hb <;> omega
  split at h
  · simp only [List.mem_cons, List.not_mem_nil, or_false] at h
    rcases h with rfl | rfl | rfl <;> rw [UInt8.toNat_ofNat'] at hb <;> omega
  · simp only [List.mem_cons, List.not_mem_nil, or_false] at h
    rcases h with rfl | rfl | rfl | rfl <;> rw [UInt8.toNat_ofNat'] at hb <;> omega

theorem utf8_length_le (c : Char) : (String.utf8EncodeChar c).length ≤ 4 := by
  rw [String.length_utf8EncodeChar]
  exact Char.utf8Size_le_four c

end InverterMonitor.JsonLiteral
