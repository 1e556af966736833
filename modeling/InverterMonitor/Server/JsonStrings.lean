import InverterMonitor.Format.JsonLiterals
import InverterMonitor.Server.Json

/-!
# Decoding of JSON strings

`parseJsonString` knows the escapes of one letter, and only drops the backslash of
the others.

* `stringBody_literal`: what it makes of any literal;
* `literal_decoded_iff`: that is what the literal stands for, unless it has a `\\u`.
-/

namespace InverterMonitor.Json
open Text JsonLiteral

/-- What `parseJsonString` makes of a piece of a literal. -/
def decodedPiece : Piece → Bytes
  | .unescaped c => String.utf8EncodeChar c
  | .short letter => [unescape letter]
  | .codePoint digits => ('u' : Byte) :: digits
  | .surrogates high low => ('u' : Byte) :: (high ++ ('u' : Byte) :: low)

/-! ## One piece -/

theorem stringBody_bare {s : Bytes} (h : ∀ b ∈ s, b ≠ '"' ∧ b ≠ '\\') (t : Bytes) :
    stringBody (s ++ t) = ((stringBody t).1.map (s ++ ·), (stringBody t).2) := by
  induction s with
  | nil => simp
  | cons b s ih =>
    obtain ⟨hquote, hbackslash⟩ := h b (by simp)
    rw [List.cons_append, stringBody_plain _ hquote hbackslash,
      ih fun c hc => h c (List.mem_cons_of_mem b hc), Option.map_map]
    rfl

theorem bare_utf8 {c : Char} (hquote : c ≠ '"') (hbackslash : c ≠ '\\') :
    ∀ b ∈ String.utf8EncodeChar c, b ≠ '"' ∧ b ≠ '\\' := by
  intro b hb
  constructor
  · rintro rfl
    exact hquote (Char.toNat_inj.mp (toNat_of_mem_utf8 hb (by decide)))
  · rintro rfl
    exact hbackslash (Char.toNat_inj.mp (toNat_of_mem_utf8 hb (by decide)))

theorem bare_hex {digits : Bytes} (h : ∀ b ∈ digits, isHexDigit b = true) :
    ∀ b ∈ digits, b ≠ '"' ∧ b ≠ '\\' := by
  intro b hb
  have hdigit := h b hb
  constructor <;> rintro rfl <;> cases hdigit

theorem stringBody_unicode {digits : Bytes} (h : ∀ b ∈ digits, isHexDigit b = true) (t : Bytes) :
    stringBody (('\\' : Byte) :: ('u' : Byte) :: (digits ++ t)) =
      ((stringBody t).1.map (('u' : Byte) :: digits ++ ·), (stringBody t).2) := by
  rw [stringBody_escape, stringBody_bare (bare_hex h), Option.map_map]
  rfl

theorem stringBody_piece {piece : Piece} (h : piece.WellFormed) (t : Bytes) :
    stringBody (piece.text ++ t) =
      ((stringBody t).1.map (decodedPiece piece ++ ·), (stringBody t).2) := by
  cases piece with
  | unescaped c => exact stringBody_bare (bare_utf8 h.2.1 h.2.2) t
  | short letter => exact stringBody_escape letter t
  | codePoint digits =>
    have hdigits : ∀ b ∈ digits, isHexDigit b = true := h.elim (·.2.1) (·.2.1)
    exact stringBody_unicode hdigits t
  | surrogates high low =>
    simp only [Piece.text, List.cons_append, List.append_assoc]
    rw [stringBody_unicode h.1.2.1, stringBody_unicode h.2.2.1, Option.map_map]
    simp only [decodedPiece, List.cons_append, List.append_assoc]
    rfl

/-- Escapes of one letter are decoded, and other characters are kept. -/
theorem decodedPiece_eq {piece : Piece} (h : piece.WellFormed) (hplain : piece.isUnicode = false) :
    decodedPiece piece = String.utf8EncodeChar piece.char := by
  cases piece with
  | unescaped c => rfl
  | short letter =>
    simp only [Piece.WellFormed, shortEscapes, List.map_cons, List.map_nil, List.mem_cons,
      List.not_mem_nil, or_false] at h
    rcases h with rfl | rfl | rfl | rfl | rfl | rfl | rfl | rfl <;> decide
  | codePoint | surrogates => cases hplain

/-- Of an escape with a code, more is left than the character takes. -/
theorem decodedPiece_long {piece : Piece} (h : piece.WellFormed)
    (hunicode : piece.isUnicode = true) :
    (String.utf8EncodeChar piece.char).length < (decodedPiece piece).length := by
  have hshort := utf8_length_le piece.char
  cases piece with
  | codePoint digits =>
    have hlen : digits.length = 4 := h.elim (·.1) (·.1)
    simp only [decodedPiece, List.length_cons]
    omega
  | surrogates high low =>
    have hlen := h.1.1
    simp only [decodedPiece, List.length_cons, List.length_append]
    omega
  | unescaped | short => cases hunicode

/-! ## Whole literals -/

theorem stringBody_literal {pieces : List Piece} (h : ∀ piece ∈ pieces, piece.WellFormed)
    (s : Bytes) :
    stringBody (JsonLiteral.text pieces ++ ('"' : Byte) :: s) =
      (some (pieces.flatMap decodedPiece), s) := by
  induction pieces with
  | nil => exact stringBody_quote s
  | cons piece pieces ih =>
    have ih := ih fun p hp => h p (List.mem_cons_of_mem piece hp)
    rw [JsonLiteral.text, List.flatMap_cons, List.append_assoc, stringBody_piece (h piece (by simp)),
      ← JsonLiteral.text, ih]
    rfl

theorem length_denoted_le {pieces : List Piece} (h : ∀ piece ∈ pieces, piece.WellFormed) :
    (denoted pieces).length ≤ (pieces.flatMap decodedPiece).length ∧
      ((∃ piece ∈ pieces, piece.isUnicode = true) →
        (denoted pieces).length < (pieces.flatMap decodedPiece).length) := by
  induction pieces with
  | nil => simp [denoted]
  | cons piece pieces ih =>
    obtain ⟨hle, hlt⟩ := ih fun p hp => h p (List.mem_cons_of_mem piece hp)
    have hlen : (denoted (piece :: pieces)).length =
        (String.utf8EncodeChar piece.char).length + (denoted pieces).length := by
      simp [denoted]
    rw [hlen, List.flatMap_cons, List.length_append]
    cases hunicode : piece.isUnicode with
    | true =>
      have hlong := decodedPiece_long (h piece (by simp)) hunicode
      exact ⟨by omega, fun _ => by omega⟩
    | false =>
      have heq := congrArg List.length (decodedPiece_eq (h piece (by simp)) hunicode)
      refine ⟨by omega, fun hex => ?_⟩
      obtain ⟨p, hp, hpu⟩ := hex
      rcases List.mem_cons.mp hp with rfl | hp
      · rw [hunicode] at hpu
        cases hpu
      · have hrest := hlt ⟨p, hp, hpu⟩
        omega

theorem decoded_eq {pieces : List Piece} (h : ∀ piece ∈ pieces, piece.WellFormed)
    (hplain : ∀ piece ∈ pieces, piece.isUnicode = false) :
    pieces.flatMap decodedPiece = denoted pieces := by
  induction pieces with
  | nil => rfl
  | cons piece pieces ih =>
    rw [List.flatMap_cons, denoted, List.flatMap_cons, ← denoted,
      decodedPiece_eq (h piece (by simp)) (hplain piece (by simp)),
      ih (fun p hp => h p (List.mem_cons_of_mem piece hp))
        fun p hp => hplain p (List.mem_cons_of_mem piece hp)]

/-- A literal is decoded as JSON says exactly when it has no escape with a code. -/
theorem literal_decoded_iff {pieces : List Piece} (h : ∀ piece ∈ pieces, piece.WellFormed) :
    (∀ s, parseJsonString
        (.inside (('"' : Byte) :: (JsonLiteral.text pieces ++ ('"' : Byte) :: s))) =
          (some (denoted pieces), .inside s)) ↔
      ∀ piece ∈ pieces, piece.isUnicode = false := by
  have hread : ∀ s, parseJsonString
      (.inside (('"' : Byte) :: (JsonLiteral.text pieces ++ ('"' : Byte) :: s))) =
        (some (pieces.flatMap decodedPiece), .inside s) := by
    intro s
    simp only [parseJsonString, skipWhitespace_cons _ (show isSpace '"' = false by decide),
      ↓reduceIte, stringBody_literal h]
  constructor
  · intro hall piece hp
    rw [← Bool.not_eq_true]
    intro hunicode
    have hsame := (hread []).symm.trans (hall [])
    have hlt := (length_denoted_le h).2 ⟨piece, hp, hunicode⟩
    rw [Option.some.inj (Prod.mk.inj hsame).1] at hlt
    exact lt_irrefl _ hlt
  · intro hplain s
    rw [hread, decoded_eq h hplain]

/-- A newline and a letter from another alphabet. -/
theorem newline_decoded :
    parseJsonString (.inside (ascii "\"" ++ (ascii "\\n" ++ (String.utf8EncodeChar 'é' ++
      ascii "\", rest")))) = (some (10 :: String.utf8EncodeChar 'é'), .inside (ascii ", rest")) := by
  refine (@literal_decoded_iff [.short 'n', .unescaped 'é'] ?_).mpr ?_ _
  · intro piece hp
    rcases List.mem_pair.mp hp with rfl | rfl
    · exact (show ('n' : Byte) ∈ shortEscapes.map Prod.fst by decide)
    · exact ⟨by decide, by decide, by decide⟩
  · intro piece hp
    rcases List.mem_pair.mp hp with rfl | rfl <;> rfl

/-- The code of a letter is not decoded. -/
theorem code_not_decoded :
    (∀ piece ∈ [Piece.codePoint (ascii "0041")], piece.WellFormed) ∧
      denoted [.codePoint (ascii "0041")] = ascii "A" ∧
      parseJsonString (.inside (ascii "\"\\u0041\"")) = (some (ascii "u0041"), .inside []) := by
  refine ⟨fun piece hp => ?_, by decide +kernel, by decide +kernel⟩
  cases List.mem_singleton.mp hp
  exact Or.inl ⟨rfl, by decide +kernel, Nat.zero_le _, by decide +kernel⟩

end InverterMonitor.Json
