import InverterMonitor.Server.Json

/-!
# How far the JSON reader gets

* no reader moves back, and a value of `n` bytes is skipped within `2 * n + 1`
  nested calls (`skipJsonValue_total`);
* no reader of a value throws (`parseJsonValueAsString_plain`): only the number
  conversions applied to its text can.
-/

namespace InverterMonitor.Json
open Text Cxx Registers

/-- What is left of the text behind a cursor. -/
def Cursor.left (c : Cursor) : Nat := c.rest.length

@[simp] theorem Cursor.left_inside (s : Bytes) : (inside s).left = s.length := rfl
@[simp] theorem Cursor.left_beyond (n : Nat) : (beyond n).left = 0 := rfl

theorem Cursor.left_advance (c : Cursor) : c.advance.left = c.left - 1 := by
  cases c with
  | inside s => cases s <;> simp [advance]
  | beyond n => simp [advance]

theorem Cursor.left_eq_zero {c : Cursor} : c.left = 0 ↔ c.rest = [] := List.length_eq_zero_iff

/-! ## Tokens -/

theorem length_skipSpaces_le (s : Bytes) : (skipSpaces s).length ≤ s.length :=
  (List.dropWhile_suffix isSpace).length_le

theorem left_skipWhitespace_le (c : Cursor) : (skipWhitespace c).left ≤ c.left := by
  cases c with
  | inside s => exact length_skipSpaces_le s
  | beyond n => exact le_refl _

theorem consumeChar_true {c d : Cursor} {b : Byte} (h : consumeChar c b = (true, d)) :
    (∃ s, d = .inside s) ∧ d.left < c.left := by
  have hle := left_skipWhitespace_le c
  simp only [consumeChar] at h
  split at h
  · next hhead =>
    cases hs : (skipWhitespace c).rest with
    | nil => simp [hs] at hhead
    | cons b s =>
      have hc := Cursor.eq_inside_of_rest hs
      cases h
      rw [hc] at hle ⊢
      refine ⟨⟨s, rfl⟩, ?_⟩
      simp only [Cursor.advance_cons, Cursor.left_inside, List.length_cons] at hle ⊢
      omega
  · cases h

theorem left_skipComma_le (c : Cursor) : (skipComma c).left ≤ c.left := by
  have hle := left_skipWhitespace_le c
  simp only [skipComma, consumeChar]
  split
  · rw [Cursor.left_advance]
    omega
  · exact hle

theorem length_stringBody_le (s : Bytes) : (stringBody s).2.length ≤ s.length := by
  induction s using stringBody.induct with
  | case1 => simp [stringBody]
  | case2 s =>
    rw [stringBody_quote]
    simp
  | case3 => decide
  | case4 escaped s out rest hs hq ih =>
    rw [stringBody_escape]
    simp only [List.length_cons] at ih ⊢
    omega
  | case5 c s hq hb out rest hs ih =>
    rw [stringBody_plain s hq hb]
    simp only [List.length_cons] at ih ⊢
    omega

theorem parseJsonString_some {c d : Cursor} {out : Bytes}
    (h : parseJsonString c = (some out, d)) : (∃ s, d = .inside s) ∧ d.left < c.left := by
  have hle := left_skipWhitespace_le c
  simp only [parseJsonString] at h
  split at h
  · next b s hc =>
    rw [hc] at hle
    split at h
    · obtain ⟨_, rfl⟩ := Prod.mk.inj h
      have := length_stringBody_le s
      refine ⟨⟨_, rfl⟩, ?_⟩
      simp only [Cursor.left_inside, List.length_cons] at hle ⊢
      omega
    · cases h
  · cases h

theorem length_numberToken_le (s : Bytes) : (numberToken s).2.length ≤ s.length := by
  have hdigits : ∀ t : Bytes, (afterDigits t).length ≤ t.length :=
    fun t => (List.dropWhile_suffix isDigit).length_le
  have hsign : ∀ t : Bytes, (signToken t).2.length ≤ t.length := by
    intro t
    have := congrArg List.length (signToken_sound t).2
    rw [List.length_append] at this
    omega
  have hfraction : ∀ t : Bytes, (fractionToken t).2.length ≤ t.length := by
    intro t
    have := congrArg List.length (fractionToken_sound t).2
    rw [List.length_append] at this
    omega
  have hexponent : ∀ t : Bytes, (exponentToken t).2.length ≤ t.length := by
    intro t
    cases t with
    | nil => exact le_refl _
    | cons b t =>
      have h₁ := hsign t
      have h₂ := hdigits (signToken t).2
      simp only [exponentToken]
      split
      · split <;> simp only [List.length_cons] <;> omega
      · exact le_refl _
  have h₁ := hsign s
  have h₂ := hdigits (signToken s).2
  have h₃ := hfraction (afterDigits (signToken s).2)
  have h₄ := hexponent (fractionToken (afterDigits (signToken s).2)).2
  simp only [numberToken]
  split <;> simp only <;> omega

theorem left_parseJsonNumberAsString_le {c d : Cursor} {out : Option Bytes}
    (h : parseJsonNumberAsString c = (out, d)) : d.left ≤ c.left := by
  have hle := left_skipWhitespace_le c
  simp only [parseJsonNumberAsString] at h
  split at h
  · next s hc =>
    rw [hc] at hle
    obtain ⟨_, rfl⟩ := Prod.mk.inj h
    exact le_trans (length_numberToken_le s) hle
  · obtain ⟨_, rfl⟩ := Prod.mk.inj h
    exact hle

theorem skipBytes_inside {w s : Bytes} (h : w.isPrefixOf s = true) :
    ∃ t, skipBytes (.inside s) w.length = .inside t ∧ t.length ≤ s.length := by
  obtain ⟨t, rfl⟩ := List.isPrefixOf_iff_prefix.mp h
  refine ⟨t, ?_, by simp⟩
  clear h
  induction w with
  | nil => rfl
  | cons b w ih =>
    rw [skipBytes, List.length_cons, Function.iterate_succ_apply]
    exact ih

/-- Inside the text the reader for truth values does not throw. -/
theorem parseJsonBool_inside (s : Bytes) :
    ∃ value t, parseJsonBool (.inside s) = .ok (value, .inside t) ∧ t.length ≤ s.length := by
  have hle := length_skipSpaces_le s
  have hread : parseJsonBool (.inside s) =
      (if (ascii "true").isPrefixOf (skipSpaces s) then
        .ok (some true, skipBytes (.inside (skipSpaces s)) 4)
      else if (ascii "false").isPrefixOf (skipSpaces s) then
        .ok (some false, skipBytes (.inside (skipSpaces s)) 5)
      else .ok (none, .inside (skipSpaces s))) := by
    simp only [parseJsonBool, skipWhitespace, compareAt, ok_bind, pure_eq_ok]
  rw [hread]
  split
  · next h =>
    obtain ⟨t, ht, hlen⟩ := skipBytes_inside h
    exact ⟨some true, t, by rw [← ht]; rfl, by omega⟩
  split
  · next h =>
    obtain ⟨t, ht, hlen⟩ := skipBytes_inside h
    exact ⟨some false, t, by rw [← ht]; rfl, by omega⟩
  · exact ⟨none, skipSpaces s, rfl, hle⟩

/-- A reader that gives a value or gives up, and does not move back. -/
def Plain {α : Type} (c : Cursor) (x : Except Failure (α × Cursor)) : Prop :=
  (∃ a d, x = .ok (a, d) ∧ d.left ≤ c.left) ∨ x = .error .rejected

theorem parseJsonValueAsString_plain (c : Cursor) : Plain c (parseJsonValueAsString c) := by
  have hle := left_skipWhitespace_le c
  simp only [parseJsonValueAsString]
  split
  · exact Or.inr rfl
  · next b s hs =>
    have hc := Cursor.eq_inside_of_rest hs
    split
    · cases hread : parseJsonString (skipWhitespace c) with
      | mk out d =>
        cases out with
        | none => exact Or.inr rfl
        | some out =>
          have := (parseJsonString_some hread).2
          exact Or.inl ⟨⟨out, true⟩, d, rfl, by omega⟩
    split
    · cases hread : parseJsonNumberAsString (skipWhitespace c) with
      | mk out d =>
        cases out with
        | none => exact Or.inr rfl
        | some out =>
          have := left_parseJsonNumberAsString_le hread
          exact Or.inl ⟨⟨out, false⟩, d, rfl, by omega⟩
    · rw [hc] at hle ⊢
      obtain ⟨value, t, hread, hlen⟩ := parseJsonBool_inside (b :: s)
      rw [hread]
      cases value with
      | some value => exact Or.inl ⟨_, _, rfl, le_trans hlen hle⟩
      | none =>
        simp only [ok_bind, compareAt]
        split
        · next h =>
          obtain ⟨u, hu, hlen'⟩ := skipBytes_inside h
          refine Or.inl ⟨⟨[], false⟩, .inside u, by rw [← hu]; rfl, ?_⟩
          simp only [Cursor.left_inside] at hle ⊢
          omega
        · exact Or.inr rfl

/-! ## Skipping -/

/-- A value takes what its elements take, or is a token. -/
theorem skipJsonValue_step {fuel : Nat}
    (helements : ∀ (close : Byte) (c : Cursor), 2 * c.left + 1 ≤ fuel →
      ∃ d, skipElements close fuel c = .ok d ∧ d.left ≤ c.left)
    (c : Cursor) (hfuel : 2 * c.left ≤ fuel + 1) :
    ∃ d, skipJsonValue (fuel + 1) c = .ok d ∧ d.left ≤ c.left := by
  have hle := left_skipWhitespace_le c
  simp only [skipJsonValue]
  split
  · exact ⟨_, rfl, hle⟩
  · next b s hs =>
    have hc := Cursor.eq_inside_of_rest hs
    have hadvance := Cursor.left_advance (skipWhitespace c)
    have hpos : 0 < (skipWhitespace c).left := by
      rw [hc]
      simp
    split
    · obtain ⟨d, hd, hlen⟩ := helements '}' (skipWhitespace c).advance (by omega)
      exact ⟨d, hd, by omega⟩
    split
    · obtain ⟨d, hd, hlen⟩ := helements ']' (skipWhitespace c).advance (by omega)
      exact ⟨d, hd, by omega⟩
    split
    · next hquote =>
      refine ⟨_, rfl, le_trans ?_ hle⟩
      rw [hc, hquote, parseJsonString, skipWhitespace_cons s (by decide)]
      have := length_stringBody_le s
      simp only [↓reduceIte, Cursor.left_inside, List.length_cons]
      omega
    split
    · rw [hc] at hle ⊢
      obtain ⟨value, t, hread, hlen⟩ := parseJsonBool_inside (b :: s)
      simp only [hread, ok_bind, compareAt]
      split
      · next h =>
        obtain ⟨u, hu, hlen'⟩ := skipBytes_inside h
        refine ⟨.inside u, by rw [← hu]; rfl, ?_⟩
        simp only [Cursor.left_inside] at hle ⊢
        omega
      · exact ⟨.inside t, rfl, le_trans hlen hle⟩
    · cases hread : parseJsonNumberAsString (skipWhitespace c) with
      | mk out d =>
        have := left_parseJsonNumberAsString_le hread
        cases out with
        | some out => exact ⟨d, rfl, by omega⟩
        | none =>
          refine ⟨d.advance, rfl, ?_⟩
          rw [Cursor.left_advance]
          omega

theorem skipElements_step {fuel : Nat}
    (hvalue : ∀ c : Cursor, 1 ≤ fuel → 2 * c.left ≤ fuel →
      ∃ d, skipJsonValue fuel c = .ok d ∧ d.left ≤ c.left)
    (helements : ∀ (close : Byte) (c : Cursor), 2 * c.left + 1 ≤ fuel →
      ∃ d, skipElements close fuel c = .ok d ∧ d.left ≤ c.left)
    (close : Byte) (c : Cursor) (hfuel : 2 * c.left ≤ fuel) :
    ∃ d, skipElements close (fuel + 1) c = .ok d ∧ d.left ≤ c.left := by
  simp only [skipElements]
  split
  · exact ⟨c, rfl, le_refl _⟩
  · next hrest =>
    have hpos : 0 < c.left := Nat.pos_of_ne_zero (mt Cursor.left_eq_zero.mp hrest)
    obtain ⟨d, hd, hlen⟩ := hvalue c (by omega) (by omega)
    have hle := left_skipWhitespace_le d
    have hadvance := Cursor.left_advance (skipWhitespace d)
    obtain ⟨e, he, hlen'⟩ := helements close (skipWhitespace d).advance (by omega)
    simp only [hd, ok_bind]
    split
    · exact ⟨e, he, by omega⟩
    split
    · exact ⟨_, rfl, by omega⟩
    · exact ⟨e, he, by omega⟩

/-- Both loops at once: an element spends one call on its value, and a value one
on its elements. -/
theorem skip_total (fuel : Nat) :
    (∀ c : Cursor, 1 ≤ fuel → 2 * c.left ≤ fuel →
      ∃ d, skipJsonValue fuel c = .ok d ∧ d.left ≤ c.left) ∧
    (∀ (close : Byte) (c : Cursor), 2 * c.left + 1 ≤ fuel →
      ∃ d, skipElements close fuel c = .ok d ∧ d.left ≤ c.left) := by
  induction fuel with
  | zero =>
    constructor
    · intro c h
      omega
    · intro close c h
      omega
  | succ fuel ih =>
    obtain ⟨hvalue, helements⟩ := ih
    constructor
    · intro c _ hfuel
      exact skipJsonValue_step helements c hfuel
    · intro close c hfuel
      exact skipElements_step hvalue helements close c (by omega)

theorem skipJsonValue_total {fuel : Nat} {c : Cursor} (h : 2 * c.left + 1 ≤ fuel) :
    ∃ d, skipJsonValue fuel c = .ok d ∧ d.left ≤ c.left :=
  (skip_total fuel).1 c (by omega) (by omega)

end InverterMonitor.Json
