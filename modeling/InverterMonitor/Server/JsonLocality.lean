import InverterMonitor.Cxx.Scans
import InverterMonitor.Server.LoadRules

/-!
# What the readers look at

A reader that ends before or at a boundary of the text has not looked at what
follows the boundary, except that a token ends there.

* `Local`: such a reader, for two continuations of a text;
* `parseJsonString_local`, `parseJsonBool_local`, `parseJsonValueAsString_local`,
  `skip_local`: the readers of a value are local.
-/

namespace InverterMonitor.Json
open Text Cxx

/-! ## Boundaries -/

/-- A byte that ends every token that is not quoted. -/
def isBoundary (b : Byte) : Bool :=
  isSpace b || b == ',' || b == ':' || b == ']' || b == '}' || b == '"'

/-- No token goes on at the start of the text. -/
def Bound (s : Bytes) : Prop := Stops (fun b => !isBoundary b) s

theorem bound_cons {b : Byte} (s : Bytes) (h : isBoundary b = true) : Bound (b :: s) := by
  simp [Bound, h]

theorem isNumeralByte_of_isSpace {b : Byte} (h : isSpace b = true) : isNumeralByte b = false := by
  have hdigit : isDigit b = false := by
    cases hd : isDigit b with
    | false => rfl
    | true =>
      rw [isSpace_of_isDigit hd] at h
      cases h
  have hother : b ≠ '-' ∧ b ≠ '+' ∧ b ≠ '.' ∧ b ≠ 'e' ∧ b ≠ 'E' := by
    refine ⟨?_, ?_, ?_, ?_, ?_⟩ <;> rintro rfl <;> revert h <;> decide
  have hletter : toLower b ≠ ('e' : Byte) := by
    rw [Ne, toLower_eq_e]
    simp [hother]
  simp [isNumeralByte, isSign, hdigit, hother, hletter]

theorem isNumeralByte_of_isBoundary {b : Byte} (h : isBoundary b = true) :
    isNumeralByte b = false := by
  simp only [isBoundary, Bool.or_eq_true, beq_iff_eq] at h
  rcases h with ((((hb | rfl) | rfl) | rfl) | rfl) | rfl
  · exact isNumeralByte_of_isSpace hb
  all_goals decide

theorem Bound.numeral {s : Bytes} (h : Bound s) : Stops isNumeralByte s := by
  intro b hb
  exact isNumeralByte_of_isBoundary (by simpa using h b hb)

/-! ## Tokens before a boundary -/

theorem digitsOf_before {t : Bytes} (s : Bytes) (h : Stops isNumeralByte t) :
    digitsOf (s ++ t) = digitsOf s ∧ afterDigits (s ++ t) = afterDigits s ++ t :=
  takeWhile_before s (stops_of_numeral h fun _ => isNumeralByte_of_isDigit)

theorem signToken_before {t : Bytes} (s : Bytes) (h : Stops isNumeralByte t) :
    signToken (s ++ t) = ((signToken s).1, (signToken s).2 ++ t) := by
  cases s with
  | nil =>
    have hstops : Stops isSign t := stops_of_numeral h fun _ => isNumeralByte_of_isSign
    exact signToken_append (Or.inl rfl) hstops
  | cons b s =>
    by_cases hb : b = '-' ∨ b = '+' <;> simp [signToken, hb]

theorem fractionToken_before {t : Bytes} (s : Bytes) (h : Stops isNumeralByte t) :
    fractionToken (s ++ t) = ((fractionToken s).1, (fractionToken s).2 ++ t) := by
  cases s with
  | nil =>
    refine fractionToken_append (Or.inl rfl) (stops_of_numeral h fun b hb => ?_)
    simp only [Bool.or_eq_true] at hb
    rcases hb with hb | hb <;> simp [isNumeralByte, hb]
  | cons b s =>
    by_cases hb : b = '.'
    · simp [fractionToken, hb, digitsOf_before s h]
    · simp [fractionToken, hb]

theorem exponentToken_before {t : Bytes} (s : Bytes) (h : Stops isNumeralByte t) :
    exponentToken (s ++ t) = ((exponentToken s).1, (exponentToken s).2 ++ t) := by
  cases s with
  | nil => exact exponentToken_append (Or.inl rfl) h
  | cons b s =>
    by_cases hb : b = 'e' ∨ b = 'E'
    · simp only [List.cons_append, exponentToken, hb, ↓reduceIte, signToken_before s h,
        digitsOf_before _ h]
      split <;> rfl
    · simp [exponentToken, hb]

theorem numberToken_before {t : Bytes} (s : Bytes) (h : Stops isNumeralByte t) :
    numberToken (s ++ t) = ((numberToken s).1, (numberToken s).2 ++ t) := by
  simp only [numberToken, signToken_before s h, digitsOf_before _ h, fractionToken_before _ h,
    exponentToken_before _ h]
  split <;> rfl

/-- A word is found before a boundary exactly when it stands there as a whole. -/
theorem isPrefixOf_before {word t : Bytes} (s : Bytes) (hword : word.any isBoundary = false)
    (h : Bound t) :
    word.isPrefixOf (s ++ t) = word.isPrefixOf s := by
  induction s generalizing word with
  | nil =>
    cases word with
    | nil => simp
    | cons b word =>
      cases t with
      | nil => rfl
      | cons c t =>
        have hc : isBoundary c = true := by simpa [Bound] using h
        have hne : b ≠ c := by
          rintro rfl
          simp [hc] at hword
        simp [List.isPrefixOf, hne]
  | cons c s ih =>
    cases word with
    | nil => simp
    | cons b word =>
      rw [List.any_cons, Bool.or_eq_false_iff] at hword
      simp only [List.cons_append, List.isPrefixOf, ih hword.2]

/-! ## White space before a reader -/

theorem skipWhitespace_skipWhitespace (c : Cursor) :
    skipWhitespace (skipWhitespace c) = skipWhitespace c := by
  cases c with
  | inside s => exact congrArg Cursor.inside (skipSpaces_of_stops (stops_dropWhile isSpace s))
  | beyond n => rfl

theorem skipWhitespace_blank {gap : Bytes} (s : Bytes) (h : Blank gap) :
    skipWhitespace (.inside (gap ++ s)) = skipWhitespace (.inside s) := by
  simp only [skipWhitespace, skipSpaces_blank s h]

/-- A byte that is left after white space is none. -/
theorem isSpace_skipWhitespace {c : Cursor} {b : Byte} {s : Bytes}
    (h : (skipWhitespace c).rest = b :: s) : isSpace b = false := by
  cases c with
  | inside u =>
    have hstops := stops_dropWhile isSpace u
    change skipSpaces u = b :: s at h
    rw [← skipSpaces, h] at hstops
    simpa using hstops
  | beyond n => cases h

/-- What is not white space is found before `t` is reached. -/
theorem skipWhitespace_before {u : Bytes} (h : ¬Blank u) :
    ∃ b v, isSpace b = false ∧
      ∀ t, skipWhitespace (.inside (u ++ t)) = .inside (b :: (v ++ t)) := by
  cases hv : skipSpaces u with
  | nil => exact absurd (skipSpaces_eq_nil_iff.mp hv) h
  | cons b v =>
    refine ⟨b, v, isSpace_skipWhitespace (c := .inside u) hv, fun t => ?_⟩
    rw [skipWhitespace, skipSpaces_append t h, hv]
    rfl

theorem skipComma_before {u : Bytes} (h : ¬Blank u) :
    ∃ v, ∀ t, skipComma (.inside (u ++ t)) = .inside (v ++ t) := by
  obtain ⟨b, v, _, hskip⟩ := skipWhitespace_before h
  by_cases hb : b = ','
  · exact ⟨v, fun t => by simp [skipComma, consumeChar, hskip, hb]⟩
  · exact ⟨b :: v, fun t => by simp [skipComma, consumeChar, hskip, hb]⟩

theorem left_skipComma_blank {u : Bytes} (t : Bytes) (h : Blank u) :
    (skipComma (.inside (u ++ t))).left ≤ t.length := by
  have hle := left_skipComma_le (.inside t)
  have heq : skipComma (.inside (u ++ t)) = skipComma (.inside t) := by
    simp only [skipComma, consumeChar, skipWhitespace_blank t h]
  rw [heq]
  exact hle

/-! ## Local readers -/

/-- A reader that takes at least a byte and, where it ends before `t`, reads the
same when `t'` stands in the place of `t`. -/
structure Local {α : Type} (t t' : Bytes) (read : Cursor → Except Failure (α × Cursor)) :
    Prop where
  strict : ∀ {c a d}, read c = .ok (a, d) → d.left ≤ c.left - 1
  same : ∀ {w a d}, read (.inside (w ++ t)) = .ok (a, d) → t.length ≤ d.left →
    ∃ u, d = .inside (u ++ t) ∧ read (.inside (w ++ t')) = .ok (a, .inside (u ++ t'))

section

variable {α β σ : Type} {t t' : Bytes}

/-- It is enough to look at a text that does not begin with white space. -/
theorem Local.of_head {read : Cursor → Except Failure (α × Cursor)} (ht : t ≠ [])
    (hspace : ∀ c, read (skipWhitespace c) = read c)
    (hempty : ∀ {c a d}, c.rest = [] → read c = .ok (a, d) → d.left = 0)
    (hstrict : ∀ {b s a d}, isSpace b = false → read (.inside (b :: s)) = .ok (a, d) →
      d.left ≤ s.length)
    (hhead : ∀ {b w a d}, isSpace b = false → read (.inside (b :: (w ++ t))) = .ok (a, d) →
      t.length ≤ d.left →
      ∃ u, d = .inside (u ++ t) ∧ read (.inside (b :: (w ++ t'))) = .ok (a, .inside (u ++ t'))) :
    Local t t' read := by
  have hback : ∀ {c a d}, read c = .ok (a, d) → d.left ≤ c.left - 1 := by
    intro c a d h
    have hle := left_skipWhitespace_le c
    rw [← hspace] at h
    cases hs : (skipWhitespace c).rest with
    | nil => exact le_of_eq_of_le (hempty hs h) (Nat.zero_le _)
    | cons b s =>
      have hb := isSpace_skipWhitespace hs
      rw [Cursor.eq_inside_of_rest hs] at h hle
      have hd := hstrict hb h
      rw [Cursor.left_inside, List.length_cons] at hle
      omega
  refine ⟨hback, fun {w a d} h hleft => ?_⟩
  by_cases hw : Blank w
  · rw [← hspace, skipWhitespace_blank t hw, hspace] at h
    have hd := hback h
    have hpos := List.length_pos_iff.mpr ht
    rw [Cursor.left_inside] at hd
    omega
  · obtain ⟨b, v, hb, hskip⟩ := skipWhitespace_before hw
    rw [← hspace, hskip] at h
    obtain ⟨u, hd, hread⟩ := hhead hb h hleft
    refine ⟨u, hd, ?_⟩
    rw [← hspace, hskip]
    exact hread

/-- What is computed from a value read does not move the cursor. -/
theorem Local.convert {read : Cursor → Except Failure (α × Cursor)} (h : Local t t' read)
    {f : α × Cursor → Except Failure (β × Cursor)}
    (hf : ∀ a, (∃ b, ∀ c, f (a, c) = .ok (b, c)) ∨ ∀ c, ∃ e, f (a, c) = .error e) :
    Local t t' fun c => read c >>= f := by
  have hpart : ∀ {c b d}, (read c >>= f) = .ok (b, d) →
      ∃ a, read c = .ok (a, d) ∧ ∀ c, f (a, c) = .ok (b, c) := by
    intro c b d hread
    obtain ⟨⟨a, c'⟩, ha, hb⟩ := bind_eq_ok.mp hread
    rcases hf a with ⟨b', hok⟩ | herror
    · rw [hok] at hb
      cases hb
      exact ⟨a, ha, hok⟩
    · obtain ⟨e, he⟩ := herror c'
      rw [he] at hb
      cases hb
  constructor
  · intro c b d hread
    obtain ⟨a, ha, _⟩ := hpart hread
    exact h.strict ha
  · intro w b d hread hleft
    obtain ⟨a, ha, hok⟩ := hpart hread
    obtain ⟨u, hd, hsame⟩ := h.same ha hleft
    refine ⟨u, hd, ?_⟩
    simp only [hsame, ok_bind, hok]

theorem Local.value {read : Cursor → Except Failure (α × Cursor)} (h : Local t t' read)
    (f : α → β) : Local t t' (fun c => do let (a, c) ← read c; return (f a, c)) :=
  h.convert fun a => Or.inl ⟨f a, fun _ => rfl⟩

theorem Local.congr {f g : Cursor → Except Failure (α × Cursor)} (hf : Local t t' f)
    (h : ∀ c, f c = g c) : Local t t' g := funext h ▸ hf

theorem Local.ite {p : Prop} [Decidable p] {f g : Cursor → Except Failure (α × Cursor)}
    (hf : Local t t' f) (hg : Local t t' g) : Local t t' fun c => if p then f c else g c := by
  by_cases h : p <;> simpa [h]

/-! ### Tokens -/

theorem length_stringBody_le_pred (s : Bytes) : (stringBody s).2.length ≤ s.length - 1 := by
  induction s using stringBody.induct with
  | case1 => simp [stringBody]
  | case2 s =>
    rw [stringBody_quote]
    simp
  | case3 => decide
  | case4 escaped s out rest hs hq ih =>
    have hle := length_stringBody_le s
    rw [stringBody_escape]
    simp only [List.length_cons]
    omega
  | case5 c s hq hb out rest hs ih =>
    have hle := length_stringBody_le s
    rw [stringBody_plain s hq hb]
    simpa using hle

/-- The closing quote stands in `w`, or the string goes on into what follows. -/
theorem stringBody_before (w : Bytes) :
    (∃ out u, ∀ s, stringBody (w ++ s) = (some out, u ++ s)) ∨
      ∀ s, (stringBody (w ++ s)).2.length ≤ s.length - 1 := by
  induction w using stringBody.induct with
  | case1 => exact Or.inr length_stringBody_le_pred
  | case2 w => exact Or.inl ⟨[], w, fun s => stringBody_quote (w ++ s)⟩
  | case3 =>
    refine Or.inr fun s => ?_
    cases s with
    | nil => decide
    | cons e s =>
      have hle := length_stringBody_le s
      change (stringBody (('\\' : Byte) :: e :: s)).2.length ≤ _
      rw [stringBody_escape]
      simpa using hle
  | case4 e w out rest hs hq ih =>
    rcases ih with ⟨out, u, h⟩ | h
    · refine Or.inl ⟨unescape e :: out, u, fun s => ?_⟩
      change stringBody (('\\' : Byte) :: e :: (w ++ s)) = _
      rw [stringBody_escape, h]
      rfl
    · refine Or.inr fun s => ?_
      change (stringBody (('\\' : Byte) :: e :: (w ++ s))).2.length ≤ _
      rw [stringBody_escape]
      exact h s
  | case5 c w hq hb out rest hs ih =>
    rcases ih with ⟨out, u, h⟩ | h
    · refine Or.inl ⟨c :: out, u, fun s => ?_⟩
      change stringBody (c :: (w ++ s)) = _
      rw [stringBody_plain _ hq hb, h]
      rfl
    · refine Or.inr fun s => ?_
      change (stringBody (c :: (w ++ s))).2.length ≤ _
      rw [stringBody_plain _ hq hb]
      exact h s

theorem parseJsonString_quote (s : Bytes) :
    parseJsonString (.inside (('"' : Byte) :: s)) =
      ((stringBody s).1, .inside (stringBody s).2) := by
  rw [parseJsonString, skipWhitespace_cons s (by decide)]
  rfl

theorem parseJsonString_other {b : Byte} (s : Bytes) (hb : isSpace b = false) (h : b ≠ '"') :
    parseJsonString (.inside (b :: s)) = (none, .inside (b :: s)) := by
  rw [parseJsonString, skipWhitespace_cons s hb]
  simp [h]

theorem parseJsonString_skipWhitespace (c : Cursor) :
    parseJsonString (skipWhitespace c) = parseJsonString c := by
  rw [parseJsonString, skipWhitespace_skipWhitespace, ← parseJsonString]

theorem orReject_eq_ok {r : Option α × Cursor} {a : α} {d : Cursor} :
    orReject r = .ok (a, d) ↔ r = (some a, d) := by
  obtain ⟨value, c⟩ := r
  cases value <;> simp [orReject]

theorem rest_eq_nil_cases {c : Cursor} (h : c.rest = []) :
    c = .inside [] ∨ ∃ n, c = .beyond n := by
  cases c with
  | inside s => exact Or.inl (congrArg Cursor.inside h)
  | beyond n => exact Or.inr ⟨n, rfl⟩

/-- The token that begins with `b` ends in `b :: w`, or what follows is lost to it. -/
def SeesEnd (read : Cursor → Except Failure (α × Cursor)) (b : Byte) (w : Bytes) : Prop :=
  (∃ a u, u.length ≤ w.length ∧
    ∀ t, Bound t → read (.inside (b :: (w ++ t))) = .ok (a, .inside (u ++ t))) ∨
  ∀ t, Bound t → ∀ a d, read (.inside (b :: (w ++ t))) = .ok (a, d) → d.left ≤ t.length - 1

theorem SeesEnd.strict {read : Cursor → Except Failure (α × Cursor)} {b : Byte} {w : Bytes}
    (h : SeesEnd read b w) {a : α} {d : Cursor} (hread : read (.inside (b :: w)) = .ok (a, d)) :
    d.left ≤ w.length := by
  rw [← List.append_nil w] at hread
  rcases h with ⟨a, u, hlen, hfound⟩ | hlost
  · rw [hfound [] (stops_nil _)] at hread
    cases hread
    simpa using hlen
  · exact le_trans (hlost [] (stops_nil _) a d hread) (Nat.zero_le _)

theorem SeesEnd.same {read : Cursor → Except Failure (α × Cursor)} {b : Byte} {w : Bytes}
    (h : SeesEnd read b w) (ht : t ≠ []) (hbound : Bound t) (hbound' : Bound t') {a : α}
    {d : Cursor} (hread : read (.inside (b :: (w ++ t))) = .ok (a, d))
    (hleft : t.length ≤ d.left) :
    ∃ u, d = .inside (u ++ t) ∧ read (.inside (b :: (w ++ t'))) = .ok (a, .inside (u ++ t')) := by
  rcases h with ⟨a', u, _, hfound⟩ | hlost
  · rw [hfound t hbound] at hread
    cases hread
    exact ⟨u, rfl, hfound t' hbound'⟩
  · have hpos := List.length_pos_iff.mpr ht
    have hle := hlost t hbound a d hread
    omega

theorem SeesEnd.convert {read : Cursor → Except Failure (α × Cursor)} {b : Byte} {w : Bytes}
    (h : SeesEnd read b w) (f : α → β) :
    SeesEnd (fun c => do let (a, c) ← read c; return (f a, c)) b w := by
  rcases h with ⟨a, u, hlen, hfound⟩ | hlost
  · exact Or.inl ⟨f a, u, hlen, fun t ht => by simp only [hfound t ht, ok_bind, pure_eq_ok]⟩
  · refine Or.inr fun t ht a d hread => ?_
    obtain ⟨⟨a, c⟩, ha, hd⟩ := bind_eq_ok.mp hread
    cases hd
    exact hlost t ht _ _ ha

theorem parseJsonString_seesEnd {b : Byte} (w : Bytes) (hb : isSpace b = false) :
    SeesEnd (fun c => orReject (parseJsonString c)) b w := by
  by_cases hquote : b = '"'
  · rcases stringBody_before w with ⟨out, u, hbody⟩ | hbody
    · refine Or.inl ⟨out, u, ?_, fun t _ => ?_⟩
      · have hle := length_stringBody_le (w ++ [])
        rw [hbody] at hle
        simpa using hle
      · change orReject (parseJsonString _) = _
        rw [hquote, parseJsonString_quote, hbody]
        rfl
    · refine Or.inr fun t _ a d hread => ?_
      rw [orReject_eq_ok, hquote, parseJsonString_quote] at hread
      obtain ⟨_, rfl⟩ := Prod.mk.inj hread
      exact hbody t
  · refine Or.inr fun t _ a d hread => ?_
    rw [orReject_eq_ok, parseJsonString_other _ hb hquote] at hread
    cases hread

theorem skipBytes_isPrefixOf {word s : Bytes} (h : word.isPrefixOf s = true) :
    skipBytes (.inside s) word.length = .inside (s.drop word.length) := by
  obtain ⟨t, rfl⟩ := List.isPrefixOf_iff_prefix.mp h
  clear h
  induction word with
  | nil => rfl
  | cons b word ih =>
    rw [skipBytes, List.length_cons, Function.iterate_succ_apply]
    exact ih

theorem parseJsonBool_cons {b : Byte} (s : Bytes) (hb : isSpace b = false) :
    parseJsonBool (.inside (b :: s)) =
      if (ascii "true").isPrefixOf (b :: s) then .ok (some true, .inside ((b :: s).drop 4))
      else if (ascii "false").isPrefixOf (b :: s) then .ok (some false, .inside ((b :: s).drop 5))
      else .ok (none, .inside (b :: s)) := by
  simp only [parseJsonBool, skipWhitespace_cons s hb, compareAt, ok_bind, pure_eq_ok]
  split
  · next h => exact congrArg (fun c => Except.ok (some true, c)) (skipBytes_isPrefixOf h)
  split
  · next h => exact congrArg (fun c => Except.ok (some false, c)) (skipBytes_isPrefixOf h)
  · rfl

theorem drop_before {word s : Bytes} (t : Bytes) (h : word.isPrefixOf s = true) :
    (s ++ t).drop word.length = s.drop word.length ++ t :=
  List.drop_append_of_le_length (List.isPrefixOf_iff_prefix.mp h).length_le

theorem parseJsonBool_before {b : Byte} (w : Bytes) (hb : isSpace b = false) :
    (∃ value u, u.length ≤ w.length ∧ ∀ t, Bound t →
      parseJsonBool (.inside (b :: (w ++ t))) = .ok (some value, .inside (u ++ t))) ∨
    ((ascii "true").isPrefixOf (b :: w) || (ascii "false").isPrefixOf (b :: w)) = false ∧
      ∀ t, Bound t →
        parseJsonBool (.inside (b :: (w ++ t))) = .ok (none, .inside (b :: (w ++ t))) := by
  have htrue : ∀ t, Bound t →
      (ascii "true").isPrefixOf (b :: (w ++ t)) = (ascii "true").isPrefixOf (b :: w) :=
    fun t ht => isPrefixOf_before (b :: w) (by decide) ht
  have hfalse : ∀ t, Bound t →
      (ascii "false").isPrefixOf (b :: (w ++ t)) = (ascii "false").isPrefixOf (b :: w) :=
    fun t ht => isPrefixOf_before (b :: w) (by decide) ht
  by_cases h : (ascii "true").isPrefixOf (b :: w) = true
  · refine Or.inl ⟨true, (b :: w).drop 4, by simp, fun t ht => ?_⟩
    rw [parseJsonBool_cons _ hb, htrue t ht, if_pos h]
    exact congrArg (fun s => Except.ok (some true, Cursor.inside s)) (drop_before t h)
  by_cases h' : (ascii "false").isPrefixOf (b :: w) = true
  · refine Or.inl ⟨false, (b :: w).drop 5, by simp, fun t ht => ?_⟩
    rw [parseJsonBool_cons _ hb, htrue t ht, hfalse t ht, if_neg h, if_pos h']
    exact congrArg (fun s => Except.ok (some false, Cursor.inside s)) (drop_before t h')
  · refine Or.inr ⟨by simp [h, h'], fun t ht => ?_⟩
    rw [parseJsonBool_cons _ hb, htrue t ht, hfalse t ht, if_neg h, if_neg h']

theorem parseJsonBool_seesEnd {b : Byte} (w : Bytes) (hb : isSpace b = false) :
    SeesEnd (fun c => do orReject (← parseJsonBool c)) b w := by
  rcases parseJsonBool_before w hb with ⟨value, u, hlen, h⟩ | ⟨_, h⟩
  · exact Or.inl ⟨value, u, hlen, fun t ht => by simp only [h t ht, ok_bind, orReject]⟩
  · refine Or.inr fun t ht a d hread => ?_
    simp only [h t ht, ok_bind] at hread
    cases hread

theorem numberToken_ne_nil {s t u : Bytes} (h : numberToken s = (some t, u)) :
    u.length + 1 ≤ s.length := by
  obtain ⟨rfl, p, rfl⟩ := numberToken_sound h
  obtain ⟨b, v, hmagnitude, _⟩ := p.magnitude_head
  simp only [NumeralParts.text, hmagnitude, List.length_append, List.length_cons]
  omega

theorem parseJsonNumberAsString_cons {b : Byte} (s : Bytes) (hb : isSpace b = false) :
    parseJsonNumberAsString (.inside (b :: s)) =
      ((numberToken (b :: s)).1, .inside (numberToken (b :: s)).2) := by
  rw [parseJsonNumberAsString, skipWhitespace_cons s hb]

theorem parseJsonNumberAsString_before {b : Byte} {w t : Bytes} (hb : isSpace b = false)
    (ht : Bound t) :
    parseJsonNumberAsString (.inside (b :: (w ++ t))) =
      ((numberToken (b :: w)).1, .inside ((numberToken (b :: w)).2 ++ t)) := by
  have htoken := numberToken_before (b :: w) ht.numeral
  rw [List.cons_append] at htoken
  rw [parseJsonNumberAsString_cons _ hb, htoken]

/-- The first byte of a value decides how it is read. -/
theorem parseJsonValueAsString_seesEnd {b : Byte} (w : Bytes) (hb : isSpace b = false) :
    SeesEnd parseJsonValueAsString b w := by
  have hcons : ∀ s, skipWhitespace (.inside (b :: s)) = .inside (b :: s) :=
    fun s => skipWhitespace_cons s hb
  by_cases hquote : b = '"'
  · have hread : ∀ s, parseJsonValueAsString (.inside (b :: s)) =
        orReject (parseJsonString (.inside (b :: s))) >>= fun r => .ok (⟨r.1, true⟩, r.2) :=
      fun s => by
        simp only [parseJsonValueAsString, hcons, Cursor.rest_inside]
        rw [if_pos hquote]
        rfl
    have h := (parseJsonString_seesEnd w hb).convert fun out => JsonText.mk out true
    simp only [SeesEnd, hread]
    exact h
  by_cases hnumber : isNumberStart b = true
  · have hread : ∀ t, Bound t → parseJsonValueAsString (.inside (b :: (w ++ t))) =
        orReject ((numberToken (b :: w)).1, .inside ((numberToken (b :: w)).2 ++ t)) >>=
          fun r => .ok (⟨r.1, false⟩, r.2) := fun t ht => by
      simp only [parseJsonValueAsString, hcons, Cursor.rest_inside, hquote, hnumber, ↓reduceIte,
        parseJsonNumberAsString_before hb ht]
      rfl
    cases htoken : numberToken (b :: w) with
    | mk out u =>
      rw [htoken] at hread
      cases out with
      | some out =>
        have hlen := numberToken_ne_nil htoken
        rw [List.length_cons] at hlen
        exact Or.inl ⟨⟨out, false⟩, u, by omega, hread⟩
      | none =>
        refine Or.inr fun t ht a d h => ?_
        rw [hread t ht] at h
        cases h
  · rcases parseJsonBool_before w hb with ⟨value, u, hlen, hbool⟩ | ⟨_, hbool⟩
    · refine Or.inl ⟨⟨if value then ascii "true" else ascii "false", false⟩, u, hlen,
        fun t ht => ?_⟩
      simp only [parseJsonValueAsString, hcons, Cursor.rest_inside, hquote, hnumber,
        Bool.false_eq_true, ↓reduceIte, hbool t ht, ok_bind, pure_eq_ok]
    · have hnull : ∀ t, Bound t →
          (ascii "null").isPrefixOf (b :: (w ++ t)) = (ascii "null").isPrefixOf (b :: w) :=
        fun t ht => isPrefixOf_before (b :: w) (by decide) ht
      have hread : ∀ t, Bound t → parseJsonValueAsString (.inside (b :: (w ++ t))) =
          if (ascii "null").isPrefixOf (b :: w) then
            .ok (⟨[], false⟩, skipBytes (.inside (b :: (w ++ t))) 4)
          else .error .rejected := fun t ht => by
        simp only [parseJsonValueAsString, hcons, Cursor.rest_inside, hquote, hnumber,
          Bool.false_eq_true, ↓reduceIte, hbool t ht, ok_bind, compareAt, hnull t ht]
        split <;> rfl
      by_cases h : (ascii "null").isPrefixOf (b :: w) = true
      · refine Or.inl ⟨⟨[], false⟩, (b :: w).drop 4, by simp, fun t ht => ?_⟩
        have hskip : skipBytes (.inside (b :: (w ++ t))) 4 =
            .inside ((b :: (w ++ t)).drop 4) := skipBytes_isPrefixOf ((hnull t ht).trans h)
        have hdrop : (b :: (w ++ t)).drop 4 = (b :: w).drop 4 ++ t := drop_before t h
        rw [hread t ht, if_pos h, hskip, hdrop]
      · refine Or.inr fun t ht a d hok => ?_
        rw [hread t ht, if_neg h] at hok
        cases hok

theorem SeesEnd.local {read : Cursor → Except Failure (α × Cursor)} (ht : t ≠ [])
    (hbound : Bound t) (hbound' : Bound t') (hspace : ∀ c, read (skipWhitespace c) = read c)
    (hempty : ∀ {c a d}, c.rest = [] → read c = .ok (a, d) → d.left = 0)
    (h : ∀ b w, isSpace b = false → SeesEnd read b w) : Local t t' read :=
  .of_head ht hspace hempty (fun {b s _ _} hb hread => (h b s hb).strict hread)
    fun {b w _ _} hb hread hleft => (h b w hb).same ht hbound hbound' hread hleft

theorem parseJsonString_local (ht : t ≠ []) (hbound : Bound t) (hbound' : Bound t') :
    Local t t' fun c => orReject (parseJsonString c) := by
  refine SeesEnd.local ht hbound hbound' (fun c => by rw [parseJsonString_skipWhitespace]) ?_
    fun b w => parseJsonString_seesEnd w
  intro c a d hc h
  rcases rest_eq_nil_cases hc with rfl | ⟨n, rfl⟩ <;> cases h

theorem parseJsonBool_local (ht : t ≠ []) (hbound : Bound t) (hbound' : Bound t') :
    Local t t' (fun c => do orReject (← parseJsonBool c)) := by
  refine SeesEnd.local ht hbound hbound'
    (fun c => by simp only [parseJsonBool, skipWhitespace_skipWhitespace]) ?_
    fun b w => parseJsonBool_seesEnd w
  intro c a d hc h
  rcases rest_eq_nil_cases hc with rfl | ⟨n, rfl⟩ <;> cases h

theorem parseJsonValueAsString_local (ht : t ≠ []) (hbound : Bound t) (hbound' : Bound t') :
    Local t t' parseJsonValueAsString := by
  refine SeesEnd.local ht hbound hbound'
    (fun c => by simp only [parseJsonValueAsString, skipWhitespace_skipWhitespace]) ?_
    fun b w => parseJsonValueAsString_seesEnd w
  intro c a d hc h
  rcases rest_eq_nil_cases hc with rfl | ⟨n, rfl⟩ <;> cases h

/-! ### Skipping -/

/-- `skip` as a reader of the value `a`. -/
def passing (skip : Cursor → Except Failure Cursor) (a : α) (c : Cursor) :
    Except Failure (α × Cursor) := do return (a, ← skip c)

theorem passing_eq_ok {skip : Cursor → Except Failure Cursor} {a b : α} {c d : Cursor} :
    passing skip a c = .ok (b, d) ↔ skip c = .ok d ∧ a = b := by
  unfold passing
  cases skip c with
  | error e => simp
  | ok d' => simp [and_comm]

theorem skipJsonValue_skipWhitespace (fuel : Nat) (c : Cursor) :
    skipJsonValue fuel (skipWhitespace c) = skipJsonValue fuel c := by
  cases fuel with
  | zero => rfl
  | succ fuel => simp only [skipJsonValue, skipWhitespace_skipWhitespace]

/-- What `skipJsonValue` does behind a truth value. -/
def skipNull (c : Cursor) : Except Failure Cursor := do
  if ← compareAt c (ascii "null") then return skipBytes c 4
  return c

theorem skipNull_inside (s : Bytes) :
    skipNull (.inside s) =
      .ok (.inside (if (ascii "null").isPrefixOf s then s.drop 4 else s)) := by
  simp only [skipNull, compareAt, ok_bind, pure_eq_ok]
  split
  · next h => exact congrArg Except.ok (skipBytes_isPrefixOf h)
  · rfl

theorem skipNull_before {t : Bytes} (u : Bytes) (ht : Bound t) :
    skipNull (.inside (u ++ t)) =
      .ok (.inside ((if (ascii "null").isPrefixOf u then u.drop 4 else u) ++ t)) := by
  have hnull : (ascii "null").isPrefixOf (u ++ t) = (ascii "null").isPrefixOf u :=
    isPrefixOf_before u (by decide) ht
  rw [skipNull_inside, hnull]
  split
  · next h => exact congrArg (fun s => Except.ok (Cursor.inside s)) (drop_before t h)
  · rfl

theorem skipJsonValue_cons (fuel : Nat) {b : Byte} (s : Bytes) (hb : isSpace b = false) :
    skipJsonValue (fuel + 1) (.inside (b :: s)) =
      if b = '{' then skipElements '}' fuel (.inside s)
      else if b = '[' then skipElements ']' fuel (.inside s)
      else if b = '"' then .ok (.inside (stringBody s).2)
      else if (ascii "true").isPrefixOf (b :: s) || (ascii "false").isPrefixOf (b :: s) ||
          (ascii "null").isPrefixOf (b :: s) then do
        skipNull (← parseJsonBool (.inside (b :: s))).2
      else .ok (if (numberToken (b :: s)).1.isSome then .inside (numberToken (b :: s)).2
        else (Cursor.inside (numberToken (b :: s)).2).advance) := by
  simp only [skipJsonValue, skipWhitespace_cons s hb, Cursor.rest_inside, Cursor.advance_cons,
    parseJsonNumberAsString_cons s hb]
  split
  · rfl
  split
  · rfl
  split
  · next hquote =>
    rw [hquote, parseJsonString_quote]
    rfl
  split
  · rfl
  · cases (numberToken (b :: s)).1 <;> rfl

theorem skipJsonValue_seesEnd (fuel : Nat) {b : Byte} (w : Bytes) (hb : isSpace b = false)
    (hobject : b ≠ '{') (harray : b ≠ '[') :
    SeesEnd (passing (skipJsonValue (fuel + 1)) ()) b w := by
  have hfound : ∀ u : Bytes, u.length ≤ w.length →
      (∀ t, Bound t → skipJsonValue (fuel + 1) (.inside (b :: (w ++ t))) = .ok (.inside (u ++ t))) →
      SeesEnd (passing (skipJsonValue (fuel + 1)) ()) b w := by
    intro u hlen h
    exact Or.inl ⟨(), u, hlen, fun t ht => passing_eq_ok.mpr ⟨h t ht, rfl⟩⟩
  have hlost : (∀ t, Bound t → ∀ d, skipJsonValue (fuel + 1) (.inside (b :: (w ++ t))) = .ok d →
      d.left ≤ t.length - 1) → SeesEnd (passing (skipJsonValue (fuel + 1)) ()) b w := by
    intro h
    exact Or.inr fun t ht a d hread => h t ht d (passing_eq_ok.mp hread).1
  by_cases hquote : b = '"'
  · have hread : ∀ t, skipJsonValue (fuel + 1) (.inside (b :: (w ++ t))) =
        .ok (.inside (stringBody (w ++ t)).2) := fun t => by
      rw [skipJsonValue_cons fuel _ hb, if_neg hobject, if_neg harray, if_pos hquote]
    rcases stringBody_before w with ⟨out, u, hbody⟩ | hbody
    · refine hfound u ?_ fun t _ => by rw [hread, hbody]
      have hle := length_stringBody_le (w ++ [])
      rw [hbody] at hle
      simpa using hle
    · refine hlost fun t _ d h => ?_
      rw [hread] at h
      cases h
      exact hbody t
  have hword : ∀ {word : Bytes}, word.any isBoundary = false → ∀ t, Bound t →
      word.isPrefixOf (b :: (w ++ t)) = word.isPrefixOf (b :: w) :=
    fun hword t ht => isPrefixOf_before (b :: w) hword ht
  have htrue := @hword (ascii "true") (by decide)
  have hfalse := @hword (ascii "false") (by decide)
  have hnull := @hword (ascii "null") (by decide)
  by_cases hwords : ((ascii "true").isPrefixOf (b :: w) || (ascii "false").isPrefixOf (b :: w) ||
      (ascii "null").isPrefixOf (b :: w)) = true
  · have hread : ∀ t, Bound t → skipJsonValue (fuel + 1) (.inside (b :: (w ++ t))) = (do
        skipNull (← parseJsonBool (.inside (b :: (w ++ t)))).2) := fun t ht => by
      rw [skipJsonValue_cons fuel _ hb, if_neg hobject, if_neg harray, if_neg hquote,
        htrue t ht, hfalse t ht, hnull t ht, if_pos hwords]
    rcases parseJsonBool_before w hb with ⟨value, u, hlen, hbool⟩ | ⟨hnone, hbool⟩
    · refine hfound (if (ascii "null").isPrefixOf u then u.drop 4 else u) ?_ fun t ht => ?_
      · split
        · rw [List.length_drop]
          omega
        · exact hlen
      · rw [hread t ht, hbool t ht]
        exact skipNull_before u ht
    · rw [hnone, Bool.false_or] at hwords
      refine hfound ((b :: w).drop 4) (by simp) fun t ht => ?_
      have hskip := skipNull_before (b :: w) ht
      rw [if_pos hwords] at hskip
      rw [hread t ht, hbool t ht]
      exact hskip
  · have hread : ∀ t, Bound t → skipJsonValue (fuel + 1) (.inside (b :: (w ++ t))) =
        .ok (if (numberToken (b :: w)).1.isSome then .inside ((numberToken (b :: w)).2 ++ t)
          else (Cursor.inside ((numberToken (b :: w)).2 ++ t)).advance) := fun t ht => by
      have htoken := numberToken_before (b :: w) ht.numeral
      rw [List.cons_append] at htoken
      rw [skipJsonValue_cons fuel _ hb, if_neg hobject, if_neg harray, if_neg hquote,
        htrue t ht, hfalse t ht, hnull t ht, if_neg hwords, htoken]
    have hlen := length_numberToken_le (b :: w)
    rw [List.length_cons] at hlen
    cases htoken : numberToken (b :: w) with
    | mk out u =>
      rw [htoken] at hread hlen
      cases out with
      | some out =>
        have hpos := numberToken_ne_nil htoken
        rw [List.length_cons] at hpos
        exact hfound u (by omega) hread
      | none =>
        cases u with
        | nil =>
          refine hlost fun t ht d h => ?_
          rw [hread t ht] at h
          cases h
          exact le_of_eq (Cursor.left_advance (.inside t))
        | cons c u =>
          rw [List.length_cons] at hlen
          exact hfound u (by omega) hread

theorem left_skipWhitespace_blank {u : Bytes} (t : Bytes) (h : Blank u) :
    (skipWhitespace (.inside (u ++ t))).left ≤ t.length := by
  rw [skipWhitespace_blank t h]
  exact left_skipWhitespace_le (.inside t)

theorem skipJsonValue_local_step (ht : t ≠ []) (hbound : Bound t) (hbound' : Bound t') {fuel : Nat}
    (helements : ∀ close : Byte, close ≠ ',' →
      Local t t' (passing (skipElements close fuel) ())) :
    Local t t' (passing (skipJsonValue (fuel + 1)) ()) := by
  have hopen : ∀ {b : Byte}, b = '{' ∨ b = '[' → ∃ close : Byte, close ≠ ',' ∧ ∀ s,
      passing (skipJsonValue (fuel + 1)) () (.inside (b :: s)) =
        passing (skipElements close fuel) () (.inside s) := by
    rintro b (rfl | rfl)
    · refine ⟨'}', by decide, fun s => ?_⟩
      rw [passing, skipJsonValue_cons fuel s (by decide), if_pos rfl]
      rfl
    · refine ⟨']', by decide, fun s => ?_⟩
      rw [passing, skipJsonValue_cons fuel s (by decide), if_neg (by decide), if_pos rfl]
      rfl
  refine .of_head ht (fun c => by rw [passing, skipJsonValue_skipWhitespace]; rfl) ?_ ?_ ?_
  · intro c a d hc h
    rcases rest_eq_nil_cases hc with rfl | ⟨n, rfl⟩ <;> cases h <;> rfl
  · intro b s a d hb h
    by_cases hbracket : b = '{' ∨ b = '['
    · obtain ⟨close, hclose, hread⟩ := hopen hbracket
      rw [hread] at h
      exact le_trans ((helements close hclose).strict h) (Nat.sub_le _ _)
    · rw [not_or] at hbracket
      exact (skipJsonValue_seesEnd fuel s hb hbracket.1 hbracket.2).strict h
  · intro b w a d hb h hleft
    by_cases hbracket : b = '{' ∨ b = '['
    · obtain ⟨close, hclose, hread⟩ := hopen hbracket
      rw [hread] at h
      rw [hread]
      exact (helements close hclose).same h hleft
    · rw [not_or] at hbracket
      exact (skipJsonValue_seesEnd fuel w hb hbracket.1 hbracket.2).same ht hbound hbound' h hleft

/-- The end of a round: the byte behind the value is passed over, and may end the loop. -/
def skipSeparator (close : Byte) (fuel : Nat) (c : Cursor) : Except Failure Cursor :=
  if c.rest.head? = some close then .ok c.advance else skipElements close fuel c.advance

theorem skipSeparator_cons (close : Byte) (fuel : Nat) (b : Byte) (s : Bytes) :
    skipSeparator close fuel (.inside (b :: s)) =
      if b = close then .ok (.inside s) else skipElements close fuel (.inside s) := by
  simp [skipSeparator]

theorem skipElements_succ {close : Byte} (hclose : close ≠ ',') (fuel : Nat) {c : Cursor}
    (hc : c.rest ≠ []) :
    skipElements close (fuel + 1) c = (skipJsonValue fuel c >>= fun d =>
      skipSeparator close fuel (skipWhitespace d)) := by
  simp only [skipElements, if_neg hc]
  cases skipJsonValue fuel c with
  | error e => rfl
  | ok d =>
    simp only [ok_bind, skipSeparator]
    by_cases hcomma : (skipWhitespace d).rest.head? = some (',' : Byte)
    · have hne : ¬some (',' : Byte) = some close := fun h => hclose (Option.some.inj h).symm
      rw [if_pos hcomma, hcomma, if_neg hne]
    · rw [if_neg hcomma]
      rfl

theorem left_skipSeparator {close : Byte} {fuel : Nat}
    (helements : Local t t' (passing (skipElements close fuel) ())) {c d : Cursor}
    (h : skipSeparator close fuel c = .ok d) : d.left ≤ c.left - 1 := by
  have hadvance := Cursor.left_advance c
  unfold skipSeparator at h
  split at h
  · cases h
    omega
  · have := helements.strict (passing_eq_ok.mpr ⟨h, rfl⟩)
    omega

theorem skipElements_local_step (ht : t ≠ []) {close : Byte} (hclose : close ≠ ',') {fuel : Nat}
    (hvalue : Local t t' (passing (skipJsonValue fuel) ()))
    (helements : Local t t' (passing (skipElements close fuel) ())) :
    Local t t' (passing (skipElements close (fuel + 1)) ()) := by
  have hstrict : ∀ {c a d}, passing (skipElements close (fuel + 1)) () c = .ok (a, d) →
      d.left ≤ c.left - 1 := by
    intro c a d h
    obtain ⟨h, _⟩ := passing_eq_ok.mp h
    by_cases hc : c.rest = []
    · simp only [skipElements, if_pos hc] at h
      cases h
      simp [Cursor.left_eq_zero.mpr hc]
    · rw [skipElements_succ hclose fuel hc] at h
      obtain ⟨e, he, h⟩ := bind_eq_ok.mp h
      have hback := hvalue.strict (passing_eq_ok.mpr ⟨he, rfl⟩)
      have hle := left_skipWhitespace_le e
      have := left_skipSeparator helements h
      omega
  refine ⟨hstrict, fun {w a d} h hleft => ?_⟩
  have hpos := List.length_pos_iff.mpr ht
  have hw : w ≠ [] := by
    rintro rfl
    have := hstrict h
    rw [List.nil_append, Cursor.left_inside] at this
    omega
  obtain ⟨h, _⟩ := passing_eq_ok.mp h
  rw [skipElements_succ hclose fuel (by simp [hw])] at h
  obtain ⟨e, he, h⟩ := bind_eq_ok.mp h
  have hle := left_skipWhitespace_le e
  have hlast := left_skipSeparator helements h
  obtain ⟨u, rfl, hsame⟩ := hvalue.same (passing_eq_ok.mpr ⟨he, rfl⟩) (by omega)
  have hu : ¬Blank u := by
    intro hblank
    have := left_skipWhitespace_blank t hblank
    omega
  obtain ⟨b, v, _, hskip⟩ := skipWhitespace_before hu
  rw [hskip] at h
  have hround : skipElements close (fuel + 1) (.inside (w ++ t')) =
      skipSeparator close fuel (.inside (b :: (v ++ t'))) := by
    rw [skipElements_succ hclose fuel (by simp [hw]), (passing_eq_ok.mp hsame).1, ok_bind, hskip]
  rw [skipSeparator_cons] at h hround
  split at h
  · next hb =>
    cases h
    rw [if_pos hb] at hround
    exact ⟨v, rfl, passing_eq_ok.mpr ⟨hround, rfl⟩⟩
  · next hb =>
    obtain ⟨u', hd, hrest⟩ := helements.same (passing_eq_ok.mpr ⟨h, rfl⟩) hleft
    rw [if_neg hb, (passing_eq_ok.mp hrest).1] at hround
    exact ⟨u', hd, passing_eq_ok.mpr ⟨hround, rfl⟩⟩

theorem Local.passing {skip : Cursor → Except Failure Cursor}
    (h : Local t t' (InverterMonitor.Json.passing skip ())) (a : α) :
    Local t t' (InverterMonitor.Json.passing skip a) := by
  constructor
  · intro c b d hread
    exact h.strict (passing_eq_ok.mpr ⟨(passing_eq_ok.mp hread).1, rfl⟩)
  · intro w b d hread hleft
    obtain ⟨hskip, rfl⟩ := passing_eq_ok.mp hread
    obtain ⟨u, hd, hsame⟩ := h.same (passing_eq_ok.mpr ⟨hskip, rfl⟩) hleft
    exact ⟨u, hd, passing_eq_ok.mpr ⟨(passing_eq_ok.mp hsame).1, rfl⟩⟩

/-- A value within `fuel` rounds, and an array or an object within one less. -/
theorem skip_local (ht : t ≠ []) (hbound : Bound t) (hbound' : Bound t') (fuel : Nat) :
    Local t t' (passing (skipJsonValue fuel) ()) ∧
      ∀ close : Byte, close ≠ ',' → Local t t' (passing (skipElements close fuel) ()) := by
  induction fuel with
  | zero =>
    constructor
    · constructor <;> intros <;> contradiction
    · intro close _
      constructor <;> intros <;> contradiction
  | succ fuel ih =>
    obtain ⟨hvalue, helements⟩ := ih
    constructor
    · exact skipJsonValue_local_step ht hbound hbound' helements
    · intro close hclose
      exact skipElements_local_step ht hclose hvalue (helements close hclose)

end

end InverterMonitor.Json
