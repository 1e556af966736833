import InverterMonitor.Format.JsonTree
import InverterMonitor.Server.ReaderLoops

/-!
# Which values `skipJsonValue` gets past

The loops of `skipJsonValue` look for a value before they look for the closing
byte, so they pass over the closing byte of an empty array or object.

* `skipJsonValue_filled`: the end of a value without empty arrays and objects is
  found;
* `skipJsonValue_hollow`: the end of an empty array or object never is;
* `skippedExactly_iff`: all values in a tree are skipped exactly when the tree is
  filled.
-/

namespace InverterMonitor.Json
open Text Cxx JsonTree

/-! ## Rounds -/

/-- From some number of rounds on, skipping from `c` ends at `d`. -/
def SkipsTo (skip : Nat → Cursor → Except Failure Cursor) (c d : Cursor) : Prop :=
  ∃ n, ∀ m, n ≤ m → skip m c = .ok d

theorem SkipsTo.of_succ {skip : Nat → Cursor → Except Failure Cursor} {c d : Cursor}
    (h : ∃ n, ∀ m, n ≤ m → skip (m + 1) c = .ok d) : SkipsTo skip c d := by
  obtain ⟨n, h⟩ := h
  refine ⟨n + 1, fun m hm => ?_⟩
  obtain ⟨m, rfl⟩ : ∃ k, m = k + 1 := ⟨m - 1, by omega⟩
  exact h m (by omega)

section

variable {close b : Byte} {gap s : Bytes} {c d : Cursor}

theorem SkipsTo.blank (hgap : Blank gap) (h : SkipsTo skipJsonValue (.inside s) d) :
    SkipsTo skipJsonValue (.inside (gap ++ s)) d := by
  obtain ⟨n, h⟩ := h
  refine ⟨n, fun m hm => ?_⟩
  rw [← skipJsonValue_skipWhitespace, skipWhitespace_blank s hgap, skipJsonValue_skipWhitespace]
  exact h m hm

/-- The byte behind a value ends the loop. -/
theorem SkipsTo.last (hclose : close ≠ ',') (hspace : isSpace close = false) (hc : c.rest ≠ [])
    (hgap : Blank gap) (hvalue : SkipsTo skipJsonValue c (.inside (gap ++ close :: s))) :
    SkipsTo (skipElements close) c (.inside s) := by
  obtain ⟨n, hvalue⟩ := hvalue
  refine .of_succ ⟨n, fun m hm => ?_⟩
  rw [skipElements_succ hclose m hc, hvalue m hm, ok_bind, skipWhitespace_gap s hgap hspace,
    skipSeparator_cons, if_pos rfl]

/-- The byte behind a value is passed over. -/
theorem SkipsTo.more (hclose : close ≠ ',') (hspace : isSpace b = false) (hb : b ≠ close)
    (hc : c.rest ≠ []) (hgap : Blank gap)
    (hvalue : SkipsTo skipJsonValue c (.inside (gap ++ b :: s)))
    (hrest : SkipsTo (skipElements close) (.inside s) d) : SkipsTo (skipElements close) c d := by
  obtain ⟨n, hvalue⟩ := hvalue
  obtain ⟨n', hrest⟩ := hrest
  refine .of_succ ⟨max n n', fun m hm => ?_⟩
  rw [skipElements_succ hclose m hc, hvalue m (by omega), ok_bind, skipWhitespace_gap s hgap hspace,
    skipSeparator_cons, if_neg hb, hrest m (by omega)]

theorem SkipsTo.array (h : SkipsTo (skipElements ']') (.inside s) d) :
    SkipsTo skipJsonValue (.inside (('[' : Byte) :: s)) d := by
  obtain ⟨n, h⟩ := h
  refine .of_succ ⟨n, fun m hm => ?_⟩
  rw [skipJsonValue_cons m s (by decide), if_neg (by decide), if_pos rfl, h m hm]

theorem SkipsTo.object (h : SkipsTo (skipElements '}') (.inside s) d) :
    SkipsTo skipJsonValue (.inside (('{' : Byte) :: s)) d := by
  obtain ⟨n, h⟩ := h
  refine .of_succ ⟨n, fun m hm => ?_⟩
  rw [skipJsonValue_cons m s (by decide), if_pos rfl, h m hm]

end

/-! ## Tokens -/

/-- What stands between the quotes, with its escapes undone. -/
def spelled (body : Bytes) : Bytes := (stringBody (body ++ ascii "\"")).1.getD []

theorem stringBody_quoted {body : Bytes} (h : isQuoted body = true) (s : Bytes) :
    stringBody (body ++ ('"' : Byte) :: s) = (some (spelled body), s) := by
  have hread : ∃ out, ∀ s, stringBody (body ++ ('"' : Byte) :: s) = (some out, s) := by
    induction body using isQuoted.induct with
    | case1 => exact ⟨[], stringBody_quote⟩
    | case2 body => simp [isQuoted_quote] at h
    | case3 => cases h
    | case4 e body hq ih =>
      rw [isQuoted_escape] at h
      obtain ⟨out, hout⟩ := ih h
      refine ⟨unescape e :: out, fun s => ?_⟩
      change stringBody (('\\' : Byte) :: e :: (body ++ ('"' : Byte) :: s)) = _
      rw [stringBody_escape, hout]
      rfl
    | case5 c body hq hb ih =>
      rw [isQuoted_plain body hq hb] at h
      obtain ⟨out, hout⟩ := ih h
      refine ⟨c :: out, fun s => ?_⟩
      change stringBody (c :: (body ++ ('"' : Byte) :: s)) = _
      rw [stringBody_plain _ hq hb, hout]
      rfl
  obtain ⟨out, hout⟩ := hread
  have hspelled : spelled body = out := by
    change ((stringBody (body ++ ('"' : Byte) :: [])).1).getD [] = out
    rw [hout]
    rfl
  rw [hspelled]
  exact hout s

theorem parseJsonString_quoted_body {body : Bytes} (h : isQuoted body = true) (s : Bytes) :
    parseJsonString (.inside (quoted body ++ s)) = (some (spelled body), .inside s) := by
  simp only [quoted, List.append_assoc, List.cons_append]
  rw [parseJsonString_quote]
  exact congrArg (fun r => (r.1, Cursor.inside r.2)) (stringBody_quoted h s)

theorem SkipsTo.string {body : Bytes} (h : isQuoted body = true) (s : Bytes) :
    SkipsTo skipJsonValue (.inside (('"' : Byte) :: (body ++ ('"' : Byte) :: s))) (.inside s) := by
  refine .of_succ ⟨0, fun m _ => ?_⟩
  rw [skipJsonValue_cons m _ (by decide), if_neg (by decide), if_neg (by decide), if_pos rfl,
    stringBody_quoted h]

/-- A word is skipped up to a boundary. -/
theorem SkipsTo.word {word s : Bytes} (h : word ∈ [ascii "null", ascii "true", ascii "false"])
    (hs : Bound s) : SkipsTo skipJsonValue (.inside (word ++ s)) (.inside s) := by
  have hnull : skipNull (.inside s) = .ok (.inside s) := skipNull_before [] hs
  simp only [List.mem_cons, List.not_mem_nil, or_false] at h
  rcases h with rfl | rfl | rfl
  · exact .of_succ ⟨0, fun m _ => rfl⟩
  · exact .of_succ ⟨0, fun m _ => hnull⟩
  · exact .of_succ ⟨0, fun m _ => hnull⟩

theorem SkipsTo.number (p : NumeralParts) {s : Bytes} (hs : Bound s) :
    SkipsTo skipJsonValue (.inside (p.text ++ s)) (.inside s) := by
  obtain ⟨b, w, hb, htext⟩ : ∃ b w, isNumeralByte b = true ∧ p.text = b :: w := by
    cases hp : p.text with
    | nil =>
      obtain ⟨b, t, hm, _⟩ := p.magnitude_head
      simp [NumeralParts.text, hm] at hp
    | cons b w => exact ⟨b, w, (show IsNumeral p.text from ⟨p, rfl⟩).bytes b (by simp [hp]), rfl⟩
  have hspace : isSpace b = false := by
    cases h : isSpace b with
    | false => rfl
    | true =>
      rw [isNumeralByte_of_isSpace h] at hb
      cases hb
  have hne : ∀ {x : Byte}, isNumeralByte x = false → b ≠ x := by
    rintro x hx rfl
    rw [hb] at hx
    cases hx
  have hword : ∀ {word : Bytes} {x : Byte}, word.head? = some x → isNumeralByte x = false →
      word.isPrefixOf (b :: (w ++ s)) = false := by
    intro word x hx hnumeral
    cases word with
    | nil => cases hx
    | cons y word =>
      obtain rfl : y = x := Option.some.inj hx
      simp [List.isPrefixOf, (hne hnumeral).symm]
  refine .of_succ ⟨0, fun m _ => ?_⟩
  have htoken := numberToken_append p hs.numeral
  rw [htext, List.cons_append] at htoken ⊢
  rw [skipJsonValue_cons m _ hspace, if_neg (hne (by decide)), if_neg (hne (by decide)),
    if_neg (hne (by decide)), hword (x := 't') rfl (by decide), hword (x := 'f') rfl (by decide),
    hword (x := 'n') rfl (by decide), htoken]
  rfl

/-! ## Trees -/

theorem bound_blank {gap s : Bytes} (hgap : Blank gap) (hs : Bound s) : Bound (gap ++ s) := by
  cases gap with
  | nil => exact hs
  | cons b gap =>
    rw [blank_cons] at hgap
    exact bound_cons (gap ++ s) (by simp [isBoundary, hgap.1])

/-- Skipping ends behind the value, or behind the closing byte of the items or members. -/
def Skipped : {i : Part} → Tree i → Prop
  | .value, v => ∀ s, Bound s → SkipsTo skipJsonValue (.inside (v.text ++ s)) (.inside s)
  | .items, t =>
    ∀ s, SkipsTo (skipElements ']') (.inside (t.text ++ (']' : Byte) :: s)) (.inside s)
  | .members, t =>
    ∀ s, SkipsTo (skipElements '}') (.inside (t.text ++ ('}' : Byte) :: s)) (.inside s)

theorem skipped_lastItem {before after : Bytes} {v : Tree .value} (hbefore : Blank before)
    (hv : Skipped v) (hafter : Blank after) : Skipped (Tree.lastItem before v after) := by
  intro s
  simp only [Tree.text, List.append_assoc]
  refine .last (by decide) (by decide) (by simp) hafter (.blank hbefore ?_)
  exact hv _ (bound_blank hafter (bound_cons s (by decide)))

theorem skipped_item {before after : Bytes} {v : Tree .value} {rest : Tree .items}
    (hbefore : Blank before) (hv : Skipped v) (hafter : Blank after) (hrest : Skipped rest) :
    Skipped (Tree.item before v after rest) := by
  intro s
  simp only [Tree.text, List.append_assoc, List.cons_append]
  refine .more (by decide) (show isSpace ',' = false by decide) (by decide) (by simp) hafter
    (.blank hbefore ?_) (hrest s)
  exact hv _ (bound_blank hafter (bound_cons _ (by decide)))

/-- The key and the colon of a member are passed over like a value and its comma. -/
theorem SkipsTo.name {name : Name} (h : name.WellFormed) {s : Bytes} {d : Cursor}
    (hrest : SkipsTo (skipElements '}') (.inside (name.afterColon ++ s)) d) :
    SkipsTo (skipElements '}') (.inside (name.text ++ s)) d := by
  simp only [Name.text, quoted, List.append_assoc, List.cons_append]
  refine .more (by decide) (show isSpace ':' = false by decide) (by decide) (by simp)
    h.beforeColon (.blank h.before ?_) hrest
  exact .string h.key _

theorem skipped_lastMember {name : Name} {after : Bytes} {v : Tree .value} (hname : name.WellFormed)
    (hv : Skipped v) (hafter : Blank after) : Skipped (Tree.lastMember name v after) := by
  intro s
  simp only [Tree.text, List.append_assoc]
  refine .name hname (.last (by decide) (by decide) (by simp) hafter
    (.blank hname.afterColon ?_))
  exact hv _ (bound_blank hafter (bound_cons s (by decide)))

theorem skipped_member {name : Name} {after : Bytes} {v : Tree .value} {rest : Tree .members}
    (hname : name.WellFormed) (hv : Skipped v) (hafter : Blank after) (hrest : Skipped rest) :
    Skipped (Tree.member name v after rest) := by
  intro s
  simp only [Tree.text, List.append_assoc, List.cons_append]
  refine .name hname (.more (by decide) (show isSpace ',' = false by decide) (by decide) (by simp)
    hafter (.blank hname.afterColon ?_) (hrest s))
  exact hv _ (bound_blank hafter (bound_cons _ (by decide)))

/-- Every round of a loop starts at a value, for no array and no object is empty. -/
theorem skipped_of_filled {i : Part} {t : Tree i} (h : t.WellFormed) (hfilled : t.filled = true) :
    Skipped t := by
  induction t with
  | null => exact fun s hs => .word (by decide) hs
  | bool b => cases b <;> exact fun s hs => .word (by decide) hs
  | number p => exact fun s hs => .number p hs
  | string body =>
    intro s _
    simp only [Tree.text, quoted, List.append_assoc, List.cons_append]
    exact .string h s
  | emptyArray gap => cases hfilled
  | emptyObject gap => cases hfilled
  | array items ih =>
    intro s _
    simp only [Tree.text, List.append_assoc, List.cons_append]
    exact .array (ih h hfilled s)
  | object members ih =>
    intro s _
    simp only [Tree.text, List.append_assoc, List.cons_append]
    exact .object (ih h hfilled s)
  | lastItem before value after ih => exact skipped_lastItem h.1 (ih h.2.1 hfilled) h.2.2
  | lastMember name value after ih => exact skipped_lastMember h.1 (ih h.2.1 hfilled) h.2.2
  | item before value after rest ih ihRest =>
    rw [Tree.filled, Bool.and_eq_true] at hfilled
    exact skipped_item h.1 (ih h.2.1 hfilled.1) h.2.2.1 (ihRest h.2.2.2 hfilled.2)
  | member name value after rest ih ihRest =>
    rw [Tree.filled, Bool.and_eq_true] at hfilled
    exact skipped_member h.1 (ih h.2.1 hfilled.1) h.2.2.1 (ihRest h.2.2.2 hfilled.2)

/-- With enough rounds, skipping gives what it gives with more. -/
theorem SkipsTo.within {c d : Cursor} (h : SkipsTo skipJsonValue c d) {bound : Nat}
    (hbound : 2 * c.left + 1 ≤ bound) : skipJsonValue bound c = .ok d := by
  obtain ⟨n, h⟩ := h
  obtain ⟨e, he, _⟩ := skipJsonValue_total hbound
  have hmore := (skip_extends (Nat.le_max_left bound n)).1 c e he
  rw [h _ (Nat.le_max_right bound n)] at hmore
  rw [he, ← hmore]

/-- A value without empty arrays and objects is skipped up to its end. -/
theorem skipJsonValue_filled {v : Tree .value} (h : v.WellFormed) (hfilled : v.filled = true)
    {gap s : Bytes} (hgap : Blank gap) (hs : Bound s) {bound : Nat}
    (hbound : 2 * (gap ++ (v.text ++ s)).length + 1 ≤ bound) :
    skipJsonValue bound (.inside (gap ++ (v.text ++ s))) = .ok (.inside s) :=
  (SkipsTo.blank hgap (skipped_of_filled h hfilled s hs)).within hbound

/-! ## Empty arrays and objects -/

/-- A closing byte is skipped like any byte that begins no value. -/
theorem skipJsonValue_close {close : Byte} (h : close = ']' ∨ close = '}') (fuel : Nat) (s : Bytes) :
    skipJsonValue (fuel + 1) (.inside (close :: s)) = .ok (.inside s) := by
  rcases h with rfl | rfl <;> rfl

theorem skipElements_strict (close : Byte) (hclose : close ≠ ',') (fuel : Nat) {c d : Cursor}
    (h : skipElements close fuel c = .ok d) : d.left ≤ c.left - 1 := by
  have hbound : Bound (ascii ",") := bound_cons [] (by decide)
  have hlocal := (skip_local (by decide) hbound hbound fuel).2 close hclose
  exact hlocal.strict (passing_eq_ok.mpr ⟨h, rfl⟩)

/-- The loop goes past the closing byte that it meets first. -/
theorem skipElements_close {close : Byte} (h : close = ']' ∨ close = '}') {gap : Bytes}
    (hgap : Blank gap) (fuel : Nat) (s : Bytes) :
    skipElements close fuel (.inside (gap ++ close :: s)) ≠ .ok (.inside s) := by
  have hclose : close ≠ ',' := by rcases h with rfl | rfl <;> decide
  intro hread
  cases fuel with
  | zero => cases hread
  | succ fuel =>
    rw [skipElements_succ hclose fuel (by simp), ← skipJsonValue_skipWhitespace,
      skipWhitespace_blank _ hgap, skipJsonValue_skipWhitespace] at hread
    cases fuel with
    | zero => cases hread
    | succ fuel =>
      rw [skipJsonValue_close h, ok_bind, skipSeparator] at hread
      have hspace := left_skipWhitespace_le (.inside s)
      have hadvance := Cursor.left_advance (skipWhitespace (.inside s))
      cases s with
      | nil => cases hread
      | cons b s =>
        rw [Cursor.left_inside, List.length_cons] at hspace
        split at hread
        · have hleft := congrArg Cursor.left (Except.ok.inj hread)
          rw [hadvance, Cursor.left_inside, List.length_cons] at hleft
          omega
        · have hleft := skipElements_strict close hclose _ hread
          rw [hadvance, Cursor.left_inside, List.length_cons] at hleft
          omega

theorem skipJsonValue_hollow {v : Tree .value} (h : v.WellFormed) (hhollow : v.isHollow = true)
    (bound : Nat) (s : Bytes) : skipJsonValue bound (.inside (v.text ++ s)) ≠ .ok (.inside s) := by
  cases bound with
  | zero => exact fun hread => by cases hread
  | succ bound =>
    cases v with
    | emptyArray gap =>
      simp only [Tree.text, List.append_assoc, List.cons_append]
      rw [skipJsonValue_cons bound _ (by decide), if_neg (by decide), if_pos rfl]
      exact skipElements_close (Or.inl rfl) h bound s
    | emptyObject gap =>
      simp only [Tree.text, List.append_assoc, List.cons_append]
      rw [skipJsonValue_cons bound _ (by decide), if_pos rfl]
      exact skipElements_close (Or.inr rfl) h bound s
    | null | bool | number | string | array | object => cases hhollow

/-- Before a boundary, and with enough rounds, skipping ends behind the value. -/
def SkippedExactly (v : Tree .value) : Prop :=
  ∀ s bound, Bound s → 2 * (v.text ++ s).length + 1 ≤ bound →
    skipJsonValue bound (.inside (v.text ++ s)) = .ok (.inside s)

theorem skippedExactly_iff {v : Tree .value} (h : v.WellFormed) :
    (∀ w ∈ v.values, SkippedExactly w) ↔ v.filled = true := by
  rw [Tree.filled_iff]
  constructor
  · intro hexact w hw
    cases hhollow : w.isHollow with
    | false => rfl
    | true =>
      have hread := hexact w hw [] _ (stops_nil _) (le_refl _)
      exact absurd hread (skipJsonValue_hollow (Tree.wellFormed_of_mem h hw) hhollow _ _)
  · intro hfilled w hw s bound hs hbound
    have hw' := Tree.filled_of_mem ((Tree.filled_iff v).mpr hfilled) hw
    exact skipJsonValue_filled (Tree.wellFormed_of_mem h hw) hw' blank_nil hs hbound

-- Text behind an empty array can bring the loops back into step by accident.
example : skipJsonValue 60 (.inside (ascii "[\x7b\"a\":[]\x7d,\"x]\x7d\",12]")) =
    .ok (.inside []) := by decide +kernel

end InverterMonitor.Json
