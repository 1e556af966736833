import InverterMonitor.Server.UnknownMembers

/-!
# What the readers make of JSON

`Level.eval` says what a member does to the object that is read, in terms of the
tree of its value.

* `member_reads`: the readers of members agree with it on well formed values;
* `readObject_reads`: so the members of an object act on it one after the other.

A reader stops at the first member or element that it cannot read, so that nothing is
asked of those behind it (`ReachedMember`, `ReachedElement`).
-/

namespace InverterMonitor.Rules
open Text Cxx Json JsonTree

/-! ## Meanings of values -/

/-- The text of a value that is no array and no object. -/
def scalar : Tree .value → Option JsonText
  | .null => some ⟨[], false⟩
  | .bool b => some ⟨if b then ascii "true" else ascii "false", false⟩
  | .number p => some ⟨p.text, false⟩
  | .string body => some ⟨spelled body, true⟩
  | _ => none

def stringOf : Tree .value → Option Bytes
  | .string body => some (spelled body)
  | _ => none

def boolOf : Tree .value → Option Bool
  | .bool b => some b
  | _ => none

def numberOf (v : Tree .value) : Option UInt32 :=
  (scalar v).bind fun value => (stoul value.text).toOption.map UInt64.toUInt32

/-- The members of an object act on `init` one after the other. -/
def objectOf {σ : Type} (eval : Bytes → Tree .value → σ → Option σ) (init : σ)
    (v : Tree .value) : Option σ :=
  v.members?.bind fun es =>
    es.foldlM (fun st e => eval (lower (spelled e.name.key)) e.value st) init

def listOf {α : Type} (f : Tree .value → Option α) (v : Tree .value) : Option (List α) :=
  v.elements?.bind fun vs => vs.mapM f

def evalCondition (key : Bytes) (v : Tree .value) (condition : RuleCondition) :
    Option RuleCondition :=
  if key = ascii "inputtype" then
    (scalar v).map fun value => { condition with inputType := parseConditionInputType value.text }
  else if key = ascii "inputaddress" then
    (numberOf v).map fun n => { condition with inputAddress := n }
  else if key = ascii "operator" then
    (scalar v).map fun value => { condition with op := parseConditionOperator value.text }
  else if key = ascii "valuetype" then
    (scalar v).map fun value =>
      { condition with valueInputType := parseConditionInputType value.text }
  else if key = ascii "valueaddress" then
    (numberOf v).map fun n => { condition with valueInputAddress := n }
  else if key = ascii "value" then
    (scalar v).bind fun value => (conditionValue condition value).toOption
  else some condition

def evalCommand (key : Bytes) (v : Tree .value) (command : RuleCommand) : Option RuleCommand :=
  if key = ascii "type" then
    (scalar v).map fun value => { command with type := parseCommandType value.text }
  else if key = ascii "data" then
    (scalar v).map fun value => { command with data := value.text }
  else if key = ascii "address" then
    (numberOf v).map fun n => { command with address := n }
  else some command

def evalRule (key : Bytes) (v : Tree .value) (rule : Rule) : Option Rule :=
  if key = ascii "id" then (numberOf v).map fun n => { rule with id := n }
  else if key = ascii "enabled" then (boolOf v).map fun value => { rule with enabled := value }
  else if key = ascii "name" then (stringOf v).map fun value => { rule with name := value }
  else if key = ascii "conditions" then
    (listOf (objectOf evalCondition {}) v).map fun conditions =>
      { rule with conditions := conditions }
  else if key = ascii "commands" then
    (listOf (objectOf evalCommand {}) v).map fun commands => { rule with commands := commands }
  else some rule

def Level.eval : (l : Level) → Bytes → Tree .value → l.State → Option l.State
  | .rule => evalRule
  | .condition => evalCondition
  | .command => evalCommand

/-! ## Readings -/

/-- A reading gives the value and ends at `d`, or it fails where there is no value. -/
inductive Reads {α : Type} : Except Failure (α × Cursor) → Option α → Cursor → Prop
  | read (a : α) (d : Cursor) : Reads (.ok (a, d)) (some a) d
  | fails (e : Failure) (d : Cursor) : Reads (.error e) none d

namespace Reads

variable {α β : Type} {x : Except Failure (α × Cursor)} {r : Option α} {d e : Cursor}

/-- What follows is read only behind a value. -/
theorem bind_of (h : Reads x r d) {f : α × Cursor → Except Failure (β × Cursor)}
    {g : α → Option β} (hf : ∀ a, r = some a → Reads (f (a, d)) (g a) e) :
    Reads (x >>= f) (r.bind g) e := by
  cases h with
  | read a d => exact hf a rfl
  | fails error d => exact .fails error e

theorem bind (h : Reads x r d) {f : α × Cursor → Except Failure (β × Cursor)}
    {g : α → Option β} (hf : ∀ a, Reads (f (a, d)) (g a) e) : Reads (x >>= f) (r.bind g) e :=
  h.bind_of fun a _ => hf a

theorem map (h : Reads x r d) (f : α → β) :
    Reads (do let (a, c) ← x; return (f a, c)) (r.map f) d := by
  cases h with
  | read a d => exact .read (f a) d
  | fails error d => exact .fails error d

theorem congr {y : Except Failure (α × Cursor)} (h : Reads x r d) (hxy : x = y) : Reads y r d :=
  hxy ▸ h

theorem ite {p : Prop} [Decidable p] {y : Except Failure (α × Cursor)} {r' : Option α}
    (h : p → Reads x r d) (h' : ¬p → Reads y r' d) :
    Reads (if p then x else y) (if p then r else r') d := by
  by_cases hp : p
  · simpa [hp] using h hp
  · simpa [hp] using h' hp

end Reads

/-! ## Tokens -/

/-- The first byte of a value shows its kind. -/
def StartsWith : Tree .value → Byte → Prop
  | .null, b => b = 'n'
  | .bool value, b => b = if value then ('t' : Byte) else ('f' : Byte)
  | .number _, b => isNumberStart b = true
  | .string _, b => b = '"'
  | .emptyArray _, b => b = '['
  | .array _, b => b = '['
  | .emptyObject _, b => b = '{'
  | .object _, b => b = '{'

theorem isSpace_of_isNumberStart {b : Byte} (h : isNumberStart b = true) : isSpace b = false := by
  simp only [isNumberStart, Bool.or_eq_true, beq_iff_eq] at h
  rcases h with (rfl | rfl) | h
  · decide
  · decide
  · exact isSpace_of_isDigit h

theorem isNumberStart_number {p : NumeralParts} (hp : p.whole ≠ []) :
    ∃ b w, p.text = b :: w ∧ isNumberStart b = true := by
  rcases p.sign_eq with hsign | ⟨b, hb, hsign⟩
  · obtain ⟨b, w, hw⟩ := List.exists_cons_of_ne_nil hp
    have hdigit := p.whole_digits b (by simp [hw])
    exact ⟨b, w ++ p.fraction ++ p.exponent, by simp [NumeralParts.text, NumeralParts.magnitude,
      hsign, hw], by simp [isNumberStart, hdigit]⟩
  · refine ⟨b, p.magnitude, by simp [NumeralParts.text, hsign], ?_⟩
    simpa [isNumberStart, isSign, or_assoc] using Or.inl hb

theorem number_head {p : NumeralParts} (hp : p.whole ≠ []) :
    ∃ b w, p.text = b :: w ∧ isSpace b = false ∧
      ∀ {x : Byte}, isNumberStart x = false → b ≠ x := by
  obtain ⟨b, w, htext, hstart⟩ := isNumberStart_number hp
  have hne : ∀ {x : Byte}, isNumberStart x = false → b ≠ x := by
    rintro x hx rfl
    rw [hstart] at hx
    cases hx
  exact ⟨b, w, htext, isSpace_of_isNumberStart hstart, hne⟩

theorem text_head {v : Tree .value} (h : v.WellFormed) :
    ∃ b w, v.text = b :: w ∧ StartsWith v b := by
  cases v with
  | null => exact ⟨_, _, rfl, rfl⟩
  | bool b => cases b <;> exact ⟨_, _, rfl, rfl⟩
  | number p => exact isNumberStart_number h
  | string | emptyArray | array | emptyObject | object => exact ⟨_, _, rfl, rfl⟩

theorem StartsWith.isSpace {v : Tree .value} {b : Byte} (h : StartsWith v b) :
    isSpace b = false := by
  cases v with
  | number p => exact isSpace_of_isNumberStart h
  | bool value => cases value <;> cases h <;> decide
  | null | string | emptyArray | array | emptyObject | object => cases h; decide

section

variable {v : Tree .value} {gap s : Bytes}

/-- A reader that skips white space first may start behind it. -/
theorem skipWhitespace_value (hv : v.WellFormed) (hgap : Blank gap) :
    skipWhitespace (.inside (gap ++ (v.text ++ s))) = .inside (v.text ++ s) := by
  obtain ⟨b, w, htext, hstart⟩ := text_head hv
  rw [htext, List.cons_append]
  exact skipWhitespace_gap _ hgap hstart.isSpace

theorem parseJsonValueAsString_reads (hv : v.WellFormed) (hgap : Blank gap) (hs : Bound s) :
    Reads (parseJsonValueAsString (.inside (gap ++ (v.text ++ s)))) (scalar v) (.inside s) := by
  have hspace : ∀ c, parseJsonValueAsString (skipWhitespace c) = parseJsonValueAsString c :=
    fun c => by simp only [parseJsonValueAsString, skipWhitespace_skipWhitespace]
  rw [← hspace, skipWhitespace_value hv hgap]
  cases v with
  | null => exact .read _ _
  | bool b => cases b <;> exact .read _ _
  | number p =>
    rw [Tree.text, parseJsonValueAsString_numeral p (fun _ => hv) hs.numeral]
    exact .read _ _
  | string body =>
    have hread := parseJsonString_quoted_body hv s
    simp only [Tree.text, quoted, List.append_assoc, List.cons_append] at hread ⊢
    simp only [parseJsonValueAsString, skipWhitespace_cons _ (show isSpace '"' = false by decide),
      Cursor.rest_inside, ↓reduceIte, hread]
    exact .read _ _
  | emptyArray | array | emptyObject | object => exact .fails _ _

theorem parseJsonString_reads (hv : v.WellFormed) (hgap : Blank gap) :
    Reads (orReject (parseJsonString (.inside (gap ++ (v.text ++ s))))) (stringOf v)
      (.inside s) := by
  rw [← parseJsonString_skipWhitespace, skipWhitespace_value hv hgap]
  cases v with
  | string body =>
    rw [Tree.text, parseJsonString_quoted_body hv]
    exact .read _ _
  | null | emptyArray | array | emptyObject | object => exact .fails _ _
  | bool b => cases b <;> exact .fails _ _
  | number p =>
    obtain ⟨b, w, htext, hspace, hne⟩ := number_head hv
    rw [Tree.text, htext, List.cons_append, parseJsonString_other _ hspace (hne (by decide))]
    exact .fails _ _

theorem parseJsonBool_reads (hv : v.WellFormed) (hgap : Blank gap) :
    Reads (do orReject (← parseJsonBool (.inside (gap ++ (v.text ++ s))))) (boolOf v)
      (.inside s) := by
  have hspace : ∀ c, parseJsonBool (skipWhitespace c) = parseJsonBool c :=
    fun c => by simp only [parseJsonBool, skipWhitespace_skipWhitespace]
  rw [← hspace, skipWhitespace_value hv hgap]
  cases v with
  | bool b => cases b <;> exact .read _ _
  | null | string | emptyArray | array | emptyObject | object => exact .fails _ _
  | number p =>
    obtain ⟨b, w, htext, hspace, hne⟩ := number_head hv
    have hword : ∀ {x : Byte} {word : Bytes}, isNumberStart x = false →
        (x :: word).isPrefixOf (b :: (w ++ s)) = false := by
      intro x word hx
      simp [List.isPrefixOf, (hne hx).symm]
    have htrue : (ascii "true").isPrefixOf (b :: (w ++ s)) = false :=
      hword (x := 't') (by decide)
    have hfalse : (ascii "false").isPrefixOf (b :: (w ++ s)) = false :=
      hword (x := 'f') (by decide)
    rw [Tree.text, htext, List.cons_append, parseJsonBool_cons _ hspace, htrue, hfalse]
    exact .fails _ _

theorem parseUInt32_reads (hv : v.WellFormed) (hgap : Blank gap) (hs : Bound s) :
    Reads (parseUInt32 (.inside (gap ++ (v.text ++ s)))) (numberOf v) (.inside s) := by
  refine (parseJsonValueAsString_reads hv hgap hs).bind fun value => ?_
  cases hn : stoul value.text with
  | ok n =>
    simp only [hn, raise_ok, ok_bind]
    exact .read _ _
  | error e =>
    simp only [hn, raise_error]
    exact .fails _ _

/-- A bracket or brace is found exactly where such a value stands. -/
theorem expect_fails (hv : v.WellFormed) (hgap : Blank gap) {expected : Byte}
    (h : ∀ b, StartsWith v b → b ≠ expected) :
    expect expected (.inside (gap ++ (v.text ++ s))) = .error .rejected := by
  obtain ⟨b, w, htext, hstart⟩ := text_head hv
  rw [← expect_skipWhitespace, skipWhitespace_value hv hgap, htext, List.cons_append,
    expect_cons expected _ hstart.isSpace, if_neg (h b hstart)]

theorem expect_gap (hgap : Blank gap) {b : Byte} (hb : isSpace b = false) :
    expect b (.inside (gap ++ b :: s)) = .ok ((), .inside s) := by
  rw [← expect_skipWhitespace, skipWhitespace_gap s hgap hb, expect_cons b s hb, if_pos rfl]

end

/-- A number begins with no bracket and no brace. -/
theorem StartsWith.ne_of_scalar {v : Tree .value} {b x : Byte} (h : StartsWith v b)
    (hv : (scalar v).isSome = true) (hx : x = '[' ∨ x = '{' ∨ x = ']') : b ≠ x := by
  cases v with
  | number p =>
    rintro rfl
    rcases hx with rfl | rfl | rfl <;> cases h
  | bool value => cases value <;> cases h <;> rcases hx with rfl | rfl | rfl <;> decide
  | null | string => cases h; rcases hx with rfl | rfl | rfl <;> decide
  | emptyArray | array | emptyObject | object => cases hv

theorem StartsWith.ne_bracket {v : Tree .value} {b : Byte} (h : StartsWith v b) : b ≠ ']' := by
  cases v with
  | emptyArray | array | emptyObject | object => cases h; decide
  | null | bool | number | string => exact h.ne_of_scalar rfl (Or.inr (Or.inr rfl))

/-! ## Objects -/

def Entry.key (e : Entry) : Bytes := lower (spelled e.name.key)

/-- The members before `e` can be read, so that the reader comes to `e`. -/
def ReachedMember {σ : Type} (eval : Bytes → Tree .value → σ → Option σ) (init : σ)
    (es : List Entry) (e : Entry) : Prop :=
  ∃ before after, es = before ++ e :: after ∧
    (before.foldlM (fun st e => eval (Entry.key e) e.value st) init).isSome = true

theorem skipComma_gap_comma {gap : Bytes} (s : Bytes) (h : Blank gap) :
    skipComma (.inside (gap ++ (',' : Byte) :: s)) = .inside s := by
  rw [skipComma_blank _ h, skipComma_comma]

section

variable {σ : Type} {member : Bytes → σ → Cursor → Except Failure (σ × Cursor)}
  {eval : Bytes → Tree .value → σ → Option σ}

/-- `member` reads the value of an entry as `eval` says, in a text of at most `limit` bytes. -/
def ReadsEntry (member : Bytes → σ → Cursor → Except Failure (σ × Cursor))
    (eval : Bytes → Tree .value → σ → Option σ) (limit : Nat) (e : Entry) : Prop :=
  ∀ st s, Bound s → (e.name.afterColon ++ (e.value.text ++ s)).length ≤ limit →
    Reads (member (Entry.key e) st (.inside (e.name.afterColon ++ (e.value.text ++ s))))
      (eval (Entry.key e) e.value st) (.inside s)

theorem ReachedMember.head (init : σ) (e : Entry) (es : List Entry) :
    ReachedMember eval init (e :: es) e :=
  ⟨[], es, rfl, rfl⟩

theorem ReachedMember.tail {init st : σ} {e f : Entry} {es : List Entry}
    (hst : eval (Entry.key e) e.value init = some st) (h : ReachedMember eval st es f) :
    ReachedMember eval init (e :: es) f := by
  obtain ⟨before, after, rfl, hbefore⟩ := h
  refine ⟨e :: before, after, rfl, ?_⟩
  rw [List.foldlM_cons, hst]
  exact hbefore

theorem ReachedMember.mem {init : σ} {es : List Entry} {e : Entry}
    (h : ReachedMember eval init es e) : e ∈ es := by
  obtain ⟨before, after, rfl, _⟩ := h
  simp

/-- One entry, and what is read behind it. -/
theorem readItems_entry {e : Entry} (he : e.WellFormed) {limit : Nat}
    (hread : ReadsEntry member eval limit e) {fuel : Nat} {st : σ} {s : Bytes} {d : Cursor}
    {next : σ → Option σ} (hs : Bound (e.after ++ s)) (hlen : (e.text ++ s).length ≤ limit)
    (hnext : ∀ st', eval (Entry.key e) e.value st = some st' →
      Reads (readItems '}' (memberItem member) fuel st' (skipComma (.inside (e.after ++ s))))
        (next st') d) :
    Reads (readItems '}' (memberItem member) (fuel + 1) st (.inside (e.text ++ s)))
      ((eval (Entry.key e) e.value st).bind next) d := by
  have hhead : (skipWhitespace (.inside (e.text ++ s))).rest.head? = some ('"' : Byte) := by
    rw [Entry.text, List.append_assoc]
    exact head_name he.name _
  have hrest : (skipWhitespace (.inside (e.text ++ s))).rest ≠ [] := by
    intro hnil
    simp [hnil] at hhead
  have hclose : some ('"' : Byte) ≠ some ('}' : Byte) := by decide
  rw [readItems, if_neg hrest, hhead, if_neg hclose, Entry.text, List.append_assoc,
    List.append_assoc, memberItem, readKey_name he.name]
  refine Reads.bind_of ?_ hnext
  refine hread st (e.after ++ s) hs (le_trans ?_ hlen)
  simp only [Entry.text, Name.text, List.length_append, List.length_cons]
  omega

/-- The entries of an object act one after the other. -/
theorem readItems_entries {es : List Entry} (hes : ∀ e ∈ es, e.WellFormed) {limit : Nat}
    {st : σ} (hread : ∀ e, ReachedMember eval st es e → ReadsEntry member eval limit e)
    {fuel : Nat} (hfuel : es.length < fuel) (s : Bytes)
    (hlen : (membersText es ++ ('}' : Byte) :: s).length ≤ limit) :
    Reads (readItems '}' (memberItem member) fuel st
        (.inside (membersText es ++ ('}' : Byte) :: s)))
      (es.foldlM (fun st e => eval (Entry.key e) e.value st) st) (.inside s) := by
  induction es generalizing fuel st with
  | nil =>
    obtain ⟨fuel, rfl⟩ : ∃ n, fuel = n + 1 := ⟨fuel - 1, by simp at hfuel; omega⟩
    rw [membersText, List.nil_append, readItems_cons fuel st s (by decide), if_pos rfl]
    exact .read _ _
  | cons e es ih =>
    obtain ⟨fuel, rfl⟩ : ∃ n, fuel = n + 1 := ⟨fuel - 1, by simp at hfuel; omega⟩
    have he := hes e (by simp)
    have hfirst := hread e (.head st e es)
    have ih := fun st' hst hlen => @ih (fun f hf => hes f (List.mem_cons_of_mem e hf)) st'
      (fun f hf => hread f (hf.tail hst)) fuel (Nat.lt_of_succ_lt_succ hfuel) hlen
    rw [List.foldlM_cons]
    cases es with
    | nil =>
      rw [membersText] at hlen ⊢
      refine readItems_entry he hfirst (bound_blank he.after (bound_cons s (by decide))) hlen
        fun st hst => ?_
      rw [skipComma_gap s he.after (by decide) (by decide)]
      refine ih st hst (le_trans ?_ hlen)
      simp [membersText]
    | cons f es =>
      rw [membersText, List.append_assoc, List.cons_append] at hlen ⊢
      refine readItems_entry he hfirst (bound_blank he.after (bound_cons _ (by decide))) hlen
        fun st hst => ?_
      rw [skipComma_gap_comma _ he.after]
      refine ih st hst (le_trans ?_ hlen)
      simp only [List.length_append, List.length_cons]
      omega

theorem length_le_membersText (es : List Entry) : es.length ≤ (membersText es).length := by
  induction es with
  | nil => exact le_refl _
  | cons e es ih =>
    have hpos : 0 < e.text.length := by
      simp only [Entry.text, Name.text, quoted, List.length_append, List.length_cons]
      omega
    cases es with
    | nil =>
      rw [membersText]
      exact hpos
    | cons f es =>
      have hlen : (membersText (e :: f :: es)).length =
          e.text.length + ((membersText (f :: es)).length + 1) := by
        simp [membersText]
      rw [hlen, List.length_cons]
      omega

/-- The entries of a value that is an object. -/
def entriesOf (v : Tree .value) : List Entry := v.members?.getD []

theorem wellFormed_entriesOf {v : Tree .value} (h : v.WellFormed) :
    ∀ e ∈ entriesOf v, e.WellFormed := by
  cases v with
  | object members => exact Tree.wellFormed_entries (t := members) h
  | null | bool | number | string | emptyArray | array | emptyObject =>
    simp [entriesOf, Tree.members?]

theorem parseObject_reads {v : Tree .value} (hv : v.WellFormed) {gap s : Bytes} (hgap : Blank gap)
    {limit bound : Nat} {init : σ}
    (hread : ∀ e, ReachedMember eval init (entriesOf v) e → ReadsEntry member eval limit e)
    (hlen : (gap ++ (v.text ++ s)).length ≤ limit) (hbound : limit < bound) :
    Reads (parseObject member bound init (.inside (gap ++ (v.text ++ s))))
      (objectOf eval init v) (.inside s) := by
  have hother : (∀ b, StartsWith v b → b ≠ '{') → v.members? = none →
      Reads (parseObject member bound init (.inside (gap ++ (v.text ++ s))))
        (objectOf eval init v) (.inside s) := by
    intro hstart hnone
    rw [parseObject_eq, expect_fails hv hgap hstart, objectOf, hnone]
    exact .fails _ _
  cases v with
  | emptyObject inner =>
    obtain ⟨bound, rfl⟩ : ∃ n, bound = n + 1 := ⟨bound - 1, by omega⟩
    have hspace : isSpace '}' = false := by decide
    simp only [Tree.text, List.append_assoc, List.cons_append]
    rw [parseObject_eq, expect_gap hgap (by decide), ok_bind, ← readItems_skipWhitespace]
    change Reads (readItems _ _ _ _ (skipWhitespace (.inside (inner ++ ('}' : Byte) :: s)))) _ _
    rw [skipWhitespace_gap s hv hspace, readItems_cons bound init s hspace, if_pos rfl]
    exact .read _ _
  | object members =>
    have htext := Tree.text_members members rfl
    simp only [Tree.text, List.append_assoc, List.cons_append, htext, List.length_append,
      List.length_cons] at hlen ⊢
    rw [parseObject_eq, expect_gap hgap (by decide), ok_bind]
    have hcount := length_le_membersText members.entries
    refine readItems_entries (Tree.wellFormed_entries (t := members) hv) hread (by omega) s ?_
    simp only [List.length_append, List.length_cons]
    omega
  | null | bool | number | string =>
    exact hother (fun b hb => hb.ne_of_scalar rfl (Or.inr (Or.inl rfl))) rfl
  | emptyArray | array =>
    refine hother (fun b hb => ?_) rfl
    cases hb
    decide

end

/-! ## Lists -/

section

variable {α : Type} {element : Cursor → Except Failure (α × Cursor)} {f : Tree .value → Option α}

/-- The elements before `w` can be read, so that the reader comes to `w`. -/
def ReachedElement (f : Tree .value → Option α) (vs : List (Tree .value)) (w : Tree .value) :
    Prop :=
  ∃ before after, vs = before ++ w :: after ∧ ∀ u ∈ before, (f u).isSome = true

theorem ReachedElement.head (v : Tree .value) (vs : List (Tree .value)) :
    ReachedElement f (v :: vs) v :=
  ⟨[], vs, rfl, by simp⟩

theorem ReachedElement.tail {v w : Tree .value} {vs : List (Tree .value)} {a : α}
    (ha : f v = some a) (h : ReachedElement f vs w) : ReachedElement f (v :: vs) w := by
  obtain ⟨before, after, rfl, hbefore⟩ := h
  refine ⟨v :: before, after, rfl, fun u hu => ?_⟩
  rcases List.mem_cons.mp hu with rfl | hu
  · rw [ha]
    rfl
  · exact hbefore u hu

theorem ReachedElement.mem {vs : List (Tree .value)} {w : Tree .value}
    (h : ReachedElement f vs w) : w ∈ vs := by
  obtain ⟨before, after, rfl, _⟩ := h
  simp

/-- `element` reads a value as `f` says, in a text of at most `limit` bytes. -/
def ReadsElement (element : Cursor → Except Failure (α × Cursor)) (f : Tree .value → Option α)
    (limit : Nat) (v : Tree .value) : Prop :=
  ∀ s, Bound s → (v.text ++ s).length ≤ limit →
    Reads (element (.inside (v.text ++ s))) (f v) (.inside s)

theorem readItems_element {v : Tree .value} {before after : Bytes} (hv : v.WellFormed)
    (hbefore : Blank before) {limit : Nat} (hread : ReadsElement element f limit v) {fuel : Nat}
    {out : List α} {s : Bytes} {d : Cursor} {next : α → Option (List α)}
    (hs : Bound (after ++ s)) (hlen : (v.text ++ (after ++ s)).length ≤ limit)
    (hnext : ∀ x, f v = some x → Reads (readItems ']' (elementItem element pushBack) fuel
      (out ++ [x]) (skipComma (.inside (after ++ s)))) (next x) d) :
    Reads (readItems ']' (elementItem element pushBack) (fuel + 1) out
        (.inside (before ++ (v.text ++ (after ++ s)))))
      ((f v).bind next) d := by
  obtain ⟨b, w, htext, hstart⟩ := text_head hv
  have helement := hread (after ++ s) hs hlen
  rw [← readItems_skipWhitespace, skipWhitespace_value hv hbefore]
  rw [htext, List.cons_append] at helement ⊢
  rw [readItems_cons fuel out _ hstart.isSpace, if_neg hstart.ne_bracket, elementItem]
  generalize element (.inside (b :: (w ++ (after ++ s)))) = x at helement ⊢
  generalize f v = r at helement hnext ⊢
  generalize hd : Cursor.inside (after ++ s) = c at helement
  cases helement with
  | read a c =>
    rw [← hd]
    exact hnext a rfl
  | fails e c => exact .fails _ _

theorem mapM_cons_append (v : Tree .value) (vs : List (Tree .value)) (out : List α) :
    ((v :: vs).mapM f).map (out ++ ·) =
      (f v).bind fun x => (vs.mapM f).map (out ++ [x] ++ ·) := by
  rw [List.mapM_cons]
  cases f v with
  | none => rfl
  | some x => cases hvs : vs.mapM f <;> simp

theorem elementsOf_reads {i : Part} {t : Tree i} (hi : i = .items) (ht : t.WellFormed) {limit : Nat}
    (hread : ∀ v, ReachedElement f t.elements v → ReadsElement element f limit v) {fuel : Nat}
    (hfuel : t.elements.length < fuel) (out : List α) (s : Bytes)
    (hlen : (t.text ++ (']' : Byte) :: s).length ≤ limit) :
    Reads (readItems ']' (elementItem element pushBack) fuel out
        (.inside (t.text ++ (']' : Byte) :: s)))
      ((t.elements.mapM f).map (out ++ ·)) (.inside s) := by
  obtain ⟨fuel, rfl⟩ : ∃ n, fuel = n + 1 := ⟨fuel - 1, by omega⟩
  induction t generalizing fuel out with
  | lastItem before value after =>
    obtain ⟨fuel, rfl⟩ : ∃ n, fuel = n + 1 := ⟨fuel - 1, by simp [Tree.elements] at hfuel; omega⟩
    simp only [Tree.text, Tree.elements, List.append_assoc] at hlen ⊢
    rw [mapM_cons_append]
    refine readItems_element ht.2.1 ht.1 (hread value (.head value []))
      (bound_blank ht.2.2 (bound_cons s (by decide))) (le_trans ?_ hlen) fun x _ => ?_
    · simp only [List.length_append]
      omega
    · rw [skipComma_gap s ht.2.2 (by decide) (by decide), readItems_cons _ _ s (by decide),
        if_pos rfl]
      simpa using Reads.read (out ++ [x]) (Cursor.inside s)
  | item before value after rest _ ih =>
    obtain ⟨fuel, rfl⟩ : ∃ n, fuel = n + 1 := ⟨fuel - 1, by simp [Tree.elements] at hfuel; omega⟩
    simp only [Tree.text, Tree.elements, List.append_assoc, List.cons_append] at hlen hread ⊢
    rw [mapM_cons_append]
    refine readItems_element ht.2.1 ht.1 (hread value (.head value rest.elements))
      (bound_blank ht.2.2.1 (bound_cons _ (by decide))) (le_trans ?_ hlen) fun x hx => ?_
    · simp only [List.length_append]
      omega
    · rw [skipComma_gap_comma _ ht.2.2.1]
      refine ih rfl ht.2.2.2 (fun v hv => hread v (hv.tail hx)) (out ++ [x]) ?_ fuel ?_
      · simp only [List.length_append, List.length_cons] at hlen ⊢
        omega
      · simpa [Tree.elements] using hfuel
  | null | bool | number | string | emptyArray | array | emptyObject | object | lastMember |
    member => cases hi

theorem length_elements_le {i : Part} {t : Tree i} (ht : t.WellFormed) :
    t.elements.length ≤ t.text.length := by
  have hpos : ∀ {v : Tree .value}, v.WellFormed → 0 < v.text.length := by
    intro v hv
    obtain ⟨b, w, htext, _⟩ := text_head hv
    simp [htext]
  induction t with
  | lastItem before value after =>
    have hvalue := hpos ht.2.1
    simp only [Tree.elements, Tree.text, List.length_append, List.length_cons, List.length_nil]
    omega
  | item before value after rest _ ih =>
    have hvalue := hpos ht.2.1
    have hrest := ih ht.2.2.2
    simp only [Tree.elements, Tree.text, List.length_append, List.length_cons]
    omega
  | null | bool | number | string | emptyArray | array | emptyObject | object | lastMember |
    member => simp [Tree.elements]

/-- The elements of a value that is an array. -/
def elementsOf (v : Tree .value) : List (Tree .value) := v.elements?.getD []

theorem wellFormed_elementsOf {v : Tree .value} (h : v.WellFormed) :
    ∀ w ∈ elementsOf v, w.WellFormed := by
  cases v with
  | array items => exact Tree.wellFormed_elements (t := items) h
  | null | bool | number | string | emptyArray | emptyObject | object =>
    simp [elementsOf, Tree.elements?]

theorem parseArray_reads {v : Tree .value} (hv : v.WellFormed) {gap s : Bytes} (hgap : Blank gap)
    {limit bound : Nat}
    (hread : ∀ w, ReachedElement f (elementsOf v) w → ReadsElement element f limit w)
    (hlen : (gap ++ (v.text ++ s)).length ≤ limit) (hbound : limit < bound) :
    Reads (parseArray element pushBack bound (.inside (gap ++ (v.text ++ s)))) (listOf f v)
      (.inside s) := by
  have hother : (∀ b, StartsWith v b → b ≠ '[') → v.elements? = none →
      Reads (parseArray element pushBack bound (.inside (gap ++ (v.text ++ s)))) (listOf f v)
        (.inside s) := by
    intro hstart hnone
    rw [parseArray_eq, expect_fails hv hgap hstart, listOf, hnone]
    exact .fails _ _
  cases v with
  | emptyArray inner =>
    obtain ⟨bound, rfl⟩ : ∃ n, bound = n + 1 := ⟨bound - 1, by omega⟩
    have hspace : isSpace ']' = false := by decide
    simp only [Tree.text, List.append_assoc, List.cons_append]
    rw [parseArray_eq, expect_gap hgap (by decide), ok_bind, ← readItems_skipWhitespace]
    change Reads (readItems _ _ _ _ (skipWhitespace (.inside (inner ++ (']' : Byte) :: s)))) _ _
    rw [skipWhitespace_gap s hv hspace, readItems_cons bound [] s hspace, if_pos rfl]
    exact .read _ _
  | array items =>
    have hcount := length_elements_le (t := items) hv
    simp only [Tree.text, List.append_assoc, List.cons_append, List.length_append,
      List.length_cons] at hlen ⊢
    rw [parseArray_eq, expect_gap hgap (by decide), ok_bind]
    have hitems := elementsOf_reads rfl (t := items) hv hread (show _ < bound by omega) [] s
      (by simp only [List.length_append, List.length_cons]; omega)
    simp only [List.nil_append, Option.map_id'] at hitems
    rw [listOf, Tree.elements?, Option.bind_some]
    exact hitems
  | null | bool | number | string =>
    exact hother (fun b hb => hb.ne_of_scalar rfl (Or.inl rfl)) rfl
  | emptyObject | object =>
    refine hother (fun b hb => ?_) rfl
    cases hb
    decide

end

/-! ## Members of rules -/

/-- The value, a list of objects, has a member `e` that its reader comes to. -/
def ReachedInside {σ : Type} (eval : Bytes → Tree .value → σ → Option σ) (init : σ)
    (v : Tree .value) (e : Entry) : Prop :=
  ∃ w, ReachedElement (objectOf eval init) (elementsOf v) w ∧
    ReachedMember eval init (entriesOf w) e

/-- Where the key is unknown, no array and no object in the value is empty. -/
def Level.Passable : Level → Bytes → Tree .value → Prop
  | .rule, key, v =>
    (key ∉ Level.rule.keys → v.filled = true) ∧
      (key = ascii "conditions" → ∀ e, ReachedInside evalCondition {} v e →
        Entry.key e ∉ Level.condition.keys → e.value.filled = true) ∧
      (key = ascii "commands" → ∀ e, ReachedInside evalCommand {} v e →
        Entry.key e ∉ Level.command.keys → e.value.filled = true)
  | l, key, v => key ∉ l.keys → v.filled = true

section

variable {v : Tree .value} {gap s : Bytes} {limit bound : Nat}

theorem skip_reads {σ : Type} (hv : v.WellFormed) (hfilled : v.filled = true) (hgap : Blank gap)
    (hs : Bound s) (hlen : (gap ++ (v.text ++ s)).length ≤ limit) (hbound : 2 * limit < bound)
    (st : σ) :
    Reads (passing (skipJsonValue bound) st (.inside (gap ++ (v.text ++ s)))) (some st)
      (.inside s) := by
  rw [passing, skipJsonValue_filled hv hfilled hgap hs (by omega)]
  exact .read st _

theorem conditionMember_reads (hv : v.WellFormed) (hgap : Blank gap) (hs : Bound s)
    (hlen : (gap ++ (v.text ++ s)).length ≤ limit) (hbound : 2 * limit < bound) {key : Bytes}
    (hpass : key ∉ Level.condition.keys → v.filled = true) (condition : RuleCondition) :
    Reads (conditionMember bound key condition (.inside (gap ++ (v.text ++ s))))
      (evalCondition key v condition) (.inside s) := by
  have hvalue := parseJsonValueAsString_reads hv hgap hs
  have hnumber := parseUInt32_reads hv hgap hs
  unfold conditionMember evalCondition
  refine .ite (fun _ => ?_) fun h₁ => .ite (fun _ => ?_) fun h₂ => .ite (fun _ => ?_) fun h₃ =>
    .ite (fun _ => ?_) fun h₄ => .ite (fun _ => ?_) fun h₅ => .ite (fun _ => ?_) fun h₆ => ?_
  · exact hvalue.map fun value =>
      { condition with inputType := parseConditionInputType value.text }
  · exact hnumber.map fun n => { condition with inputAddress := n }
  · exact hvalue.map fun value => { condition with op := parseConditionOperator value.text }
  · exact hvalue.map fun value =>
      { condition with valueInputType := parseConditionInputType value.text }
  · exact hnumber.map fun n => { condition with valueInputAddress := n }
  · refine hvalue.bind fun value => ?_
    cases hc : conditionValue condition value with
    | ok d =>
      simp only [hc, ok_bind]
      exact .read _ _
    | error e =>
      simp only [hc]
      exact .fails _ _
  · refine skip_reads hv (hpass ?_) hgap hs hlen hbound condition
    simp [Level.keys, h₁, h₂, h₃, h₄, h₅, h₆]

theorem commandMember_reads (hv : v.WellFormed) (hgap : Blank gap) (hs : Bound s)
    (hlen : (gap ++ (v.text ++ s)).length ≤ limit) (hbound : 2 * limit < bound) {key : Bytes}
    (hpass : key ∉ Level.command.keys → v.filled = true) (command : RuleCommand) :
    Reads (commandMember bound key command (.inside (gap ++ (v.text ++ s))))
      (evalCommand key v command) (.inside s) := by
  have hvalue := parseJsonValueAsString_reads hv hgap hs
  unfold commandMember evalCommand
  refine .ite (fun _ => ?_) fun h₁ => .ite (fun _ => ?_) fun h₂ => .ite (fun _ => ?_) fun h₃ => ?_
  · exact hvalue.map fun value => { command with type := parseCommandType value.text }
  · exact hvalue.map fun value => { command with data := value.text }
  · exact (parseUInt32_reads hv hgap hs).map fun n => { command with address := n }
  · refine skip_reads hv (hpass ?_) hgap hs hlen hbound command
    simp [Level.keys, h₁, h₂, h₃]

/-- In a list of objects, each is read as its members say. -/
theorem objects_read {σ : Type} {member : Bytes → σ → Cursor → Except Failure (σ × Cursor)}
    {eval : Bytes → Tree .value → σ → Option σ} {init : σ} (hv : v.WellFormed)
    (hgap : Blank gap) (hlen : (gap ++ (v.text ++ s)).length ≤ limit) (hbound : limit < bound)
    (hread : ∀ e, e.WellFormed → ReachedInside eval init v e →
      ReadsEntry member eval limit e) :
    Reads (parseArray (parseObject member bound init) pushBack bound
        (.inside (gap ++ (v.text ++ s)))) (listOf (objectOf eval init) v) (.inside s) := by
  refine parseArray_reads hv hgap (fun w hw s hs hlen => ?_) hlen hbound
  have hwell := wellFormed_elementsOf hv w hw.mem
  exact @parseObject_reads σ member eval w hwell [] s blank_nil limit bound init
    (fun e he => hread e (wellFormed_entriesOf hwell e he.mem) ⟨w, hw, he⟩) hlen hbound

theorem ruleMember_reads (hv : v.WellFormed) (hgap : Blank gap) (hs : Bound s)
    (hlen : (gap ++ (v.text ++ s)).length ≤ limit) (hbound : 2 * limit < bound) {key : Bytes}
    (hpass : Level.rule.Passable key v) (rule : Rule) :
    Reads (ruleMember bound key rule (.inside (gap ++ (v.text ++ s)))) (evalRule key v rule)
      (.inside s) := by
  obtain ⟨hunknown, hconditions, hcommands⟩ := hpass
  unfold ruleMember evalRule
  refine .ite (fun _ => ?_) fun h₁ => .ite (fun _ => ?_) fun h₂ => .ite (fun _ => ?_) fun h₃ =>
    .ite (fun hkey => ?_) fun h₄ => .ite (fun hkey => ?_) fun h₅ => ?_
  · exact (parseUInt32_reads hv hgap hs).map fun n => { rule with id := n }
  · have hread := (parseJsonBool_reads (s := s) hv hgap).map fun value =>
      { rule with enabled := value }
    refine hread.congr ?_
    cases parseJsonBool (.inside (gap ++ (v.text ++ s))) <;> rfl
  · exact (parseJsonString_reads hv hgap).map fun value => { rule with name := value }
  · have hlist : Reads (parseArray (parseRuleCondition bound) pushBack bound
        (.inside (gap ++ (v.text ++ s)))) (listOf (objectOf evalCondition {}) v) (.inside s) := by
      refine objects_read hv hgap hlen (by omega) fun e hentry he st s hs hlen => ?_
      exact conditionMember_reads hentry.value hentry.name.afterColon hs hlen hbound
        (hconditions hkey e he) st
    exact hlist.map fun conditions => { rule with conditions := conditions }
  · have hlist : Reads (parseArray (parseRuleCommand bound) pushBack bound
        (.inside (gap ++ (v.text ++ s)))) (listOf (objectOf evalCommand {}) v) (.inside s) := by
      refine objects_read hv hgap hlen (by omega) fun e hentry he st s hs hlen => ?_
      exact commandMember_reads hentry.value hentry.name.afterColon hs hlen hbound
        (hcommands hkey e he) st
    exact hlist.map fun commands => { rule with commands := commands }
  · refine skip_reads hv (hunknown ?_) hgap hs hlen hbound rule
    simp [Level.keys, h₁, h₂, h₃, h₄, h₅]

theorem member_reads (l : Level) (hv : v.WellFormed) (hgap : Blank gap) (hs : Bound s)
    (hlen : (gap ++ (v.text ++ s)).length ≤ limit) (hbound : 2 * limit < bound) {key : Bytes}
    (hpass : l.Passable key v) (st : l.State) :
    Reads (l.member bound key st (.inside (gap ++ (v.text ++ s)))) (l.eval key v st)
      (.inside s) := by
  cases l with
  | rule => exact ruleMember_reads hv hgap hs hlen hbound hpass st
  | condition => exact conditionMember_reads hv hgap hs hlen hbound hpass st
  | command => exact commandMember_reads hv hgap hs hlen hbound hpass st

end

/-- The members of an object act on it one after the other. -/
theorem readObject_reads (l : Level) {es : List Entry} (hes : ∀ e ∈ es, e.WellFormed)
    (hpass : ∀ e, ReachedMember l.eval l.initial es e → l.Passable (Entry.key e) e.value)
    {bound : Nat} (s : Bytes)
    (hbound : 2 * (objectText es ++ s).length < bound) :
    Reads (parseObject (l.member bound) bound l.initial (.inside (objectText es ++ s)))
      (es.foldlM (fun st e => l.eval (Entry.key e) e.value st) l.initial) (.inside s) := by
  have hcount := length_le_membersText es
  rw [show objectText es ++ s = ('{' : Byte) :: (membersText es ++ ('}' : Byte) :: s) from by
    simp only [objectText, List.cons_append, List.append_assoc]; rfl] at hbound ⊢
  simp only [List.length_append, List.length_cons] at hbound
  have hread : ∀ e, ReachedMember l.eval l.initial es e →
      ReadsEntry (l.member bound) l.eval (membersText es ++ ('}' : Byte) :: s).length e := by
    intro e he st s' hs hlen
    have hentry := hes e he.mem
    refine member_reads l hentry.value hentry.name.afterColon hs hlen ?_ (hpass e he) st
    simp only [List.length_append, List.length_cons]
    omega
  rw [parseObject_eq, expect_cons '{' _ (by decide), if_pos rfl, ok_bind]
  exact readItems_entries hes hread (by omega) s (le_refl _)

end InverterMonitor.Rules
