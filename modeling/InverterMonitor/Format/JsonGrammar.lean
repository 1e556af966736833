import InverterMonitor.Text.Bytes

/-!
# The grammar of JSON

RFC 8259 over bytes.  A byte from `0x80` on is taken for a part of a character, since
readers decode before they parse and replace what is not UTF-8.

* `ClosedBy.object`, `array_intercalate`: objects and arrays from their members and
  elements;
* `IsJson.plain`: no control byte but white space stands in a JSON text.
-/

namespace JsonGrammar
open Text

/-! ## Tokens -/

def IsWs (s : Bytes) : Prop := ∀ b ∈ s, b = ' ' ∨ b = '\t' ∨ b = '\n' ∨ b = '\r'

inductive IsInt : Bytes → Prop
  | zero : IsInt [('0' : Byte)]
  | digits {d : Byte} {ds : Bytes} (hd : isDigit d = true) (hzero : d ≠ '0')
      (hds : ∀ b ∈ ds, isDigit b = true) : IsInt (d :: ds)

inductive IsFrac : Bytes → Prop
  | none : IsFrac []
  | digits {ds : Bytes} (hds : ∀ b ∈ ds, isDigit b = true) (hne : ds ≠ []) :
      IsFrac (('.' : Byte) :: ds)

inductive IsExp : Bytes → Prop
  | none : IsExp []
  | digits {e : Byte} {sign ds : Bytes} (he : e = 'e' ∨ e = 'E')
      (hsign : sign = [] ∨ sign = [('-' : Byte)] ∨ sign = [('+' : Byte)])
      (hds : ∀ b ∈ ds, isDigit b = true) (hne : ds ≠ []) : IsExp (e :: (sign ++ ds))

inductive IsNumber : Bytes → Prop
  | intro {minus int frac exp : Bytes} (hminus : minus = [] ∨ minus = [('-' : Byte)])
      (hint : IsInt int) (hfrac : IsFrac frac) (hexp : IsExp exp) :
      IsNumber (minus ++ (int ++ (frac ++ exp)))

def isHexDigit (b : Byte) : Bool :=
  isDigit b || (65 ≤ b && b ≤ 70) || (97 ≤ b && b ≤ 102)

/-- What stands between the quotes of a string. -/
inductive IsChars : Bytes → Prop
  | nil : IsChars []
  | unescaped {b : Byte} {s : Bytes} (hcontrol : 32 ≤ b) (hquote : b ≠ '"') (hslash : b ≠ '\\')
      (hs : IsChars s) : IsChars (b :: s)
  | short {b : Byte} {s : Bytes} (hb : b ∈ ascii "\"\\/bfnrt") (hs : IsChars s) :
      IsChars (('\\' : Byte) :: b :: s)
  | code {digits s : Bytes} (hlength : digits.length = 4)
      (hdigits : ∀ b ∈ digits, isHexDigit b = true) (hs : IsChars s) :
      IsChars (('\\' : Byte) :: ('u' : Byte) :: (digits ++ s))

theorem IsChars.append {s t : Bytes} (hs : IsChars s) (ht : IsChars t) : IsChars (s ++ t) := by
  induction hs with
  | nil => exact ht
  | unescaped hcontrol hquote hslash _ ih => exact .unescaped hcontrol hquote hslash ih
  | short hb _ ih => exact .short hb ih
  | code hlength hdigits _ ih =>
    rw [List.cons_append, List.cons_append, List.append_assoc]
    exact .code hlength hdigits ih

inductive IsString : Bytes → Prop
  | intro {chars : Bytes} (hchars : IsChars chars) :
      IsString (('"' : Byte) :: (chars ++ [('"' : Byte)]))

/-! ## Values -/

/-- A value, the inside of an array or the inside of an object. -/
inductive Shape
  | value | items | members

inductive Derives : Shape → Bytes → Prop
  | literal {s : Bytes} (hs : s = ascii "null" ∨ s = ascii "true" ∨ s = ascii "false") :
      Derives .value s
  | number {s : Bytes} (hs : IsNumber s) : Derives .value s
  | string {s : Bytes} (hs : IsString s) : Derives .value s
  | emptyArray {gap : Bytes} (hgap : IsWs gap) : Derives .value (('[' : Byte) :: (gap ++ ascii "]"))
  | array {s : Bytes} (hs : Derives .items s) : Derives .value (('[' : Byte) :: (s ++ ascii "]"))
  | emptyObject {gap : Bytes} (hgap : IsWs gap) :
      Derives .value (('{' : Byte) :: (gap ++ ascii "\x7d"))
  | object {s : Bytes} (hs : Derives .members s) :
      Derives .value (('{' : Byte) :: (s ++ ascii "\x7d"))
  | lastItem {before value after : Bytes} (hbefore : IsWs before) (hvalue : Derives .value value)
      (hafter : IsWs after) : Derives .items (before ++ (value ++ after))
  | item {before value after rest : Bytes} (hbefore : IsWs before) (hvalue : Derives .value value)
      (hafter : IsWs after) (hrest : Derives .items rest) :
      Derives .items (before ++ (value ++ (after ++ (',' : Byte) :: rest)))
  | lastMember {before name beforeColon afterColon value after : Bytes} (hbefore : IsWs before)
      (hname : IsString name) (hbeforeColon : IsWs beforeColon) (hafterColon : IsWs afterColon)
      (hvalue : Derives .value value) (hafter : IsWs after) :
      Derives .members (before ++ (name ++ (beforeColon ++ (':' : Byte) ::
        (afterColon ++ (value ++ after)))))
  | member {before name beforeColon afterColon value after rest : Bytes} (hbefore : IsWs before)
      (hname : IsString name) (hbeforeColon : IsWs beforeColon) (hafterColon : IsWs afterColon)
      (hvalue : Derives .value value) (hafter : IsWs after) (hrest : Derives .members rest) :
      Derives .members (before ++ (name ++ (beforeColon ++ (':' : Byte) ::
        (afterColon ++ (value ++ (after ++ (',' : Byte) :: rest))))))

/-- A value in white space. -/
inductive IsJson : Bytes → Prop
  | intro {before value after : Bytes} (hbefore : IsWs before) (hvalue : Derives .value value)
      (hafter : IsWs after) : IsJson (before ++ (value ++ after))

/-! ## Composition -/

theorem isWs_nil : IsWs [] := fun _ hb => absurd hb List.not_mem_nil

theorem IsWs.append {s t : Bytes} (hs : IsWs s) (ht : IsWs t) : IsWs (s ++ t) := by
  intro b hb
  rcases List.mem_append.mp hb with hb | hb
  · exact hs b hb
  · exact ht b hb

variable {p : Shape} {s t g : Bytes}

theorem Derives.lone_item (h : Derives .value s) : Derives .items s := by
  have hitem := Derives.lastItem isWs_nil h isWs_nil
  rwa [List.nil_append, List.append_nil] at hitem

theorem Derives.lone_member {name : Bytes} (hname : IsString name) (h : Derives .value s) :
    Derives .members (name ++ (':' : Byte) :: s) := by
  have hmember := Derives.lastMember isWs_nil hname isWs_nil isWs_nil h isWs_nil
  simpa only [List.nil_append, List.append_nil] using hmember

theorem Derives.ws_left (hg : IsWs g) (h : Derives p s) (hp : p ≠ .value) :
    Derives p (g ++ s) := by
  cases h with
  | literal | number | string | emptyArray | array | emptyObject | object => exact absurd rfl hp
  | lastItem hbefore hvalue hafter =>
    rw [← List.append_assoc]
    exact .lastItem (hg.append hbefore) hvalue hafter
  | item hbefore hvalue hafter hrest =>
    rw [← List.append_assoc]
    exact .item (hg.append hbefore) hvalue hafter hrest
  | lastMember hbefore hname hbeforeColon hafterColon hvalue hafter =>
    rw [← List.append_assoc]
    exact .lastMember (hg.append hbefore) hname hbeforeColon hafterColon hvalue hafter
  | member hbefore hname hbeforeColon hafterColon hvalue hafter hrest =>
    rw [← List.append_assoc]
    exact .member (hg.append hbefore) hname hbeforeColon hafterColon hvalue hafter hrest

theorem Derives.ws_right (hg : IsWs g) (h : Derives p s) (hp : p ≠ .value) :
    Derives p (s ++ g) := by
  induction h with
  | literal | number | string | emptyArray | array | emptyObject | object => exact absurd rfl hp
  | lastItem hbefore hvalue hafter =>
    simp only [List.append_assoc]
    exact .lastItem hbefore hvalue (hafter.append hg)
  | item hbefore hvalue hafter _ _ ih =>
    simp only [List.append_assoc, List.cons_append]
    exact .item hbefore hvalue hafter (ih hp)
  | lastMember hbefore hname hbeforeColon hafterColon hvalue hafter =>
    simp only [List.append_assoc, List.cons_append]
    exact .lastMember hbefore hname hbeforeColon hafterColon hvalue (hafter.append hg)
  | member hbefore hname hbeforeColon hafterColon hvalue hafter _ _ ih =>
    simp only [List.append_assoc, List.cons_append]
    exact .member hbefore hname hbeforeColon hafterColon hvalue hafter (ih hp)

theorem Derives.comma (h : Derives p s) (ht : Derives p t) (hp : p ≠ .value) :
    Derives p (s ++ (',' : Byte) :: t) := by
  induction h with
  | literal | number | string | emptyArray | array | emptyObject | object => exact absurd rfl hp
  | lastItem hbefore hvalue hafter =>
    simp only [List.append_assoc]
    exact .item hbefore hvalue hafter ht
  | item hbefore hvalue hafter _ _ ih =>
    simp only [List.append_assoc, List.cons_append]
    exact .item hbefore hvalue hafter (ih ht hp)
  | lastMember hbefore hname hbeforeColon hafterColon hvalue hafter =>
    simp only [List.append_assoc, List.cons_append]
    exact .member hbefore hname hbeforeColon hafterColon hvalue hafter ht
  | member hbefore hname hbeforeColon hafterColon hvalue hafter _ _ ih =>
    simp only [List.append_assoc, List.cons_append]
    exact .member hbefore hname hbeforeColon hafterColon hvalue hafter (ih ht hp)

/-- The last members of an object, or the last items of an array, with the end of it. -/
inductive ClosedBy (p : Shape) (close : Bytes) : Bytes → Prop
  | intro {s : Bytes} (h : Derives p s) : ClosedBy p close (s ++ close)

namespace ClosedBy

variable {close : Bytes}

theorem cons (h : Derives p s) (ht : ClosedBy p close t) (hp : p ≠ .value) :
    ClosedBy p close (s ++ (',' : Byte) :: t) := by
  obtain ⟨ht⟩ := ht
  rw [← List.cons_append, ← List.append_assoc]
  exact ⟨h.comma ht hp⟩

theorem ws_left (hg : IsWs g) (h : ClosedBy p close s) (hp : p ≠ .value) :
    ClosedBy p close (g ++ s) := by
  obtain ⟨h⟩ := h
  rw [← List.append_assoc]
  exact ⟨h.ws_left hg hp⟩

theorem object (h : ClosedBy .members (ascii "\x7d") s) : Derives .value (('{' : Byte) :: s) := by
  obtain ⟨h⟩ := h
  exact .object h

end ClosedBy

/-- Items with commas between them, and white space behind each comma. -/
theorem items_intercalate {vs : List Bytes} (h : ∀ v ∈ vs, Derives .items v) (hne : vs ≠ [])
    (hg : IsWs g) : Derives .items (List.intercalate ((',' : Byte) :: g) vs) := by
  induction vs with
  | nil => exact absurd rfl hne
  | cons v vs ih =>
    cases vs with
    | nil =>
      rw [List.intercalate_singleton]
      exact h v (by simp)
    | cons w vs =>
      have hrest := ih (fun v hv => h v (List.mem_cons_of_mem _ hv)) (by simp)
      rw [List.intercalate_cons_cons, List.append_assoc, List.cons_append]
      exact (h v (by simp)).comma (hrest.ws_left hg Shape.noConfusion) Shape.noConfusion

theorem array_intercalate {vs : List Bytes} (h : ∀ v ∈ vs, Derives .value v) :
    Derives .value (('[' : Byte) :: (List.intercalate [(',' : Byte)] vs ++ ascii "]")) := by
  by_cases hne : vs = []
  · rw [hne]
    exact .emptyArray isWs_nil
  · exact .array (items_intercalate (fun v hv => (h v hv).lone_item) hne isWs_nil)

/-! ## Control bytes -/

/-- No control byte but the three of white space. -/
def Plain (s : Bytes) : Prop := ∀ b ∈ s, 32 ≤ b ∨ b = '\t' ∨ b = '\n' ∨ b = '\r'

theorem plain_append : Plain (s ++ t) ↔ Plain s ∧ Plain t := by
  simp only [Plain, List.mem_append, or_imp, forall_and]

theorem plain_cons {b : Byte} (hb : 32 ≤ b) : Plain (b :: s) ↔ Plain s := by
  simp [Plain, hb]

theorem plain_of_mem_intercalate {sep : Bytes} {vs : List Bytes} (h : Plain (sep.intercalate vs))
    {v : Bytes} (hv : v ∈ vs) : Plain v := by
  induction vs with
  | nil => exact absurd hv List.not_mem_nil
  | cons w vs ih =>
    cases vs with
    | nil =>
      rw [List.intercalate_singleton] at h
      rwa [List.mem_singleton.mp hv]
    | cons x vs =>
      rw [List.intercalate_cons_cons, plain_append, plain_append] at h
      rcases List.mem_cons.mp hv with rfl | hv
      · exact h.1.1
      · exact ih h.2 hv

theorem plain_nil : Plain [] := fun _ hb => absurd hb List.not_mem_nil

theorem IsWs.plain (h : IsWs s) : Plain s := by
  intro b hb
  rcases h b hb with rfl | hb
  · exact Or.inl (by decide)
  · exact Or.inr hb

theorem plain_digits (h : ∀ b ∈ s, isDigit b = true) : Plain s := by
  intro b hb
  have hdigit := h b hb
  simp only [isDigit, Bool.and_eq_true, decide_eq_true_eq] at hdigit
  exact Or.inl (UInt8.le_trans (by decide) hdigit.1)

theorem plain_hexDigits (h : ∀ b ∈ s, isHexDigit b = true) : Plain s := by
  intro b hb
  have hdigit := h b hb
  simp only [isHexDigit, isDigit, Bool.or_eq_true, Bool.and_eq_true, decide_eq_true_eq] at hdigit
  rcases hdigit with (⟨hb, _⟩ | ⟨hb, _⟩) | ⟨hb, _⟩
  all_goals exact Or.inl (UInt8.le_trans (by decide) hb)

theorem IsInt.plain (h : IsInt s) : Plain s := by
  cases h with
  | zero => exact (plain_cons (by decide)).mpr plain_nil
  | digits hd _ hds => exact plain_digits (List.forall_mem_cons.mpr ⟨hd, hds⟩)

theorem IsFrac.plain (h : IsFrac s) : Plain s := by
  cases h with
  | none => exact plain_nil
  | digits hds _ => exact (plain_cons (by decide)).mpr (plain_digits hds)

theorem IsExp.plain (h : IsExp s) : Plain s := by
  cases h with
  | none => exact plain_nil
  | @digits e sign ds he hsign hds _ =>
    have hletter : 32 ≤ e := by rcases he with rfl | rfl <;> decide
    refine (plain_cons hletter).mpr (plain_append.mpr ⟨?_, plain_digits hds⟩)
    rcases hsign with rfl | rfl | rfl
    · exact plain_nil
    · exact (plain_cons (by decide)).mpr plain_nil
    · exact (plain_cons (by decide)).mpr plain_nil

theorem IsNumber.plain (h : IsNumber s) : Plain s := by
  obtain ⟨hminus, hint, hfrac, hexp⟩ := h
  refine plain_append.mpr ⟨?_, plain_append.mpr ⟨hint.plain, plain_append.mpr
    ⟨hfrac.plain, hexp.plain⟩⟩⟩
  rcases hminus with rfl | rfl
  · exact plain_nil
  · exact (plain_cons (by decide)).mpr plain_nil

theorem IsChars.plain (h : IsChars s) : Plain s := by
  induction h with
  | nil => exact plain_nil
  | unescaped hcontrol _ _ _ ih => exact (plain_cons hcontrol).mpr ih
  | short hb _ ih =>
    have hall : ∀ b ∈ ascii "\"\\/bfnrt", 32 ≤ b := by decide +kernel
    exact (plain_cons (by decide)).mpr ((plain_cons (hall _ hb)).mpr ih)
  | code _ hdigits _ ih =>
    exact (plain_cons (by decide)).mpr ((plain_cons (by decide)).mpr
      (plain_append.mpr ⟨plain_hexDigits hdigits, ih⟩))

theorem IsString.plain (h : IsString s) : Plain s := by
  obtain ⟨hchars⟩ := h
  exact (plain_cons (by decide)).mpr
    (plain_append.mpr ⟨hchars.plain, (plain_cons (by decide)).mpr plain_nil⟩)

theorem Derives.plain (h : Derives p s) : Plain s := by
  have hbracket : Plain (ascii "]") ∧ Plain (ascii "\x7d") := by
    unfold Plain
    decide +kernel
  induction h with
  | literal hs =>
    unfold Plain
    rcases hs with rfl | rfl | rfl <;> decide +kernel
  | number hs => exact hs.plain
  | string hs => exact hs.plain
  | emptyArray hgap =>
    exact (plain_cons (by decide)).mpr (plain_append.mpr ⟨hgap.plain, hbracket.1⟩)
  | array _ ih => exact (plain_cons (by decide)).mpr (plain_append.mpr ⟨ih, hbracket.1⟩)
  | emptyObject hgap =>
    exact (plain_cons (by decide)).mpr (plain_append.mpr ⟨hgap.plain, hbracket.2⟩)
  | object _ ih => exact (plain_cons (by decide)).mpr (plain_append.mpr ⟨ih, hbracket.2⟩)
  | lastItem hbefore _ hafter ih =>
    simp only [plain_append]
    exact ⟨hbefore.plain, ih, hafter.plain⟩
  | item hbefore _ hafter _ ih ihRest =>
    simp only [plain_append, plain_cons (show (32 : Byte) ≤ ',' by decide)]
    exact ⟨hbefore.plain, ih, hafter.plain, ihRest⟩
  | lastMember hbefore hname hbeforeColon hafterColon _ hafter ih =>
    simp only [plain_append, plain_cons (show (32 : Byte) ≤ ':' by decide)]
    exact ⟨hbefore.plain, hname.plain, hbeforeColon.plain, hafterColon.plain, ih, hafter.plain⟩
  | member hbefore hname hbeforeColon hafterColon _ hafter _ ih ihRest =>
    simp only [plain_append, plain_cons (show (32 : Byte) ≤ ':' by decide),
      plain_cons (show (32 : Byte) ≤ ',' by decide)]
    exact ⟨hbefore.plain, hname.plain, hbeforeColon.plain, hafterColon.plain, ih, hafter.plain,
      ihRest⟩

theorem IsJson.plain (h : IsJson s) : Plain s := by
  obtain ⟨hbefore, hvalue, hafter⟩ := h
  simp only [plain_append]
  exact ⟨hbefore.plain, hvalue.plain, hafter.plain⟩

end JsonGrammar
