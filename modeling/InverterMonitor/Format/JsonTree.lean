import InverterMonitor.Cxx.Conversions

/-!
# JSON texts as trees

A tree keeps every byte of a JSON text, the white space included.  Numerals may
be a little more than JSON allows (leading zeros, a plus sign, a bare point) and
strings may contain any byte, so every JSON text is the text of a tree.

`Tree.filled_iff`: a tree is filled when none of its values is an empty
container.
-/

namespace JsonTree
open Text Cxx

/-- A value, the inside of an array or the inside of an object. -/
inductive Part
  | value | items | members

/-- The text of a member up to its value; `key` stands between the quotes. -/
structure Name where
  before : Bytes
  key : Bytes
  beforeColon : Bytes
  afterColon : Bytes

inductive Tree : Part → Type
  | null : Tree .value
  | bool (b : Bool) : Tree .value
  | number (p : NumeralParts) : Tree .value
  | string (body : Bytes) : Tree .value
  | emptyArray (gap : Bytes) : Tree .value
  | array (items : Tree .items) : Tree .value
  | emptyObject (gap : Bytes) : Tree .value
  | object (members : Tree .members) : Tree .value
  | lastItem (before : Bytes) (value : Tree .value) (after : Bytes) : Tree .items
  | item (before : Bytes) (value : Tree .value) (after : Bytes) (rest : Tree .items) :
      Tree .items
  | lastMember (name : Name) (value : Tree .value) (after : Bytes) : Tree .members
  | member (name : Name) (value : Tree .value) (after : Bytes) (rest : Tree .members) :
      Tree .members

/-! ## Texts -/

/-- No quote stands bare between the quotes, and no escape is cut short. -/
def isQuoted : Bytes → Bool
  | [] => true
  | c :: s =>
    if c = '"' then false
    else if c = '\\' then
      match s with
      | [] => false
      | _ :: s => isQuoted s
    else isQuoted s

theorem isQuoted_quote (s : Bytes) : isQuoted (('"' : Byte) :: s) = false := by
  rw [isQuoted.eq_def]
  rfl

theorem isQuoted_escape (e : Byte) (s : Bytes) :
    isQuoted (('\\' : Byte) :: e :: s) = isQuoted s := by
  rw [isQuoted.eq_def]
  rfl

theorem isQuoted_plain {c : Byte} (s : Bytes) (hq : c ≠ '"') (hb : c ≠ '\\') :
    isQuoted (c :: s) = isQuoted s := by
  rw [isQuoted.eq_def]
  simp [hq, hb]

def quoted (body : Bytes) : Bytes := ('"' : Byte) :: (body ++ ascii "\"")

namespace Name

def text (name : Name) : Bytes :=
  name.before ++ (quoted name.key ++ (name.beforeColon ++ (':' : Byte) :: name.afterColon))

structure WellFormed (name : Name) : Prop where
  before : Blank name.before
  key : isQuoted name.key = true
  beforeColon : Blank name.beforeColon
  afterColon : Blank name.afterColon

end Name

namespace Tree

def text : {i : Part} → Tree i → Bytes
  | _, null => ascii "null"
  | _, bool b => if b then ascii "true" else ascii "false"
  | _, number p => p.text
  | _, string body => quoted body
  | _, emptyArray gap => ('[' : Byte) :: (gap ++ ascii "]")
  | _, array items => ('[' : Byte) :: (items.text ++ ascii "]")
  | _, emptyObject gap => ('{' : Byte) :: (gap ++ ascii "\x7d")
  | _, object members => ('{' : Byte) :: (members.text ++ ascii "\x7d")
  | _, lastItem before value after => before ++ (value.text ++ after)
  | _, item before value after rest =>
    before ++ (value.text ++ (after ++ (',' : Byte) :: rest.text))
  | _, lastMember name value after => name.text ++ (value.text ++ after)
  | _, member name value after rest =>
    name.text ++ (value.text ++ (after ++ (',' : Byte) :: rest.text))

def WellFormed : {i : Part} → Tree i → Prop
  | _, null => True
  | _, bool _ => True
  | _, number p => p.whole ≠ []
  | _, string body => isQuoted body = true
  | _, emptyArray gap => Blank gap
  | _, array items => items.WellFormed
  | _, emptyObject gap => Blank gap
  | _, object members => members.WellFormed
  | _, lastItem before value after => Blank before ∧ value.WellFormed ∧ Blank after
  | _, item before value after rest =>
    Blank before ∧ value.WellFormed ∧ Blank after ∧ rest.WellFormed
  | _, lastMember name value after => name.WellFormed ∧ value.WellFormed ∧ Blank after
  | _, member name value after rest =>
    name.WellFormed ∧ value.WellFormed ∧ Blank after ∧ rest.WellFormed

/-! ## Values in a tree -/

/-- An empty array or an empty object. -/
def isHollow : Tree .value → Bool
  | emptyArray _ => true
  | emptyObject _ => true
  | _ => false

/-- No array and no object in the tree is empty. -/
def filled : {i : Part} → Tree i → Bool
  | _, null => true
  | _, bool _ => true
  | _, number _ => true
  | _, string _ => true
  | _, emptyArray _ => false
  | _, array items => items.filled
  | _, emptyObject _ => false
  | _, object members => members.filled
  | _, lastItem _ value _ => value.filled
  | _, item _ value _ rest => value.filled && rest.filled
  | _, lastMember _ value _ => value.filled
  | _, member _ value _ rest => value.filled && rest.filled

/-- The values in a tree, the whole of it included. -/
def values : {i : Part} → Tree i → List (Tree .value)
  | _, null => [null]
  | _, bool b => [bool b]
  | _, number p => [number p]
  | _, string body => [string body]
  | _, emptyArray gap => [emptyArray gap]
  | _, array items => array items :: items.values
  | _, emptyObject gap => [emptyObject gap]
  | _, object members => object members :: members.values
  | _, lastItem _ value _ => value.values
  | _, item _ value _ rest => value.values ++ rest.values
  | _, lastMember _ value _ => value.values
  | _, member _ value _ rest => value.values ++ rest.values

theorem filled_iff {i : Part} (t : Tree i) :
    t.filled = true ↔ ∀ v ∈ t.values, v.isHollow = false := by
  induction t with
  | null | bool | number | string | emptyArray | emptyObject => simp [filled, values, isHollow]
  | array items ih => simp [filled, values, isHollow, ih]
  | object members ih => simp [filled, values, isHollow, ih]
  | lastItem before value after ih => simp [filled, values, ih]
  | lastMember name value after ih => simp [filled, values, ih]
  | item before value after rest ih ihRest =>
    simp [filled, values, ih, ihRest, or_imp, forall_and]
  | member name value after rest ih ihRest =>
    simp [filled, values, ih, ihRest, or_imp, forall_and]

theorem filled_of_mem {i : Part} {t : Tree i} (h : t.filled = true) {v : Tree .value}
    (hv : v ∈ t.values) : v.filled = true := by
  induction t with
  | null | bool | number | string | emptyArray | emptyObject =>
    cases List.mem_singleton.mp hv
    exact h
  | array items ih =>
    rcases List.mem_cons.mp hv with rfl | hv
    · exact h
    · exact ih h hv
  | object members ih =>
    rcases List.mem_cons.mp hv with rfl | hv
    · exact h
    · exact ih h hv
  | lastItem before value after ih => exact ih h hv
  | lastMember name value after ih => exact ih h hv
  | item before value after rest ih ihRest =>
    rw [filled, Bool.and_eq_true] at h
    rcases List.mem_append.mp hv with hv | hv
    · exact ih h.1 hv
    · exact ihRest h.2 hv
  | member name value after rest ih ihRest =>
    rw [filled, Bool.and_eq_true] at h
    rcases List.mem_append.mp hv with hv | hv
    · exact ih h.1 hv
    · exact ihRest h.2 hv

theorem wellFormed_of_mem {i : Part} {t : Tree i} (h : t.WellFormed) {v : Tree .value}
    (hv : v ∈ t.values) : v.WellFormed := by
  induction t with
  | null | bool | number | string | emptyArray | emptyObject =>
    cases List.mem_singleton.mp hv
    exact h
  | array items ih =>
    rcases List.mem_cons.mp hv with rfl | hv
    · exact h
    · exact ih h hv
  | object members ih =>
    rcases List.mem_cons.mp hv with rfl | hv
    · exact h
    · exact ih h hv
  | lastItem before value after ih => exact ih h.2.1 hv
  | lastMember name value after ih => exact ih h.2.1 hv
  | item before value after rest ih ihRest =>
    rcases List.mem_append.mp hv with hv | hv
    · exact ih h.2.1 hv
    · exact ihRest h.2.2.2 hv
  | member name value after rest ih ihRest =>
    rcases List.mem_append.mp hv with hv | hv
    · exact ih h.2.1 hv
    · exact ihRest h.2.2.2 hv

end Tree

/-! ## Members and elements -/

/-- A member of an object, with the white space behind its value. -/
structure Entry where
  name : Name
  value : Tree .value
  after : Bytes

namespace Entry

def text (e : Entry) : Bytes := e.name.text ++ (e.value.text ++ e.after)

structure WellFormed (e : Entry) : Prop where
  name : e.name.WellFormed
  value : e.value.WellFormed
  after : Blank e.after

end Entry

def membersText : List Entry → Bytes
  | [] => []
  | [e] => e.text
  | e :: f :: rest => e.text ++ (',' : Byte) :: membersText (f :: rest)

def objectText (members : List Entry) : Bytes :=
  ('{' : Byte) :: (membersText members ++ ascii "\x7d")

namespace Tree

/-- The members of an object, from the inside of its braces. -/
def entries : {i : Part} → Tree i → List Entry
  | _, lastMember name value after => [⟨name, value, after⟩]
  | _, member name value after rest => ⟨name, value, after⟩ :: rest.entries
  | _, _ => []

/-- The elements of an array, from the inside of its brackets. -/
def elements : {i : Part} → Tree i → List (Tree .value)
  | _, lastItem _ value _ => [value]
  | _, item _ value _ rest => value :: rest.elements
  | _, _ => []

def members? : Tree .value → Option (List Entry)
  | emptyObject _ => some []
  | object members => some members.entries
  | _ => none

def elements? : Tree .value → Option (List (Tree .value))
  | emptyArray _ => some []
  | array items => some items.elements
  | _ => none

theorem entries_ne_nil {i : Part} {t : Tree i} (hi : i = .members) : t.entries ≠ [] := by
  cases t with
  | lastMember | member => simp [entries]
  | null | bool | number | string | emptyArray | array | emptyObject | object | lastItem | item =>
    cases hi

theorem text_members {i : Part} (t : Tree i) (hi : i = .members) :
    t.text = membersText t.entries := by
  induction t with
  | lastMember name value after => simp [text, entries, membersText, Entry.text]
  | member name value after rest _ ih =>
    obtain ⟨e, es, hrest⟩ := List.exists_cons_of_ne_nil (entries_ne_nil (t := rest) rfl)
    simp only [text, entries, ih rfl, hrest, membersText, Entry.text, List.append_assoc]
  | null | bool | number | string | emptyArray | array | emptyObject | object | lastItem | item =>
    cases hi

theorem wellFormed_entries {i : Part} {t : Tree i} (h : t.WellFormed) :
    ∀ e ∈ t.entries, e.WellFormed := by
  induction t with
  | lastMember name value after =>
    intro e he
    cases List.mem_singleton.mp he
    exact ⟨h.1, h.2.1, h.2.2⟩
  | member name value after rest _ ih =>
    intro e he
    rcases List.mem_cons.mp he with rfl | he
    · exact ⟨h.1, h.2.1, h.2.2.1⟩
    · exact ih h.2.2.2 e he
  | null | bool | number | string | emptyArray | array | emptyObject | object | lastItem | item =>
    simp [entries]

theorem wellFormed_elements {i : Part} {t : Tree i} (h : t.WellFormed) :
    ∀ v ∈ t.elements, v.WellFormed := by
  induction t with
  | lastItem before value after =>
    intro v hv
    cases List.mem_singleton.mp hv
    exact h.2.1
  | item before value after rest _ ih =>
    intro v hv
    rcases List.mem_cons.mp hv with rfl | hv
    · exact h.2.1
    · exact ih h.2.2.2 v hv
  | null | bool | number | string | emptyArray | array | emptyObject | object | lastMember |
    member => simp [elements]

end Tree

end JsonTree
