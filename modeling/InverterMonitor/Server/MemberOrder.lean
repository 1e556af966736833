import InverterMonitor.Server.RuleTrees

/-!
# The order of the members

When no two members of an object have one key, each sets fields of its own.  Only
the `value` of a condition looks at another one: a quoted text is converted under
the `inputType` read so far.

* `evalBy_comm`: with a fixed conversion any two members commute;
* `foldlM_eval_perm`: so their order does not matter, as long as the conversions
  of a quoted `value` agree;
* `member_order_iff`: where they differ, it does.
-/

namespace InverterMonitor.Rules
open Text Cxx Json JsonTree

/-! ## Actions in any order -/

section

variable {ε σ : Type} {f g : σ → ε → Option σ}

theorem foldl_bind_none (f : σ → ε → Option σ) (es : List ε) :
    es.foldl (fun o e => o.bind (f · e)) none = none := by
  induction es with
  | nil => rfl
  | cons e es ih => exact ih

theorem foldlM_eq_foldl (f : σ → ε → Option σ) (es : List ε) (st : σ) :
    es.foldlM f st = es.foldl (fun o e => o.bind (f · e)) (some st) := by
  induction es generalizing st with
  | nil => rfl
  | cons e es ih =>
    rw [List.foldlM_cons, List.foldl_cons, Option.bind_some]
    cases f st e with
    | none => exact (foldl_bind_none f es).symm
    | some st => exact ih st

/-- Actions that commute in pairs can be done in any order. -/
theorem foldlM_perm {es es' : List ε} (h : es.Perm es')
    (hcomm : ∀ a ∈ es, ∀ b ∈ es, ∀ st, (f st a).bind (f · b) = (f st b).bind (f · a)) (st : σ) :
    es.foldlM f st = es'.foldlM f st := by
  rw [foldlM_eq_foldl, foldlM_eq_foldl]
  refine h.foldl_eq' (fun a ha b hb o => ?_) (some st)
  cases o with
  | none => rfl
  | some st => exact hcomm a ha b hb st

/-- Two actions that agree wherever `P` holds have the same runs. -/
theorem foldlM_congr {P : σ → Prop} {es : List ε}
    (h : ∀ e ∈ es, ∀ st, P st → f st e = g st e ∧ ∀ st', f st e = some st' → P st') {st : σ}
    (hst : P st) : es.foldlM f st = es.foldlM g st := by
  induction es generalizing st with
  | nil => rfl
  | cons e es ih =>
    obtain ⟨heq, hstep⟩ := h e (by simp) st hst
    rw [List.foldlM_cons, List.foldlM_cons, ← heq]
    cases hf : f st e with
    | none => rfl
    | some st' => exact ih (fun a ha => h a (List.mem_cons_of_mem e ha)) (hstep st' hf)

/-- One action that always fails stops every run. -/
theorem foldlM_none {es : List ε} {e : ε} (he : e ∈ es) (h : ∀ st, f st e = none) (st : σ) :
    es.foldlM f st = none := by
  induction es generalizing st with
  | nil => cases he
  | cons a es ih =>
    rw [List.foldlM_cons]
    rcases List.mem_cons.mp he with rfl | he
    · rw [h st]
      rfl
    · cases f st a with
      | none => rfl
      | some st => exact ih he st

end

/-! ## What a member sets -/

/-- `evalCondition` when quoted texts are converted by `number`, whatever the input type. -/
def evalConditionBy (number : Bytes → Except Exception Float) (key : Bytes) (v : Tree .value)
    (condition : RuleCondition) : Option RuleCondition :=
  if key = ascii "value" then
    (scalar v).bind fun value =>
      (if value.isString then number value.text else stod value.text).toOption.map fun x =>
        { condition with
          valueIsString := value.isString
          valueString := if value.isString then value.text else []
          valueNumber := x }
  else evalCondition key v condition

def Level.evalBy (number : Bytes → Except Exception Float) :
    (l : Level) → Bytes → Tree .value → l.State → Option l.State
  | .rule => evalRule
  | .condition => evalConditionBy number
  | .command => evalCommand

/-- The changes that a member with this key makes. -/
inductive Level.Update : (l : Level) → Bytes → (l.State → l.State) → Prop
  | id (n : UInt32) : Update .rule (ascii "id") fun (rule : Rule) => { rule with id := n }
  | enabled (b : Bool) :
      Update .rule (ascii "enabled") fun (rule : Rule) => { rule with enabled := b }
  | name (s : Bytes) : Update .rule (ascii "name") fun (rule : Rule) => { rule with name := s }
  | conditions (cs : List RuleCondition) :
      Update .rule (ascii "conditions") fun (rule : Rule) => { rule with conditions := cs }
  | commands (cs : List RuleCommand) :
      Update .rule (ascii "commands") fun (rule : Rule) => { rule with commands := cs }
  | inputType (t : ConditionInputType) :
      Update .condition (ascii "inputtype") fun (c : RuleCondition) => { c with inputType := t }
  | inputAddress (n : UInt32) :
      Update .condition (ascii "inputaddress") fun (c : RuleCondition) =>
        { c with inputAddress := n }
  | operator (op : ConditionOperator) :
      Update .condition (ascii "operator") fun (c : RuleCondition) => { c with op := op }
  | valueType (t : ConditionInputType) :
      Update .condition (ascii "valuetype") fun (c : RuleCondition) =>
        { c with valueInputType := t }
  | valueAddress (n : UInt32) :
      Update .condition (ascii "valueaddress") fun (c : RuleCondition) =>
        { c with valueInputAddress := n }
  | value (isString : Bool) (s : Bytes) (x : Float) :
      Update .condition (ascii "value") fun (c : RuleCondition) =>
        { c with valueIsString := isString, valueString := s, valueNumber := x }
  | type (t : CommandType) :
      Update .command (ascii "type") fun (c : RuleCommand) => { c with type := t }
  | data (s : Bytes) : Update .command (ascii "data") fun (c : RuleCommand) => { c with data := s }
  | address (n : UInt32) :
      Update .command (ascii "address") fun (c : RuleCommand) => { c with address := n }
  | unknown {l : Level} {key : Bytes} (h : key ∉ l.keys) : Update l key fun st => st

/-- Members with different keys set different fields. -/
theorem Level.Update.comm {l : Level} {key key' : Bytes} {f g : l.State → l.State}
    (hf : l.Update key f) (hg : l.Update key' g) (h : key ≠ key') (st : l.State) :
    g (f st) = f (g st) := by
  cases hf <;> cases hg <;> first | rfl | exact absurd rfl h

/-- A member always fails, or it makes one change in every state. -/
def Level.Sets (l : Level) (key : Bytes) (act : l.State → Option l.State) : Prop :=
  (∀ st, act st = none) ∨ ∃ f, l.Update key f ∧ ∀ st, act st = some (f st)

theorem Level.Sets.map {l : Level} {key : Bytes} {α : Type} {set : α → l.State → l.State}
    (h : ∀ a, l.Update key (set a)) (r : Option α) :
    l.Sets key fun st => r.map fun a => set a st := by
  cases r with
  | none => exact Or.inl fun st => rfl
  | some a => exact Or.inr ⟨set a, h a, fun st => rfl⟩

theorem Level.Sets.comm {l : Level} {key key' : Bytes} {act act' : l.State → Option l.State}
    (h : l.Sets key act) (h' : l.Sets key' act') (hne : key ≠ key') (st : l.State) :
    (act st).bind act' = (act' st).bind act := by
  rcases h with h | ⟨f, hf, h⟩
  · cases act' st <;> simp [h]
  · rcases h' with h' | ⟨g, hg, h'⟩
    · simp [h, h']
    · simp only [h, h', Option.bind_some, hf.comm hg hne st]

section

variable (number : Bytes → Except Exception Float) (key : Bytes) (v : Tree .value)

theorem evalRule_sets : Level.Sets .rule key (evalRule key v) := by
  unfold evalRule
  split
  · subst key
    exact .map (fun n => .id n) (numberOf v)
  split
  · subst key
    exact .map (fun b => .enabled b) (boolOf v)
  split
  · subst key
    exact .map (fun s => .name s) (stringOf v)
  split
  · subst key
    exact .map (fun cs => .conditions cs) (listOf (objectOf evalCondition {}) v)
  split
  · subst key
    exact .map (fun cs => .commands cs) (listOf (objectOf evalCommand {}) v)
  · exact Or.inr ⟨_, .unknown (by simp [Level.keys, *]), fun rule => rfl⟩

theorem evalCondition_sets (h : key ≠ ascii "value") :
    Level.Sets .condition key (evalCondition key v) := by
  unfold evalCondition
  split
  · subst key
    exact .map (fun value => .inputType (parseConditionInputType value.text)) (scalar v)
  split
  · subst key
    exact .map (fun n => .inputAddress n) (numberOf v)
  split
  · subst key
    exact .map (fun value => .operator (parseConditionOperator value.text)) (scalar v)
  split
  · subst key
    exact .map (fun value => .valueType (parseConditionInputType value.text)) (scalar v)
  split
  · subst key
    exact .map (fun n => .valueAddress n) (numberOf v)
  · exact Or.inr ⟨_, .unknown (by simp [Level.keys, *]), fun condition => rfl⟩

theorem evalConditionBy_sets : Level.Sets .condition key (evalConditionBy number key v) := by
  unfold evalConditionBy
  split
  · subst key
    cases scalar v with
    | none => exact Or.inl fun c => rfl
    | some value =>
      exact .map (fun x => .value value.isString (if value.isString then value.text else []) x)
        (if value.isString then number value.text else stod value.text).toOption
  · exact evalCondition_sets key v ‹_›

theorem evalCommand_sets : Level.Sets .command key (evalCommand key v) := by
  unfold evalCommand
  split
  · subst key
    exact .map (fun value => .type (parseCommandType value.text)) (scalar v)
  split
  · subst key
    exact .map (fun value => .data value.text) (scalar v)
  split
  · subst key
    exact .map (fun n => .address n) (numberOf v)
  · exact Or.inr ⟨_, .unknown (by simp [Level.keys, *]), fun command => rfl⟩

theorem Level.evalBy_sets (l : Level) : l.Sets key (l.evalBy number key v) := by
  cases l with
  | rule => exact evalRule_sets key v
  | condition => exact evalConditionBy_sets number key v
  | command => exact evalCommand_sets key v

end

/-- Members with different keys commute when the conversion is fixed. -/
theorem evalBy_comm (number : Bytes → Except Exception Float) (l : Level) {e e' : Entry}
    (h : Entry.key e ≠ Entry.key e') (st : l.State) :
    (l.evalBy number (Entry.key e) e.value st).bind (l.evalBy number (Entry.key e') e'.value) =
      (l.evalBy number (Entry.key e') e'.value st).bind (l.evalBy number (Entry.key e) e.value) :=
  (l.evalBy_sets number (Entry.key e) e.value).comm (l.evalBy_sets number (Entry.key e') e'.value)
    h st

theorem foldlM_evalBy_perm (number : Bytes → Except Exception Float) (l : Level)
    {es es' : List Entry} (hkeys : (es.map Entry.key).Nodup) (h : es.Perm es') (st : l.State) :
    es.foldlM (fun st e => l.evalBy number (Entry.key e) e.value st) st =
      es'.foldlM (fun st e => l.evalBy number (Entry.key e) e.value st) st := by
  refine foldlM_perm h (fun a ha b hb st => ?_) st
  by_cases hab : a = b
  · rw [hab]
  · refine evalBy_comm number l (fun hkey => hab ?_) st
    exact List.inj_on_of_nodup_map hkeys ha hb hkey

/-! ## The value of a condition -/

theorem stringOf_of_scalar {v : Tree .value} {value : JsonText} (h : scalar v = some value)
    (hstring : value.isString = true) : stringOf v = some value.text := by
  cases v with
  | string body =>
    cases h
    rfl
  | null | bool | number =>
    cases h
    cases hstring
  | emptyArray | array | emptyObject | object => cases h

theorem scalar_of_stringOf {v : Tree .value} {s : Bytes} (h : stringOf v = some s) :
    scalar v = some ⟨s, true⟩ := by
  cases v with
  | string body =>
    cases h
    rfl
  | null | bool | number | emptyArray | array | emptyObject | object => cases h

/-- The conversion is the one of the input type that was read. -/
theorem evalCondition_eq (key : Bytes) (v : Tree .value) (condition : RuleCondition) :
    evalCondition key v condition =
      evalConditionBy (stringValueNumber condition.inputType) key v condition := by
  unfold evalConditionBy
  split
  · subst key
    change (scalar v).bind _ = _
    refine congrArg ((scalar v).bind ·) (funext fun value => ?_)
    unfold conditionValue
    cases value.isString with
    | true =>
      simp only [↓reduceIte]
      cases stringValueNumber condition.inputType value.text <;> rfl
    | false =>
      simp only [Bool.false_eq_true, ↓reduceIte]
      cases stod value.text <;> rfl
  · rfl

theorem stringValueNumber_stod {t : ConditionInputType} (h : t ≠ .time) :
    stringValueNumber t = stod := by
  funext s
  rw [stringValueNumber, if_neg h]

/-- Where the conversions agree, the input type does not matter. -/
theorem evalCondition_eq_by {v : Tree .value}
    (h : ∀ s, stringOf v = some s → stringValueNumber .time s = stod s)
    (condition : RuleCondition) :
    evalCondition (ascii "value") v condition =
      evalConditionBy stod (ascii "value") v condition := by
  by_cases htime : condition.inputType = .time
  · rw [evalCondition_eq, htime]
    unfold evalConditionBy
    rw [if_pos rfl, if_pos rfl]
    cases hv : scalar v with
    | none => rfl
    | some value =>
      cases hstring : value.isString with
      | true => simp only [Option.bind_some, hstring, ↓reduceIte, h _ (stringOf_of_scalar hv hstring)]
      | false => simp only [Option.bind_some, hstring, Bool.false_eq_true, ↓reduceIte]
  · rw [evalCondition_eq, stringValueNumber_stod htime]

theorem evalCondition_update {key : Bytes} {v : Tree .value} {c d : RuleCondition}
    (h : evalCondition key v c = some d) :
    ∃ f, Level.Update .condition key f ∧ d = f c := by
  rw [evalCondition_eq] at h
  rcases evalConditionBy_sets (stringValueNumber c.inputType) key v with hnone | ⟨f, hf, hsome⟩
  · rw [hnone c] at h
    cases h
  · rw [hsome c] at h
    exact ⟨f, hf, (Option.some.inj h).symm⟩

theorem Level.Update.inputType_eq {key : Bytes} {f : RuleCondition → RuleCondition}
    (h : Level.Update .condition key f) (hkey : key ≠ ascii "inputtype") (c : RuleCondition) :
    (f c).inputType = c.inputType := by
  cases h with
  | inputType => exact absurd rfl hkey
  | inputAddress | operator | valueType | valueAddress | value | unknown => rfl

theorem Level.Update.valueNumber_eq {key : Bytes} {f : RuleCondition → RuleCondition}
    (h : Level.Update .condition key f) (hkey : key ≠ ascii "value") (c : RuleCondition) :
    (f c).valueNumber = c.valueNumber := by
  cases h with
  | value => exact absurd rfl hkey
  | inputType | inputAddress | operator | valueType | valueAddress | unknown => rfl

/-! ## Where the order matters -/

/-- The value is one that the key of a condition takes. -/
def taken (key : Bytes) (v : Tree .value) : Bool :=
  if key = ascii "inputtype" ∨ key = ascii "operator" ∨ key = ascii "valuetype" then
    (scalar v).isSome
  else if key = ascii "inputaddress" ∨ key = ascii "valueaddress" then (numberOf v).isSome
  else true

/-- `t` makes the input type `Time`, and as a time of day the quoted text of `v` is
not the number that `std::stod` finds in it. -/
structure TimeConflict (es : List Entry) (t v : Entry) : Prop where
  type_mem : t ∈ es
  type_key : Entry.key t = ascii "inputtype"
  type_time : (scalar t.value).map (fun kind => parseConditionInputType kind.text) = some .time
  value_mem : v ∈ es
  value_key : Entry.key v = ascii "value"
  value_differs : ∃ s, stringOf v.value = some s ∧ stringValueNumber .time s ≠ stod s
  others_taken : ∀ e ∈ es, Entry.key e ≠ ascii "value" → taken (Entry.key e) e.value = true

theorem isSome_evalCondition {key : Bytes} (hkey : key ≠ ascii "value") (v : Tree .value)
    (c : RuleCondition) : (evalCondition key v c).isSome = taken key v := by
  unfold evalCondition taken
  split
  · subst key
    simp
  split
  · subst key
    rw [if_neg (by decide), if_pos (by decide), Option.isSome_map]
  split
  · subst key
    simp
  split
  · subst key
    simp
  split
  · subst key
    rw [if_neg (by decide), if_pos (by decide), Option.isSome_map]
  · simp [*]

theorem evalCondition_taken {key : Bytes} {v : Tree .value} (hkey : key ≠ ascii "value")
    (h : taken key v = true) (c : RuleCondition) : ∃ d, evalCondition key v c = some d := by
  rw [← isSome_evalCondition hkey v c] at h
  exact Option.isSome_iff_exists.mp h

/-- No member makes the input type `Time`, or it does not matter for the value. -/
theorem foldlM_eval_eq {es : List Entry}
    (h : ∀ t ∈ es, Entry.key t = ascii "inputtype" →
      (scalar t.value).map (fun kind => parseConditionInputType kind.text) = some .time →
      ∀ v ∈ es, Entry.key v = ascii "value" →
        ∀ s, stringOf v.value = some s → stringValueNumber .time s = stod s) :
    es.foldlM (fun c e => evalCondition (Entry.key e) e.value c) {} =
      es.foldlM (fun c e => evalConditionBy stod (Entry.key e) e.value c) {} := by
  have hother : ∀ {key : Bytes} (v : Tree .value) (c : RuleCondition), key ≠ ascii "value" →
      evalCondition key v c = evalConditionBy stod key v c := by
    intro key v c hkey
    rw [evalConditionBy, if_neg hkey]
  by_cases htime : ∃ t ∈ es, Entry.key t = ascii "inputtype" ∧
      (scalar t.value).map (fun kind => parseConditionInputType kind.text) = some .time
  · obtain ⟨t, ht, hkey, htype⟩ := htime
    refine foldlM_congr (P := fun _ => True) (fun e he c _ => ⟨?_, fun _ _ => trivial⟩) trivial
    by_cases hvalue : Entry.key e = ascii "value"
    · rw [hvalue]
      exact evalCondition_eq_by (h t ht hkey htype e he hvalue) c
    · exact hother e.value c hvalue
  · -- The input type is never `Time` on the way.
    refine foldlM_congr (P := fun c => c.inputType ≠ .time) (fun e he c hc => ⟨?_, ?_⟩) (by decide)
    · by_cases hvalue : Entry.key e = ascii "value"
      · rw [evalCondition_eq, stringValueNumber_stod hc]
      · exact hother e.value c hvalue
    · intro d hd
      by_cases hkey : Entry.key e = ascii "inputtype"
      · rw [hkey] at hd
        cases hkind : scalar e.value with
        | none =>
          rw [evalCondition, if_pos rfl, hkind] at hd
          cases hd
        | some kind =>
          rw [evalCondition, if_pos rfl, hkind] at hd
          cases hd
          intro htype
          exact htime ⟨e, he, hkey, by rw [hkind]; exact congrArg some htype⟩
      · obtain ⟨f, hf, rfl⟩ := evalCondition_update hd
        rwa [hf.inputType_eq hkey]

/-- The meaning of a condition does not depend on the order, but for a conflict. -/
theorem foldlM_condition_perm {es es' : List Entry} (hkeys : (es.map Entry.key).Nodup)
    (hno : ¬∃ t v, TimeConflict es t v) (hperm : es.Perm es') :
    es.foldlM (fun c e => evalCondition (Entry.key e) e.value c) {} =
      es'.foldlM (fun c e => evalCondition (Entry.key e) e.value c) {} := by
  by_cases htaken : ∀ e ∈ es, Entry.key e ≠ ascii "value" → taken (Entry.key e) e.value = true
  · have hagree : ∀ t ∈ es, Entry.key t = ascii "inputtype" →
        (scalar t.value).map (fun kind => parseConditionInputType kind.text) = some .time →
        ∀ v ∈ es, Entry.key v = ascii "value" →
          ∀ s, stringOf v.value = some s → stringValueNumber .time s = stod s := by
      intro t ht hkey htype v hv hvalue s hs
      by_contra hdiffers
      exact hno ⟨t, v, ht, hkey, htype, hv, hvalue, ⟨s, hs, hdiffers⟩, htaken⟩
    rw [foldlM_eval_eq hagree, foldlM_eval_eq fun t ht hkey htype v hv =>
      hagree t (hperm.mem_iff.mpr ht) hkey htype v (hperm.mem_iff.mpr hv)]
    exact foldlM_evalBy_perm stod .condition hkeys hperm _
  · -- A member that cannot be read fails in every order.
    simp only [not_forall] at htaken
    obtain ⟨e, he, hkey, hbad⟩ := htaken
    have hnone : ∀ c, evalCondition (Entry.key e) e.value c = none := by
      intro c
      rw [← isSome_evalCondition hkey e.value c] at hbad
      simpa using hbad
    rw [foldlM_none he hnone, foldlM_none (hperm.mem_iff.mp he) hnone]

/-- The members other than `value` leave the number alone. -/
theorem foldlM_others {es : List Entry} (hkeys : ∀ e ∈ es, Entry.key e ≠ ascii "value")
    (htaken : ∀ e ∈ es, taken (Entry.key e) e.value = true) (c : RuleCondition) :
    ∃ d, es.foldlM (fun c e => evalCondition (Entry.key e) e.value c) c = some d ∧
      d.valueNumber = c.valueNumber := by
  induction es generalizing c with
  | nil => exact ⟨c, rfl, rfl⟩
  | cons e es ih =>
    obtain ⟨d, hd⟩ := evalCondition_taken (hkeys e (by simp)) (htaken e (by simp)) c
    obtain ⟨f, hf, rfl⟩ := evalCondition_update hd
    obtain ⟨d, hread, hnumber⟩ := ih (fun a ha => hkeys a (List.mem_cons_of_mem e ha))
      (fun a ha => htaken a (List.mem_cons_of_mem e ha)) (f c)
    refine ⟨d, ?_, hnumber.trans (hf.valueNumber_eq (hkeys e (by simp)) c)⟩
    rw [List.foldlM_cons, hd]
    exact hread

theorem evalCondition_value {v : Tree .value} {s : Bytes} (h : stringOf v = some s)
    (c : RuleCondition) :
    evalCondition (ascii "value") v c =
      (stringValueNumber c.inputType s).toOption.map fun x =>
        { c with valueIsString := true, valueString := s, valueNumber := x } := by
  rw [evalCondition_eq, evalConditionBy, if_pos rfl, scalar_of_stringOf h]
  rfl

/-- A time of day is never refused. -/
theorem stringValueNumber_time (s : Bytes) : ∃ x, stringValueNumber .time s = .ok x :=
  ⟨_, rfl⟩

theorem perm_two {ε : Type} {es : List ε} {a b : ε} (ha : a ∈ es) (hb : b ∈ es) (h : a ≠ b) :
    ∃ rest, es.Perm (a :: b :: rest) := by
  obtain ⟨xs, ys, rfl⟩ := List.append_of_mem ha
  have hb : b ∈ xs ++ ys := by
    rcases List.mem_append.mp hb with hb | hb
    · exact List.mem_append_left ys hb
    · rcases List.mem_cons.mp hb with rfl | hb
      · exact absurd rfl h
      · exact List.mem_append_right xs hb
  obtain ⟨us, ws, hrest⟩ := List.append_of_mem hb
  refine ⟨us ++ ws, List.perm_middle.trans (List.Perm.cons a ?_)⟩
  rw [hrest]
  exact List.perm_middle

/-- In a conflict the two orders of `t` and `v` give different conditions. -/
theorem foldlM_conflict {t v : Entry} {others : List Entry}
    (hkeys : ((t :: v :: others).map Entry.key).Nodup)
    (h : TimeConflict (t :: v :: others) t v) :
    (t :: v :: others).foldlM (fun c e => evalCondition (Entry.key e) e.value c) {} ≠
      (v :: t :: others).foldlM (fun c e => evalCondition (Entry.key e) e.value c) {} := by
  obtain ⟨s, hs, hdiffers⟩ := h.value_differs
  obtain ⟨x, hx⟩ := stringValueNumber_time s
  obtain ⟨kind, hkind, htype⟩ := Option.map_eq_some_iff.mp h.type_time
  have hothers : ∀ e ∈ others, Entry.key e ≠ ascii "value" := by
    intro e he hkey
    rw [List.map_cons, List.map_cons, List.nodup_cons, List.nodup_cons, h.value_key] at hkeys
    exact hkeys.2.1 (List.mem_map.mpr ⟨e, he, hkey⟩)
  have htaken : ∀ e ∈ others, taken (Entry.key e) e.value = true :=
    fun e he => h.others_taken e (by simp [he]) (hothers e he)
  have ht : ∀ c : RuleCondition,
      evalCondition (Entry.key t) t.value c = some { c with inputType := .time } := by
    intro c
    rw [h.type_key, evalCondition, if_pos rfl, hkind, ← htype]
    rfl
  -- With the type first the text is a time of day.
  obtain ⟨d, hd, hnumber⟩ := foldlM_others hothers htaken
    { inputType := .time, valueIsString := true, valueString := s, valueNumber := x }
  have hfirst : (t :: v :: others).foldlM
      (fun c e => evalCondition (Entry.key e) e.value c) {} = some d := by
    rw [List.foldlM_cons, ht, Option.bind_eq_bind, Option.bind_some, List.foldlM_cons,
      h.value_key, evalCondition_value hs, hx]
    exact hd
  rw [hfirst, List.foldlM_cons, h.value_key, evalCondition_value hs,
    stringValueNumber_stod (by decide)]
  cases hy : stod s with
  | error e => exact Option.some_ne_none d
  | ok y =>
    obtain ⟨d', hd', hnumber'⟩ := foldlM_others hothers htaken
      { inputType := .time, valueIsString := true, valueString := s, valueNumber := y }
    intro heq
    rw [Except.toOption, Option.map_some, Option.bind_eq_bind, Option.bind_some,
      List.foldlM_cons, ht, Option.bind_eq_bind, Option.bind_some, hd'] at heq
    cases heq
    have hxy : x = y := hnumber.symm.trans hnumber'
    rw [hx, hy, hxy] at hdiffers
    exact hdiffers rfl

/-! ## The readers -/

def Level.parse (bound : Nat) : (l : Level) → Cursor → Except Failure (l.State × Cursor)
  | .rule => parseRuleObject bound
  | .condition => parseRuleCondition bound
  | .command => parseRuleCommand bound

/-- The structure that is read from an object with these members, in front of `s`. -/
def Level.read (l : Level) (bound : Nat) (es : List Entry) (s : Bytes) : Option l.State :=
  (l.parse bound (.inside (objectText es ++ s))).toOption.map Prod.fst

theorem Reads.toOption {α : Type} {x : Except Failure (α × Cursor)} {r : Option α} {d : Cursor}
    (h : Reads x r d) : x.toOption.map Prod.fst = r := by
  cases h <;> rfl

theorem Level.parse_eq (bound : Nat) (l : Level) :
    l.parse bound = parseObject (l.member bound) bound l.initial := by
  cases l <;> rfl

theorem Level.read_eq (l : Level) {es : List Entry} (hes : ∀ e ∈ es, e.WellFormed)
    (hpass : ∀ e, ReachedMember l.eval l.initial es e → l.Passable (Entry.key e) e.value)
    {bound : Nat} {s : Bytes} (hbound : 2 * (objectText es ++ s).length < bound) :
    l.read bound es s = es.foldlM (fun st e => l.eval (Entry.key e) e.value st) l.initial := by
  rw [Level.read, l.parse_eq]
  exact (readObject_reads l hes hpass s hbound).toOption

theorem length_membersText (es : List Entry) :
    (membersText es).length = (es.map fun e => e.text.length + 1).sum - 1 := by
  induction es with
  | nil => rfl
  | cons e es ih =>
    cases es with
    | nil => simp [membersText]
    | cons f es =>
      rw [membersText, List.length_append, List.length_cons, ih]
      simp only [List.map_cons, List.sum_cons]
      omega

theorem length_objectText_perm {es es' : List Entry} (h : es.Perm es') :
    (objectText es').length = (objectText es).length := by
  simp only [objectText, List.length_cons, List.length_append, length_membersText,
    (h.map fun e : Entry => e.text.length + 1).sum_nat]

theorem foldlM_eval_perm (l : Level) {es es' : List Entry} (hkeys : (es.map Entry.key).Nodup)
    (hno : ¬(l = .condition ∧ ∃ t v, TimeConflict es t v)) (hperm : es.Perm es') :
    es.foldlM (fun st e => l.eval (Entry.key e) e.value st) l.initial =
      es'.foldlM (fun st e => l.eval (Entry.key e) e.value st) l.initial := by
  cases l with
  | rule => exact foldlM_evalBy_perm stod .rule hkeys hperm _
  | condition => exact foldlM_condition_perm hkeys (fun h => hno ⟨rfl, h⟩) hperm
  | command => exact foldlM_evalBy_perm stod .command hkeys hperm _

/-- Where the values of unknown members can be passed over, the order of the members
matters only for a condition whose `value` is a time of day.  Every member of the object
is the first one in some order; inside a list of a rule, only what is reached counts. -/
theorem member_order_iff (l : Level) {es : List Entry} (hes : ∀ e ∈ es, e.WellFormed)
    (hkeys : (es.map Entry.key).Nodup) (hpass : ∀ e ∈ es, l.Passable (Entry.key e) e.value)
    {bound : Nat} {s : Bytes} (hbound : 2 * (objectText es ++ s).length < bound) :
    (∀ es', es.Perm es' → l.read bound es' s = l.read bound es s) ↔
      ¬(l = .condition ∧ ∃ t v, TimeConflict es t v) := by
  have hread : ∀ {es' : List Entry}, es.Perm es' → l.read bound es' s =
      es'.foldlM (fun st e => l.eval (Entry.key e) e.value st) l.initial := by
    intro es' h
    refine l.read_eq (fun e he => hes e (h.mem_iff.mpr he))
      (fun e he => hpass e (h.mem_iff.mpr he.mem)) ?_
    rw [List.length_append] at hbound ⊢
    rwa [length_objectText_perm h]
  constructor
  · rintro h ⟨rfl, t, v, hconflict⟩
    have hne : t ≠ v := by
      rintro rfl
      have hkey := hconflict.type_key.symm.trans hconflict.value_key
      exact absurd hkey (by decide)
    obtain ⟨others, hperm⟩ := perm_two hconflict.type_mem hconflict.value_mem hne
    have hswap := hperm.trans (List.Perm.swap v t others)
    refine foldlM_conflict ((hperm.map Entry.key).nodup_iff.mp hkeys) ?_
      (((hread hperm).symm.trans (h _ hperm)).trans ((h _ hswap).symm.trans (hread hswap)))
    exact { hconflict with
      type_mem := hperm.mem_iff.mp hconflict.type_mem
      value_mem := hperm.mem_iff.mp hconflict.value_mem
      others_taken := fun e he => hconflict.others_taken e (hperm.mem_iff.mpr he) }
  · intro hno es' hperm
    rw [hread hperm, hread (List.Perm.refl es)]
    exact (foldlM_eval_perm l hkeys hno hperm).symm

/-- The reader does not come behind an element that is no object. -/
example {σ : Type} (eval : Bytes → Tree .value → σ → Option σ) (init : σ) (rest : Tree .items)
    (e : Entry) : ¬ReachedInside eval init (.array (.item [] .null [] rest)) e := by
  rintro ⟨w, ⟨before, after, hlist, hread⟩, hmember⟩
  cases before with
  | nil =>
    obtain ⟨rfl, -⟩ := List.cons.inj hlist
    cases hmember.mem
  | cons u before =>
    obtain ⟨rfl, -⟩ := List.cons.inj hlist
    cases hread .null (by simp)

/-- A member without white space. -/
def plain (key : String) (v : Tree .value) : Entry := ⟨⟨[], ascii key, [], []⟩, v, []⟩

theorem plain_wellFormed {key : String} {s : Bytes} (hkey : isQuoted (ascii key) = true)
    (hs : isQuoted s = true) : (plain key (.string s)).WellFormed :=
  ⟨⟨blank_nil, hkey, blank_nil, blank_nil⟩, hs, blank_nil⟩

/-- An address can stand before or behind the input type. -/
theorem address_before_inputType :
    Level.read .condition 200 [plain "inputAddress" (.string (ascii "7")),
        plain "inputType" (.string (ascii "register"))] [] =
      Level.read .condition 200 [plain "inputType" (.string (ascii "register")),
        plain "inputAddress" (.string (ascii "7"))] [] := by
  have hes : ∀ e ∈ [plain "inputType" (.string (ascii "register")),
      plain "inputAddress" (.string (ascii "7"))], e.WellFormed := by
    intro e he
    rcases List.mem_pair.mp he with rfl | rfl
    · exact plain_wellFormed (by decide +kernel) (by decide +kernel)
    · exact plain_wellFormed (by decide +kernel) (by decide +kernel)
  have hpass : ∀ e ∈ [plain "inputType" (.string (ascii "register")),
      plain "inputAddress" (.string (ascii "7"))],
      Level.condition.Passable (Entry.key e) e.value := by
    intro e he
    rcases List.mem_pair.mp he with rfl | rfl
    · exact fun _ => rfl
    · exact fun _ => rfl
  have hno : ¬(Level.condition = .condition ∧ ∃ t v,
      TimeConflict [plain "inputType" (.string (ascii "register")),
        plain "inputAddress" (.string (ascii "7"))] t v) := by
    rintro ⟨-, t, v, h⟩
    have hkey := List.mem_map_of_mem (f := Entry.key) h.value_mem
    rw [h.value_key] at hkey
    exact absurd hkey (by decide +kernel)
  exact (member_order_iff .condition hes (by decide +kernel) hpass (by decide +kernel)).mpr hno _
    (List.Perm.swap _ _ [])

/-- A time of day that stands before the input type is read as the number of its hours. -/
theorem value_before_inputType :
    objectText [plain "inputType" (.string (ascii "time")),
        plain "value" (.string (ascii "12:30"))] =
        ascii "\x7b\"inputType\":\"time\",\"value\":\"12:30\"\x7d" ∧
      (parseRuleCondition 200 (.inside (ascii
        "\x7b\"inputType\":\"time\",\"value\":\"12:30\"\x7d"))).toOption.map
          (fun read => (read.1.inputType, read.1.valueNumber)) = some (.time, 45000) ∧
      objectText [plain "value" (.string (ascii "12:30")),
        plain "inputType" (.string (ascii "time"))] =
        ascii "\x7b\"value\":\"12:30\",\"inputType\":\"time\"\x7d" ∧
      (parseRuleCondition 200 (.inside (ascii
        "\x7b\"value\":\"12:30\",\"inputType\":\"time\"\x7d"))).toOption.map
          (fun read => (read.1.inputType, read.1.valueNumber)) = some (.time, 12) ∧
      (45000 : Float) ≠ 12 := by
  decide +kernel

end InverterMonitor.Rules
