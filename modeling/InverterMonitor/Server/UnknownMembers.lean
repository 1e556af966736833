import InverterMonitor.Server.SkippedValues

/-!
# Members with unknown keys

The readers of rules, conditions and commands pass over the value of a member
whose key they do not know.

* `ObjectAt.resume`: a change in an object that its reader does not notice changes
  no result;
* `insert_ignored`: a member whose value is filled can be put anywhere in an
  accepted text;
* `unknown_members_ignored_iff`: with an empty array or object it cannot.
-/

namespace InverterMonitor.Rules
open Text Cxx Json JsonTree

/-! ## Objects of a rule file -/

/-- The objects that are read member by member. -/
inductive Level
  | rule | condition | command
  deriving DecidableEq, Repr

namespace Level

def State : Level → Type
  | rule => Rule
  | condition => RuleCondition
  | command => RuleCommand

def initial : (l : Level) → l.State
  | rule => ({} : Rule)
  | condition => ({} : RuleCondition)
  | command => ({} : RuleCommand)

def member (bound : Nat) : (l : Level) → Bytes → l.State → Cursor →
    Except Failure (l.State × Cursor)
  | rule => ruleMember bound
  | condition => conditionMember bound
  | command => commandMember bound

/-- The keys that are compared with, in lower case. -/
def keys : Level → List Bytes
  | rule => [ascii "id", ascii "enabled", ascii "name", ascii "conditions", ascii "commands"]
  | condition => [ascii "inputtype", ascii "inputaddress", ascii "operator", ascii "valuetype",
      ascii "valueaddress", ascii "value"]
  | command => [ascii "type", ascii "data", ascii "address"]

/-- The items of the loop over the members. -/
def items (bound : Nat) (l : Level) : l.State → Cursor → Except Failure (l.State × Cursor) :=
  memberItem (l.member bound)

theorem member_unknown {l : Level} {key : Bytes} (h : key ∉ l.keys) (bound : Nat) (st : l.State)
    (c : Cursor) : l.member bound key st c = passing (skipJsonValue bound) st c := by
  cases l with
  | rule =>
    simp only [keys, List.mem_cons, List.not_mem_nil, or_false, not_or] at h
    simp only [member, ruleMember, h, ↓reduceIte]
    rfl
  | condition =>
    simp only [keys, List.mem_cons, List.not_mem_nil, or_false, not_or] at h
    simp only [member, conditionMember, h, ↓reduceIte]
    rfl
  | command =>
    simp only [keys, List.mem_cons, List.not_mem_nil, or_false, not_or] at h
    simp only [member, commandMember, h, ↓reduceIte]
    rfl

end Level

/-! ## The readers of members are local -/

section

variable {α β : Type} {t t' : Bytes}

theorem parseUInt32_local (ht : t ≠ []) (hbound : Bound t) (hbound' : Bound t') :
    Local t t' parseUInt32 := by
  refine (parseJsonValueAsString_local ht hbound hbound').convert fun value => ?_
  cases hn : stoul value.text with
  | ok n => exact Or.inl ⟨n.toUInt32, fun c => by simp [hn]⟩
  | error e => exact Or.inr fun c => ⟨.raised e, by simp [hn]⟩

theorem conditionMember_local (ht : t ≠ []) (hbound : Bound t) (hbound' : Bound t')
    (bound : Nat) (key : Bytes) (condition : RuleCondition) :
    Local t t' (conditionMember bound key condition) := by
  have hvalue := parseJsonValueAsString_local ht hbound hbound'
  have hnumber := parseUInt32_local ht hbound hbound'
  unfold conditionMember
  refine .ite (hvalue.value fun value =>
    { condition with inputType := parseConditionInputType value.text }) (.ite ?_ ?_)
  · exact hnumber.value fun n => { condition with inputAddress := n }
  refine .ite (hvalue.value fun value =>
    { condition with op := parseConditionOperator value.text }) (.ite ?_ (.ite ?_ (.ite ?_ ?_)))
  · exact hvalue.value fun value =>
      { condition with valueInputType := parseConditionInputType value.text }
  · exact hnumber.value fun n => { condition with valueInputAddress := n }
  · refine hvalue.convert fun value => ?_
    cases hc : conditionValue condition value with
    | ok condition => exact Or.inl ⟨condition, fun c => by simp [hc]⟩
    | error e => exact Or.inr fun c => ⟨e, by simp [hc]⟩
  · exact (skip_local ht hbound hbound' bound).1.passing condition

theorem commandMember_local (ht : t ≠ []) (hbound : Bound t) (hbound' : Bound t')
    (bound : Nat) (key : Bytes) (command : RuleCommand) :
    Local t t' (commandMember bound key command) := by
  have hvalue := parseJsonValueAsString_local ht hbound hbound'
  have hnumber := parseUInt32_local ht hbound hbound'
  unfold commandMember
  refine .ite ?_ (.ite ?_ (.ite ?_ ?_))
  · exact hvalue.value fun value => { command with type := parseCommandType value.text }
  · exact hvalue.value fun value => { command with data := value.text }
  · exact hnumber.value fun n => { command with address := n }
  · exact (skip_local ht hbound hbound' bound).1.passing command

theorem ruleMember_local (ht : t ≠ []) (hbound : Bound t) (hbound' : Bound t') (bound : Nat)
    (key : Bytes) (rule : Rule) : Local t t' (ruleMember bound key rule) := by
  have hcondition : Local t t' (parseRuleCondition bound) :=
    parseObject_local ht hbound hbound' (conditionMember_local ht hbound hbound' bound) bound {}
  have hcommand : Local t t' (parseRuleCommand bound) :=
    parseObject_local ht hbound hbound' (commandMember_local ht hbound hbound' bound) bound {}
  unfold ruleMember
  refine .ite ?_ (.ite ?_ (.ite ?_ (.ite ?_ (.ite ?_ ?_))))
  · exact (parseUInt32_local ht hbound hbound').value fun n => { rule with id := n }
  · have hread := (parseJsonBool_local ht hbound hbound').value fun value =>
      { rule with enabled := value }
    refine hread.congr fun c => ?_
    cases parseJsonBool c <;> rfl
  · exact (parseJsonString_local ht hbound hbound').value fun value => { rule with name := value }
  · exact (parseArray_local ht hcondition pushBack bound).value fun conditions =>
      { rule with conditions := conditions }
  · exact (parseArray_local ht hcommand pushBack bound).value fun commands =>
      { rule with commands := commands }
  · exact (skip_local ht hbound hbound' bound).1.passing rule

end

theorem conditionMember_extends {bound bound' : Nat} (h : bound ≤ bound') (key : Bytes)
    (condition : RuleCondition) (c : Cursor) :
    Extends (conditionMember bound key condition c) (conditionMember bound' key condition c) := by
  unfold conditionMember
  exact .ite (.refl _) (.ite (.refl _) (.ite (.refl _) (.ite (.refl _) (.ite (.refl _)
    (.ite (.refl _) (passing_extends h condition c))))))

theorem commandMember_extends {bound bound' : Nat} (h : bound ≤ bound') (key : Bytes)
    (command : RuleCommand) (c : Cursor) :
    Extends (commandMember bound key command c) (commandMember bound' key command c) := by
  unfold commandMember
  exact .ite (.refl _) (.ite (.refl _) (.ite (.refl _) (passing_extends h command c)))

theorem ruleMember_extends {bound bound' : Nat} (h : bound ≤ bound') (key : Bytes) (rule : Rule)
    (c : Cursor) : Extends (ruleMember bound key rule c) (ruleMember bound' key rule c) := by
  have hcondition : ∀ c, Extends (parseRuleCondition bound c) (parseRuleCondition bound' c) :=
    parseObject_extends (conditionMember_extends h) h {}
  have hcommand : ∀ c, Extends (parseRuleCommand bound c) (parseRuleCommand bound' c) :=
    parseObject_extends (commandMember_extends h) h {}
  unfold ruleMember
  refine .ite (.refl _) (.ite (.refl _) (.ite (.refl _) (.ite ?_ (.ite ?_
    (passing_extends h rule c)))))
  · exact (parseArray_extends hcondition h pushBack c).bind fun _ => .refl _
  · exact (parseArray_extends hcommand h pushBack c).bind fun _ => .refl _

/-! ## Places for a member -/

/-- `parseRulesArray` reads an object of the level whose members begin at the cursor. -/
inductive ObjectAt (data : Bytes) : Level → Cursor → Prop
  | rule {c₀ c d : Cursor} {rules : List Rule} :
      expect '[' (.inside data) = .ok ((), c₀) →
      Heads ']' (elementItem (parseRuleObject (loopBound data)) pushRule) [] c₀ rules c →
      expect '{' (skipWhitespace c) = .ok ((), d) → ObjectAt data .rule d
  | condition {d c e c₀ c' d' : Cursor} {rule : Rule} {conditions : List RuleCondition} :
      ObjectAt data .rule d →
      Heads '}' (memberItem (ruleMember (loopBound data))) {} d rule c →
      readKey (skipWhitespace c) = .ok (ascii "conditions", e) →
      expect '[' e = .ok ((), c₀) →
      Heads ']' (elementItem (parseRuleCondition (loopBound data)) pushBack) [] c₀ conditions c' →
      expect '{' (skipWhitespace c') = .ok ((), d') → ObjectAt data .condition d'
  | command {d c e c₀ c' d' : Cursor} {rule : Rule} {commands : List RuleCommand} :
      ObjectAt data .rule d →
      Heads '}' (memberItem (ruleMember (loopBound data))) {} d rule c →
      readKey (skipWhitespace c) = .ok (ascii "commands", e) →
      expect '[' e = .ok ((), c₀) →
      Heads ']' (elementItem (parseRuleCommand (loopBound data)) pushBack) [] c₀ commands c' →
      expect '{' (skipWhitespace c') = .ok ((), d') → ObjectAt data .command d'

/-- Where a member can be put: before the others, or behind the value of one. -/
inductive Site
  | first | after
  deriving DecidableEq, Repr

/-- The text from a site on, once the member stands there. -/
def Site.insert (member rest : Bytes) : Site → Bytes
  | first =>
    member ++ (if (skipSpaces rest).head? = some ('}' : Byte) then rest else (',' : Byte) :: rest)
  | after => (',' : Byte) :: (member ++ rest)

/-- `rest` follows the site in an object that `parseRulesArray` reads. -/
inductive Place (data : Bytes) (l : Level) : Site → Bytes → Prop
  | first {rest : Bytes} : ObjectAt data l (.inside rest) → Place data l .first rest
  | after {d c : Cursor} {st st' : l.State} {rest : Bytes} : ObjectAt data l d →
      Heads '}' (l.items (loopBound data)) l.initial d st c →
      Takes '}' (l.items (loopBound data)) st c st' (.inside rest) → Place data l .after rest

section

variable {t t' : Bytes}

theorem Level.member_local (ht : t ≠ []) (hbound : Bound t) (hbound' : Bound t') (bound : Nat)
    (l : Level) (key : Bytes) (st : l.State) : Local t t' (l.member bound key st) := by
  cases l with
  | rule => exact ruleMember_local ht hbound hbound' bound key st
  | condition => exact conditionMember_local ht hbound hbound' bound key st
  | command => exact commandMember_local ht hbound hbound' bound key st

theorem Level.member_extends {bound bound' : Nat} (h : bound ≤ bound') (l : Level) (key : Bytes)
    (st : l.State) (c : Cursor) : Extends (l.member bound key st c) (l.member bound' key st c) := by
  cases l with
  | rule => exact ruleMember_extends h key st c
  | condition => exact conditionMember_extends h key st c
  | command => exact commandMember_extends h key st c

theorem parseRulesArray_eq_ok {data : Bytes} {rules : List Rule} :
    parseRulesArray data = .ok rules ↔
      ∃ c, parseArray (parseRuleObject (loopBound data)) pushRule (loopBound data) (.inside data) =
        .ok (rules, c) := by
  unfold parseRulesArray
  cases parseArray (parseRuleObject (loopBound data)) pushRule (loopBound data)
      (.inside data) with
  | error e => simp [Except.map]
  | ok r =>
    obtain ⟨rules', c⟩ := r
    simp [Except.map]

theorem parseRulesArray_extends {data data' : Bytes}
    (h : Extends (parseArray (parseRuleObject (loopBound data)) pushRule (loopBound data)
      (.inside data)) (parseArray (parseRuleObject (loopBound data')) pushRule (loopBound data')
      (.inside data'))) : Extends (parseRulesArray data) (parseRulesArray data') := by
  intro rules hrules
  obtain ⟨c, hread⟩ := parseRulesArray_eq_ok.mp hrules
  exact parseRulesArray_eq_ok.mpr ⟨c, h _ hread⟩

theorem parseObject_member_local (ht : t ≠ []) (hbound : Bound t) (hbound' : Bound t') (l : Level)
    (n bound : Nat) (st : l.State) : Local t t' (parseObject (l.member n) bound st) :=
  parseObject_local ht hbound hbound' (l.member_local ht hbound hbound' n) bound st

/-- A run into an object of a list in a rule. -/
theorem resume_list (ht : t ≠ []) (hbound : Bound t) (hbound' : Bound t') {n n' : Nat}
    (hlt : n < n') (l : Level) {key : Bytes} (keep : Rule → List l.State → Rule)
    {push : List l.State → l.State → List l.State}
    (hkey : ∀ n rule c, ruleMember n key rule c =
      (parseArray (parseObject (l.member n) n l.initial) push n c >>= fun r =>
        .ok (keep rule r.1, r.2)))
    {v : Bytes} {c e c₀ c' d' : Cursor} {rule : Rule} {out : List l.State}
    (hheads : Heads '}' (memberItem (ruleMember n)) {} (.inside (v ++ t)) rule c)
    (hread : readKey (skipWhitespace c) = .ok (key, e)) (hopen : expect '[' e = .ok ((), c₀))
    (hlist : Heads ']' (elementItem (parseObject (l.member n) n l.initial) push) [] c₀ out c')
    (hbrace : expect '{' (skipWhitespace c') = .ok ((), d')) (hleft : t.length ≤ d'.left) :
    ∃ u, d' = .inside (u ++ t) ∧
      (Resumes '}' (l.items n) (l.items n') l.initial d' (.inside (u ++ t')) →
        Resumes '}' (memberItem (ruleMember n)) (memberItem (ruleMember n')) {}
          (.inside (v ++ t)) (.inside (v ++ t'))) := by
  have hobject := parseObject_member_local ht hbound hbound' l n
  have h₁ := hlist.left_read_le (elementItem_local (hobject n l.initial) push)
    (expect_local ht '{') hbrace
  have hlocal : Local t t' (expect '[') := expect_local ht '['
  have h₂ := hlocal.strict hopen
  obtain ⟨x, rfl, hvalue⟩ := hheads.resume_value ht hbound hbound'
    (ruleMember_local ht hbound hbound' n) (ruleMember_extends (Nat.le_of_lt hlt)) hread
    (by omega)
  obtain ⟨y, rfl, harray⟩ := @resume_array _ t t' ht _ _ _ _ _ hlt _ _ hopen (by omega)
  obtain ⟨u, hd, hobjects⟩ := hlist.resume_object ht hobject
    (l.member_extends (Nat.le_of_lt hlt)) hlt hbrace hleft
  refine ⟨u, hd, fun hrest => hvalue ?_⟩
  rw [hkey, hkey]
  exact (harray (hobjects hrest)).bind fun _ => .refl _

theorem left_list_le (ht : t ≠ []) (hbound : Bound t) (hbound' : Bound t') {n : Nat} {α : Type}
    {key : Bytes} {d c e c₀ c' d' : Cursor} {rule : Rule}
    {element : Cursor → Except Failure (α × Cursor)} {push : List α → α → List α} {out : List α}
    (helement : Local t t' element)
    (hheads : Heads '}' (memberItem (ruleMember n)) {} d rule c)
    (hread : readKey (skipWhitespace c) = .ok (key, e)) (hopen : expect '[' e = .ok ((), c₀))
    (hlist : Heads ']' (elementItem element push) [] c₀ out c')
    (hbrace : expect '{' (skipWhitespace c') = .ok ((), d')) : d'.left ≤ d.left := by
  have h₁ := hheads.left_read_le
    (memberItem_local ht hbound hbound' (ruleMember_local ht hbound hbound' n))
    (readKey_local ht hbound hbound') hread
  have hlocal : Local t t' (expect '[') := expect_local ht '['
  have h₂ := hlocal.strict hopen
  have h₃ := hlist.left_read_le (elementItem_local helement push) (expect_local ht '{') hbrace
  omega

theorem ObjectAt.resume (ht : t ≠ []) (hbound : Bound t) (hbound' : Bound t')
    (hlonger : t.length < t'.length) {w : Bytes} {l : Level} {d : Cursor}
    (h : ObjectAt (w ++ t) l d) (hleft : t.length ≤ d.left) :
    ∃ v, d = .inside (v ++ t) ∧
      (Resumes '}' (l.items (loopBound (w ++ t))) (l.items (loopBound (w ++ t'))) l.initial d
          (.inside (v ++ t')) →
        Extends (parseRulesArray (w ++ t)) (parseRulesArray (w ++ t'))) := by
  have hlt : loopBound (w ++ t) < loopBound (w ++ t') := by
    simp only [loopBound, List.length_append]
    omega
  have hobject := fun l : Level => parseObject_member_local ht hbound hbound' l (loopBound (w ++ t))
  have hmember := fun l : Level => l.member_extends (Nat.le_of_lt hlt)
  induction h with
  | @rule c₀ c d rules hopen hheads hbrace =>
    have hle := hheads.left_read_le (elementItem_local (hobject .rule _ _) pushRule)
      (expect_local ht '{') hbrace
    obtain ⟨v₀, rfl, hlist⟩ := @resume_array _ t t' ht _ _ _ _ _ hlt _ _ hopen (by omega)
    obtain ⟨v, hd, hobjects⟩ := hheads.resume_object ht (hobject .rule) (hmember .rule) hlt hbrace
      hleft
    exact ⟨v, hd, fun hrest => parseRulesArray_extends (hlist (hobjects hrest))⟩
  | @condition d c e c₀ c' d' rule conditions _ hheads hkey hopen hlist hbrace ih =>
    have hle := left_list_le ht hbound hbound' (hobject .condition _ _) hheads hkey hopen hlist hbrace
    obtain ⟨v, rfl, hrule⟩ := ih (le_trans hleft hle)
    obtain ⟨u, hd, hcondition⟩ := resume_list ht hbound hbound' hlt .condition
      (fun rule conditions => { rule with conditions := conditions }) (fun _ _ _ => rfl) hheads hkey hopen hlist
      hbrace hleft
    exact ⟨u, hd, fun hrest => hrule (hcondition hrest)⟩
  | @command d c e c₀ c' d' rule commands _ hheads hkey hopen hlist hbrace ih =>
    have hle := left_list_le ht hbound hbound' (hobject .command _ _) hheads hkey hopen hlist hbrace
    obtain ⟨v, rfl, hrule⟩ := ih (le_trans hleft hle)
    obtain ⟨u, hd, hcommand⟩ := resume_list ht hbound hbound' hlt .command
      (fun rule commands => { rule with commands := commands }) (fun _ _ _ => rfl) hheads hkey hopen hlist
      hbrace hleft
    exact ⟨u, hd, fun hrest => hrule (hcommand hrest)⟩

end

/-- Where the text is accepted, its objects are read to their ends. -/
theorem ObjectAt.ends {data : Bytes} {rules : List Rule}
    (haccepted : parseRulesArray data = .ok rules) {l : Level} {d : Cursor}
    (h : ObjectAt data l d) :
    ∃ fuel r, readItems '}' (l.items (loopBound data)) fuel l.initial d = .ok r := by
  induction h with
  | rule hopen hheads hbrace =>
    obtain ⟨_, hread⟩ := parseRulesArray_eq_ok.mp haccepted
    exact ⟨_, hheads.object_ends hbrace (array_ends hopen hread)⟩
  | @condition _ _ _ _ _ _ rule _ _ hheads hkey hopen hlist hbrace ih =>
    obtain ⟨fuel, r, hread⟩ := ih
    obtain ⟨r', hvalue⟩ := hheads.member_ends hkey hread
    obtain ⟨conditions, hconditions, _⟩ := bind_eq_ok.mp hvalue
    exact ⟨_, hlist.object_ends hbrace (array_ends hopen hconditions)⟩
  | @command _ _ _ _ _ _ rule _ _ hheads hkey hopen hlist hbrace ih =>
    obtain ⟨fuel, r, hread⟩ := ih
    obtain ⟨r', hvalue⟩ := hheads.member_ends hkey hread
    obtain ⟨commands, hcommands, _⟩ := bind_eq_ok.mp hvalue
    exact ⟨_, hlist.object_ends hbrace (array_ends hopen hcommands)⟩

/-! ## Reading a member with an unknown key -/

theorem readKey_name {name : Name} (h : name.WellFormed) (s : Bytes) :
    readKey (skipWhitespace (.inside (name.text ++ s))) =
      .ok (lower (spelled name.key), .inside (name.afterColon ++ s)) := by
  have hcolon := consumeChar_gap (name.afterColon ++ s) h.beforeColon
    (show isSpace ':' = false by decide)
  have hkey := parseJsonString_quoted_body h.key
    (name.beforeColon ++ (':' : Byte) :: (name.afterColon ++ s))
  simp only [Name.text, List.append_assoc, List.cons_append]
  rw [readKey, skipWhitespace_blank _ h.before, parseJsonString_skipWhitespace, hkey]
  simp only [orReject, ok_bind, expect, hcolon, ↓reduceIte, pure_eq_ok]

theorem head_name {name : Name} (h : name.WellFormed) (s : Bytes) :
    (skipWhitespace (.inside (name.text ++ s))).rest.head? = some ('"' : Byte) := by
  simp only [Name.text, quoted, List.append_assoc, List.cons_append]
  rw [skipWhitespace_gap _ h.before (by decide)]
  rfl

/-- A member whose key is unknown and whose value is filled leaves the state as it is. -/
theorem takes_unknown {l : Level} {name : Name} {v : Tree .value} {gap s : Bytes}
    (hname : name.WellFormed) (hkey : lower (spelled name.key) ∉ l.keys) (hv : v.WellFormed)
    (hfilled : v.filled = true) (hs : Bound (gap ++ s)) {bound : Nat}
    (hbound : 2 * (name.text ++ (v.text ++ (gap ++ s))).length + 1 ≤ bound) (st : l.State) :
    Takes '}' (l.items bound) st (.inside (name.text ++ (v.text ++ (gap ++ s)))) st
      (.inside (gap ++ s)) := by
  refine ⟨⟨'"', head_name hname _, by decide⟩, ?_⟩
  have hlen : (name.afterColon ++ (v.text ++ (gap ++ s))).length ≤
      (name.text ++ (v.text ++ (gap ++ s))).length := by
    simp only [Name.text, List.length_append, List.length_cons]
    omega
  rw [Level.items, memberItem, readKey_name hname]
  change l.member bound (lower (spelled name.key)) st _ = _
  rw [Level.member_unknown hkey]
  exact passing_eq_ok.mpr
    ⟨skipJsonValue_filled hv hfilled hname.afterColon hs (by omega), rfl⟩

theorem skipComma_blank {gap : Bytes} (s : Bytes) (h : Blank gap) :
    skipComma (.inside (gap ++ s)) = skipComma (.inside s) := by
  simp only [skipComma, consumeChar, skipWhitespace_blank s h]

section

variable {l : Level} {name : Name} {v : Tree .value} {gap rest : Bytes} {bound bound' : Nat}

/-- The text of the member, with white space behind its value. -/
def insertedText (name : Name) (v : Tree .value) (gap : Bytes) : Bytes :=
  name.text ++ (v.text ++ gap)

theorem resumes_first (hname : name.WellFormed) (hkey : lower (spelled name.key) ∉ l.keys)
    (hv : v.WellFormed) (hfilled : v.filled = true) (hgap : Blank gap) (hrest : Bound rest)
    (hle : bound ≤ bound')
    (hbound : 2 * (Site.first.insert (insertedText name v gap) rest).length + 1 ≤ bound')
    (st : l.State) :
    Resumes '}' (l.items bound) (l.items bound') st (.inside rest)
      (.inside (Site.first.insert (insertedText name v gap) rest)) := by
  intro fuel fuel' hlt
  obtain ⟨fuel', rfl⟩ : ∃ n, fuel' = n + 1 := ⟨fuel' - 1, by omega⟩
  have hext := @readItems_extends _ '}' _ _ (memberItem_extends (l.member_extends hle))
    _ _ (Nat.le_of_lt_succ hlt) st (.inside rest)
  by_cases hlast : (skipSpaces rest).head? = some ('}' : Byte)
  · simp only [Site.insert, hlast, ↓reduceIte, insertedText, List.append_assoc] at hbound ⊢
    have htakes := takes_unknown hname hkey hv hfilled (bound_blank hgap hrest) hbound st
    have hcomma : skipComma (.inside rest) = skipWhitespace (.inside rest) := by
      have hne : some ('}' : Byte) ≠ some (',' : Byte) := by decide
      simp only [skipComma, consumeChar, skipWhitespace, Cursor.rest_inside, hlast, hne, ↓reduceIte]
    rw [htakes.round, skipComma_blank rest hgap, hcomma, readItems_skipWhitespace]
    exact hext
  · simp only [Site.insert, hlast, ↓reduceIte, insertedText, List.append_assoc] at hbound ⊢
    have hcomma : Bound (gap ++ (',' : Byte) :: rest) :=
      bound_blank hgap (bound_cons rest (by decide))
    have htakes := takes_unknown hname hkey hv hfilled hcomma hbound st
    rw [htakes.round, skipComma_blank _ hgap, skipComma_comma]
    exact hext

theorem resumes_after (hname : name.WellFormed) (hkey : lower (spelled name.key) ∉ l.keys)
    (hv : v.WellFormed) (hfilled : v.filled = true) (hgap : Blank gap) (hrest : Bound rest)
    (hle : bound ≤ bound')
    (hbound : 2 * (Site.after.insert (insertedText name v gap) rest).length + 1 ≤ bound')
    {st st' : l.State} {c c' : Cursor}
    (htakes : Takes '}' (l.items bound) st c st' (.inside rest))
    (htakes' : Takes '}' (l.items bound') st c' st'
      (.inside (Site.after.insert (insertedText name v gap) rest))) :
    Resumes '}' (l.items bound) (l.items bound') st c c' := by
  intro fuel fuel' hlt
  cases fuel with
  | zero =>
    intro a ha
    cases ha
  | succ fuel =>
    obtain ⟨fuel', rfl⟩ : ∃ n, fuel' = n + 2 := ⟨fuel' - 2, by omega⟩
    simp only [Site.insert, insertedText, List.append_assoc, List.length_cons] at hbound htakes'
    have hlen : 2 * (name.text ++ (v.text ++ (gap ++ rest))).length + 1 ≤ bound' := by omega
    have hunknown := takes_unknown hname hkey hv hfilled (bound_blank hgap hrest) hlen st'
    rw [htakes.round, htakes'.round, skipComma_comma, hunknown.round, skipComma_blank rest hgap]
    exact readItems_extends (memberItem_extends (l.member_extends hle)) (by omega) st' _

theorem bound_insert (hname : name.WellFormed) (site : Site) :
    Bound (site.insert (insertedText name v gap) rest) := by
  have hname' : ∀ s, Bound (name.text ++ s) := fun s => by
    simp only [Name.text, quoted, List.append_assoc, List.cons_append]
    exact bound_blank hname.before (bound_cons _ (by decide))
  cases site with
  | first =>
    simp only [Site.insert, insertedText, List.append_assoc]
    exact hname' _
  | after => exact bound_cons _ (by decide)

theorem length_insert (site : Site) :
    rest.length < (site.insert (insertedText name v gap) rest).length := by
  cases site with
  | first =>
    have hle : rest.length ≤ (if (skipSpaces rest).head? = some ('}' : Byte) then rest
        else (',' : Byte) :: rest).length := by
      split <;> simp
    simp only [Site.insert, insertedText, Name.text, quoted, List.length_append, List.length_cons]
    omega
  | after =>
    simp only [Site.insert, List.length_append, List.length_cons]
    omega

/-- A member with an unknown key and a filled value changes no result. -/
theorem insert_ignored {before : Bytes} {rules : List Rule}
    (haccepted : parseRulesArray (before ++ rest) = .ok rules) {site : Site}
    (hplace : Place (before ++ rest) l site rest) (hname : name.WellFormed)
    (hkey : lower (spelled name.key) ∉ l.keys) (hv : v.WellFormed) (hfilled : v.filled = true)
    (hgap : Blank gap) :
    parseRulesArray (before ++ site.insert (insertedText name v gap) rest) = .ok rules := by
  have hlonger : rest.length < (site.insert (insertedText name v gap) rest).length :=
    length_insert site
  have hbound' : Bound (site.insert (insertedText name v gap) rest) := bound_insert hname site
  have hlen : 2 * (site.insert (insertedText name v gap) rest).length + 1 ≤
      loopBound (before ++ site.insert (insertedText name v gap) rest) := by
    simp only [loopBound, List.length_append]
    omega
  have hle : loopBound (before ++ rest) ≤
      loopBound (before ++ site.insert (insertedText name v gap) rest) := by
    simp only [loopBound, List.length_append]
    omega
  cases hplace with
  | first hobject =>
    obtain ⟨fuel, r, hread⟩ := hobject.ends haccepted
    obtain ⟨hne, hbound⟩ := bound_of_readItems hread
    obtain ⟨u, hu, hresume⟩ := hobject.resume hne hbound hbound' hlonger (le_refl _)
    obtain rfl : u = [] := List.self_eq_append_left.mp (Cursor.inside.inj hu)
    exact hresume (resumes_first hname hkey hv hfilled hgap hbound hle hlen _) rules haccepted
  | @after d c st st' _ hobject hheads htakes =>
    obtain ⟨fuel, r, hread⟩ := hobject.ends haccepted
    obtain ⟨fuel', hend⟩ := hheads.ends hread
    obtain ⟨hne, hbound⟩ : rest ≠ [] ∧ Bound rest := by
      cases fuel' with
      | zero => cases hend
      | succ fuel' =>
        rw [htakes.round] at hend
        exact bound_of_skipComma hend
    have hlocal := memberItem_local hne hbound hbound'
      (l.member_local hne hbound hbound' (loopBound (before ++ rest)))
    have hext := memberItem_extends (l.member_extends hle)
    have hback := (hlocal st).strict htakes.read
    have hspace := left_skipWhitespace_le c
    have hpos := List.length_pos_iff.mpr hne
    have hheadsle := hheads.left_le hlocal
    rw [Cursor.left_inside] at hback
    obtain ⟨w, rfl, hresume⟩ := hobject.resume hne hbound hbound' hlonger (by omega)
    obtain ⟨u, rfl, hhead⟩ := hheads.resume hne hlocal hext (by omega)
    obtain ⟨x, hx, htakes'⟩ := htakes.resume hne hlocal hext (le_refl _)
    obtain rfl : x = [] := List.self_eq_append_left.mp (Cursor.inside.inj hx)
    exact hresume (hhead (resumes_after hname hkey hv hfilled hgap hbound hle hlen htakes htakes'))
      rules haccepted

end

/-! ## Which values can be inserted -/

/-- A member with this value and an unknown key can be put anywhere in an accepted text. -/
def Ignored (v : Tree .value) : Prop :=
  ∀ (before rest : Bytes) (rules : List Rule) (l : Level) (site : Site) (name : Name) (gap : Bytes),
    parseRulesArray (before ++ rest) = .ok rules → Place (before ++ rest) l site rest →
    name.WellFormed → lower (spelled name.key) ∉ l.keys → Blank gap →
    parseRulesArray (before ++ site.insert (insertedText name v gap) rest) = .ok rules

/-- Behind an empty array or object the loop of a rule is lost. -/
theorem skips_hollow {v : Tree .value} (h : v.WellFormed) (hhollow : v.isHollow = true) :
    ∃ d, SkipsTo skipJsonValue (.inside (v.text ++ ascii "\x7d]")) d ∧
      ∀ (bound fuel : Nat) (rule : Rule) r,
        readItems '}' (memberItem (ruleMember bound)) fuel rule (skipComma d) ≠ .ok r := by
  cases v with
  | emptyArray gap =>
    refine ⟨.beyond 0, ?_, fun bound fuel rule r hread => by cases fuel <;> cases hread⟩
    have hend : SkipsTo (skipElements ']') (.inside (ascii "]")) (.beyond 0) := by
      refine ⟨2, fun m hm => ?_⟩
      obtain ⟨m, rfl⟩ : ∃ k, m = k + 2 := ⟨m - 2, by omega⟩
      rfl
    simp only [Tree.text, List.append_assoc, List.cons_append]
    refine .array (.more (by decide) (show isSpace '}' = false by decide) (by decide)
      (by simp [ascii]) blank_nil (.blank h ?_) hend)
    exact .of_succ ⟨0, fun m _ => skipJsonValue_close (Or.inl rfl) m _⟩
  | emptyObject gap =>
    refine ⟨.inside (ascii "]"), ?_, fun bound fuel rule r hread => by cases fuel <;> cases hread⟩
    simp only [Tree.text, List.append_assoc, List.cons_append]
    refine .object (.last (by decide) (by decide) (by simp [ascii]) blank_nil
      (.blank h ?_))
    exact .of_succ ⟨0, fun m _ => skipJsonValue_close (Or.inr rfl) m _⟩
  | null | bool | number | string | array | object => cases hhollow

theorem not_ignored_hollow {v : Tree .value} (h : v.WellFormed) (hhollow : v.isHollow = true) :
    ¬Ignored v := by
  intro hignored
  obtain ⟨d, hskip, hlost⟩ := skips_hollow h hhollow
  have hname : (⟨[], ascii "x", [], []⟩ : Name).WellFormed :=
    ⟨blank_nil, by decide, blank_nil, blank_nil⟩
  have haccepted : ∃ rules, parseRulesArray (ascii "[\x7b" ++ ascii "\x7d]") = .ok rules :=
    ⟨_, rfl⟩
  obtain ⟨rules, haccepted⟩ := haccepted
  have hobject : ∀ s, ObjectAt (ascii "[\x7b" ++ s) .rule (.inside s) :=
    fun s => @ObjectAt.rule _ (.inside (ascii "\x7b" ++ s)) _ _ _ rfl .start rfl
  have hread := hignored _ _ rules .rule .first _ [] haccepted (.first (hobject _)) hname
    (by decide) blank_nil
  have hinsert : Site.first.insert (insertedText ⟨[], ascii "x", [], []⟩ v []) (ascii "\x7d]") =
      ascii "\"x\":" ++ (v.text ++ ascii "\x7d]") := by
    simp only [Site.insert, insertedText, List.append_nil, List.append_assoc]
    rfl
  rw [hinsert] at hread
  obtain ⟨fuel, r, hend⟩ := (hobject _).ends hread
  have htakes : ∀ n, 2 * (v.text ++ ascii "\x7d]").length + 1 ≤ n →
      Takes '}' (memberItem (ruleMember n)) {} (.inside (ascii "\"x\":" ++ (v.text ++ ascii "\x7d]")))
        {} d := by
    intro n hn
    refine ⟨⟨'"', rfl, by decide⟩, ?_⟩
    have hkey : readKey (skipWhitespace (.inside (ascii "\"x\":" ++ (v.text ++ ascii "\x7d]")))) =
        .ok (ascii "x", .inside (v.text ++ ascii "\x7d]")) := rfl
    rw [memberItem, hkey]
    have hunknown : ascii "x" ∉ Level.rule.keys := by decide
    exact (Level.member_unknown hunknown n _ _).trans
      (passing_eq_ok.mpr ⟨hskip.within hn, rfl⟩)
  have hbound : 2 * (v.text ++ ascii "\x7d]").length + 1 ≤
      loopBound (ascii "[\x7b" ++ (ascii "\"x\":" ++ (v.text ++ ascii "\x7d]"))) := by
    simp only [loopBound, List.length_append]
    omega
  cases fuel with
  | zero => cases hend
  | succ fuel => exact hlost _ fuel {} r (((htakes _ hbound).round fuel).symm.trans hend)

/-- A value is ignored, with all the values in it, exactly when none of them is empty. -/
theorem unknown_members_ignored_iff (v : Tree .value) (hv : v.WellFormed) :
    ((∀ w ∈ v.values, Ignored w) ↔ v.filled = true) ∧
      ((∀ w ∈ v.values, SkippedExactly w) ↔ v.filled = true) := by
  refine ⟨?_, skippedExactly_iff hv⟩
  constructor
  · intro hignored
    rw [Tree.filled_iff]
    intro w hw
    cases hhollow : w.isHollow with
    | false => rfl
    | true =>
      exact absurd (hignored w hw)
        (not_ignored_hollow (Tree.wellFormed_of_mem hv hw) hhollow)
  · intro hfilled w hw before rest rules l site name gap haccepted hplace hname hkey hgap
    exact insert_ignored haccepted hplace hname hkey (Tree.wellFormed_of_mem hv hw)
      (Tree.filled_of_mem hfilled hw) hgap

/-- A member with a list in it. -/
theorem unknown_list_ignored :
    let list : Tree .value := .object (.lastMember ⟨[], ascii "a", [], []⟩
      (.array (.item [] (.bool true) [] (.lastItem [] .null []))) [])
    (∀ w ∈ list.values, Ignored w) ∧ ∀ w ∈ list.values, SkippedExactly w := by
  intro list
  have hname : (⟨[], ascii "a", [], []⟩ : Name).WellFormed :=
    ⟨blank_nil, by decide, blank_nil, blank_nil⟩
  have hlist : list.WellFormed :=
    ⟨hname, ⟨blank_nil, trivial, blank_nil, blank_nil, trivial, blank_nil⟩, blank_nil⟩
  have h := unknown_members_ignored_iff list hlist
  exact ⟨h.1.mpr rfl, h.2.mpr rfl⟩

/-- With an empty array under an unknown key, a rule list is not accepted any more. -/
theorem empty_array_not_ignored :
    parseRulesArray (ascii "[\x7b" ++ ascii "\"id\":1\x7d]") = .ok [{ id := 1 }] ∧
      Place (ascii "[\x7b" ++ ascii "\"id\":1\x7d]") .rule .first (ascii "\"id\":1\x7d]") ∧
      Site.first.insert (insertedText ⟨[], ascii "x", [], []⟩ (.emptyArray []) [])
        (ascii "\"id\":1\x7d]") = ascii "\"x\":[],\"id\":1\x7d]" ∧
      parseRulesArray (ascii "[\x7b" ++ ascii "\"x\":[],\"id\":1\x7d]") = .error .rejected := by
  refine ⟨by decide +kernel, ?_, by decide, by decide +kernel⟩
  exact .first (@ObjectAt.rule _ (.inside (ascii "\x7b\"id\":1\x7d]")) _ _ _ rfl .start rfl)

end InverterMonitor.Rules
