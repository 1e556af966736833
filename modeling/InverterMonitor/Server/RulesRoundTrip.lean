import InverterMonitor.Server.SaveRules

/-!
# When a saved rule list is read back unchanged

* `parseRulesArray_readable`: what every parsed list satisfies;
* `saved_rules_reload_iff`: a parsed list, with any enabled flags, is read back
  with the same meaning exactly when all its rules are `RuleSaveable`;
* `saved_rules_unreadable`: one that is not.
-/

namespace InverterMonitor.Rules
open Text Cxx Json Registers

/-! ## What a parsed list satisfies -/

/-- A member loop keeps what reading one member keeps. -/
theorem parseMembers_keeps {σ : Type} {P : σ → Prop}
    {member : Bytes → σ → Cursor → Except Failure (σ × Cursor)}
    (hmember : ∀ key st c st' c', P st → member key st c = .ok (st', c') → P st')
    {fuel : Nat} {st st' : σ} {c c' : Cursor} (hst : P st)
    (h : parseMembers member fuel st c = .ok (st', c')) : P st' := by
  induction fuel generalizing st c with
  | zero => cases h
  | succ fuel ih =>
    simp only [parseMembers] at h
    split at h
    · cases h
    · next b s _ =>
      split at h
      · cases h
        exact hst
      · obtain ⟨⟨key, c⟩, _, h⟩ := bind_eq_ok.mp h
        split at h
        · cases h
        · obtain ⟨⟨st, c⟩, hread, h⟩ := bind_eq_ok.mp h
          exact ih (hmember _ _ _ _ _ hst hread) h

theorem parseObject_keeps {σ : Type} {P : σ → Prop}
    {member : Bytes → σ → Cursor → Except Failure (σ × Cursor)}
    (hmember : ∀ key st c st' c', P st → member key st c = .ok (st', c') → P st')
    {bound : Nat} {st st' : σ} {c c' : Cursor} (hst : P st)
    (h : parseObject member bound st c = .ok (st', c')) : P st' := by
  simp only [parseObject] at h
  split at h
  · cases h
  · exact parseMembers_keeps hmember hst h

theorem parseArray_keeps {α : Type} {P : α → Prop}
    {element : Cursor → Except Failure (α × Cursor)} {push : List α → α → List α}
    (hpush : ∀ out x c c', element c = .ok (x, c') → (∀ y ∈ out, P y) → ∀ y ∈ push out x, P y)
    {bound : Nat} {c c' : Cursor} {out : List α}
    (h : parseArray element push bound c = .ok (out, c')) : ∀ x ∈ out, P x := by
  have hloop : ∀ (fuel : Nat) (acc : List α) (c : Cursor), (∀ x ∈ acc, P x) →
      parseElements element push fuel acc c = .ok (out, c') → ∀ x ∈ out, P x := by
    intro fuel
    induction fuel with
    | zero =>
      intro acc c _ h
      cases h
    | succ fuel ih =>
      intro acc c hacc h
      simp only [parseElements] at h
      split at h
      · cases h
      · split at h
        · cases h
          exact hacc
        · obtain ⟨⟨x, c⟩, hread, h⟩ := bind_eq_ok.mp h
          exact ih _ _ (hpush _ _ _ _ hread hacc) h
  simp only [parseArray] at h
  split at h
  · cases h
  · exact hloop _ _ _ (by simp) h

theorem parseArray_pushBack_keeps {α : Type} {P : α → Prop}
    {element : Cursor → Except Failure (α × Cursor)}
    (helement : ∀ x c c', element c = .ok (x, c') → P x)
    {bound : Nat} {c c' : Cursor} {out : List α}
    (h : parseArray element pushBack bound c = .ok (out, c')) : ∀ x ∈ out, P x := by
  refine parseArray_keeps (fun out x c c' hread hout y hy => ?_) h
  rcases List.mem_append.mp hy with hy | hy
  · exact hout y hy
  · rw [List.mem_singleton.mp hy]
    exact helement _ _ _ hread

/-- A value that is not quoted is a numeral or one of three words. -/
theorem parseJsonValueAsString_bare {c c' : Cursor} {value : JsonText}
    (h : parseJsonValueAsString c = .ok (value, c')) (hbare : value.isString = false) :
    IsNumeral value.text ∨ value.text ∈ [ascii "true", ascii "false", []] := by
  simp only [parseJsonValueAsString] at h
  split at h
  · cases h
  · split at h
    · obtain ⟨⟨out, c⟩, _, h⟩ := bind_eq_ok.mp h
      cases h
      cases hbare
    · split at h
      · obtain ⟨⟨out, c⟩, hnumber, h⟩ := bind_eq_ok.mp h
        cases h
        left
        simp only [orReject] at hnumber
        split at hnumber
        · next hread =>
          cases hnumber
          simp only [parseJsonNumberAsString] at hread
          split at hread
          · obtain ⟨hread, _⟩ := Prod.mk.inj hread
            exact (numberToken_sound (Prod.ext hread rfl)).2
          · cases hread
        · cases hnumber
      · obtain ⟨⟨bool, c⟩, _, h⟩ := bind_eq_ok.mp h
        right
        split at h
        · cases h
          split <;> simp
        · obtain ⟨isNull, _, h⟩ := bind_eq_ok.mp h
          cases isNull with
          | true =>
            cases h
            simp
          | false => cases h

/-- The three words are no numbers, so a bare value is finite. -/
theorem stod_bare_isFinite {c c' : Cursor} {value : JsonText} {x : Float}
    (h : parseJsonValueAsString c = .ok (value, c')) (hbare : value.isString = false)
    (hx : stod value.text = .ok x) : isFinite x = true := by
  rcases parseJsonValueAsString_bare h hbare with hnumeral | hword
  · exact stod_isFinite hnumeral hx
  · simp only [List.mem_cons, List.not_mem_nil, or_false] at hword
    rcases hword with hword | hword | hword <;> rw [hword] at hx <;> cases hx

theorem conditionMember_keeps {bound : Nat} {key : Bytes} {condition condition' : RuleCondition}
    {c c' : Cursor} (hcondition : FiniteConstant condition)
    (h : conditionMember bound key condition c = .ok (condition', c')) :
    FiniteConstant condition' := by
  have hother : ∀ d : RuleCondition, d.valueIsString = condition.valueIsString →
      d.valueNumber = condition.valueNumber → FiniteConstant d := by
    intro d hstring hnumber hd
    rw [hnumber]
    exact hcondition (hstring ▸ hd)
  simp only [conditionMember] at h
  split at h
  · obtain ⟨⟨value, c⟩, _, h⟩ := bind_eq_ok.mp h
    cases h
    exact hother _ rfl rfl
  split at h
  · obtain ⟨⟨n, c⟩, _, h⟩ := bind_eq_ok.mp h
    cases h
    exact hother _ rfl rfl
  split at h
  · obtain ⟨⟨value, c⟩, _, h⟩ := bind_eq_ok.mp h
    cases h
    exact hother _ rfl rfl
  split at h
  · obtain ⟨⟨value, c⟩, _, h⟩ := bind_eq_ok.mp h
    cases h
    exact hother _ rfl rfl
  split at h
  · obtain ⟨⟨n, c⟩, _, h⟩ := bind_eq_ok.mp h
    cases h
    exact hother _ rfl rfl
  split at h
  · obtain ⟨⟨value, c⟩, hvalue, h⟩ := bind_eq_ok.mp h
    obtain ⟨d, hd, h⟩ := bind_eq_ok.mp h
    cases h
    simp only [conditionValue] at hd
    split at hd
    · obtain ⟨number, _, hd⟩ := bind_eq_ok.mp hd
      cases hd
      intro hbare
      cases hbare
    · next hbare =>
      obtain ⟨number, hnumber, hd⟩ := bind_eq_ok.mp hd
      cases hd
      intro _
      have hstod : stod value.text = .ok number := raise_eq_ok.mp hnumber
      exact stod_bare_isFinite hvalue (by simpa using hbare) hstod
  · obtain ⟨c, _, h⟩ := bind_eq_ok.mp h
    cases h
    exact hcondition

theorem parseRuleCondition_finite {bound : Nat} {c c' : Cursor} {condition : RuleCondition}
    (h : parseRuleCondition bound c = .ok (condition, c')) : FiniteConstant condition :=
  parseObject_keeps (fun _ _ _ _ _ => conditionMember_keeps) (fun _ => by decide +kernel) h

/-- What a parsed rule satisfies, whatever the text. -/
structure Readable (r : Rule) : Prop where
  id_ne_zero : r.id ≠ 0
  finite : ∀ c ∈ r.conditions, FiniteConstant c

theorem ruleMember_keeps {bound : Nat} {key : Bytes} {rule rule' : Rule} {c c' : Cursor}
    (hrule : ∀ c ∈ rule.conditions, FiniteConstant c)
    (h : ruleMember bound key rule c = .ok (rule', c')) :
    ∀ c ∈ rule'.conditions, FiniteConstant c := by
  simp only [ruleMember] at h
  split at h
  · obtain ⟨⟨n, c⟩, _, h⟩ := bind_eq_ok.mp h
    cases h
    exact hrule
  split at h
  · obtain ⟨value, _, h⟩ := bind_eq_ok.mp h
    obtain ⟨⟨value, c⟩, _, h⟩ := bind_eq_ok.mp h
    cases h
    exact hrule
  split at h
  · obtain ⟨⟨value, c⟩, _, h⟩ := bind_eq_ok.mp h
    cases h
    exact hrule
  split at h
  · obtain ⟨⟨conditions, c⟩, hconditions, h⟩ := bind_eq_ok.mp h
    cases h
    exact parseArray_pushBack_keeps (fun _ _ _ => parseRuleCondition_finite) hconditions
  split at h
  · obtain ⟨⟨commands, c⟩, _, h⟩ := bind_eq_ok.mp h
    cases h
    exact hrule
  · obtain ⟨c, _, h⟩ := bind_eq_ok.mp h
    cases h
    exact hrule

theorem parseRuleObject_finite {bound : Nat} {c c' : Cursor} {rule : Rule}
    (h : parseRuleObject bound c = .ok (rule, c')) : ∀ c ∈ rule.conditions, FiniteConstant c :=
  parseObject_keeps (P := fun rule : Rule => ∀ c ∈ rule.conditions, FiniteConstant c)
    (fun _ _ _ _ _ => ruleMember_keeps) (by simp) h

theorem nextRuleId_ne_zero (existing : List Rule) : nextRuleId existing ≠ 0 := by
  have hfold : ∀ n : UInt32, n ≠ 0 →
      existing.foldl (fun nextId rule => max nextId (rule.id + 1)) n ≠ 0 := by
    induction existing with
    | nil => exact fun n hn => hn
    | cons r rules ih =>
      intro n hn
      refine ih _ ?_
      change (if n ≤ r.id + 1 then r.id + 1 else n) ≠ 0
      split
      · next h =>
        intro hzero
        rw [hzero] at h
        exact hn (UInt32.le_zero_iff.mp h)
      · exact hn
  exact hfold 1 (by decide)

theorem withRuleId_id_ne_zero (existing : List Rule) (rule : Rule) :
    (withRuleId existing rule).id ≠ 0 := by
  by_cases h : rule.id = 0
  · simpa [withRuleId, h] using nextRuleId_ne_zero existing
  · simp [withRuleId, h]

theorem withRuleId_conditions (existing : List Rule) (rule : Rule) :
    (withRuleId existing rule).conditions = rule.conditions := by
  rw [withRuleId]
  split <;> rfl

theorem parseRulesArray_readable {data : Bytes} {rules : List Rule}
    (h : parseRulesArray data = .ok rules) : ∀ r ∈ rules, Readable r := by
  simp only [parseRulesArray] at h
  cases hread : parseArray (parseRuleObject (loopBound data)) pushRule (loopBound data)
      (.inside data) with
  | error e =>
    rw [hread] at h
    cases h
  | ok result =>
    rw [hread] at h
    cases h
    refine parseArray_keeps (fun out x c c' hx hout r hr => ?_) hread
    rcases List.mem_append.mp hr with hr | hr
    · exact hout r hr
    · rw [List.mem_singleton.mp hr]
      exact ⟨withRuleId_id_ne_zero out x, by
        rw [withRuleId_conditions]
        exact parseRuleObject_finite hx⟩

/-! ## What stays the same -/

/-- Two conditions agree on all that evaluation reads. -/
structure SameCondition (c d : RuleCondition) : Prop where
  inputType : c.inputType = d.inputType
  inputAddress : c.inputAddress = d.inputAddress
  op : c.op = d.op
  valueInputType : c.valueInputType = d.valueInputType
  operand : if c.valueInputType = .unknown then c.valueNumber = d.valueNumber
    else c.valueInputAddress = d.valueInputAddress

structure SameRule (r t : Rule) : Prop where
  id : r.id = t.id
  enabled : r.enabled = t.enabled
  name : r.name = t.name
  conditions : List.Forall₂ SameCondition r.conditions t.conditions
  commands : r.commands = t.commands

/-- The number that the saved constant of a condition is read as. -/
def savedNumber (c : RuleCondition) : Except Exception Float :=
  if c.valueIsString then stringValueNumber c.inputType c.valueString
  else stod (formatGeneral 6 c.valueNumber)

/-- A constant must survive printing: six digits for a number, the final input
type for a quoted text. -/
def ConditionSaveable (c : RuleCondition) : Prop :=
  c.valueInputType ≠ .unknown ∨ savedNumber c = .ok c.valueNumber

structure RuleSaveable (r : Rule) : Prop where
  conditions : ∀ c ∈ r.conditions, ConditionSaveable c
  commands : ∀ c ∈ r.commands, CommandSaveable c

theorem reloadCondition_constant {c : RuleCondition} (h : c.valueInputType = .unknown) :
    reloadCondition c = (raise (savedNumber c)).map fun number =>
      { inputType := c.inputType, inputAddress := c.inputAddress, op := c.op,
        valueIsString := c.valueIsString,
        valueString := if c.valueIsString then c.valueString else [],
        valueNumber := number } := by
  simp only [reloadCondition, h, ne_eq, not_true_eq_false, ↓reduceIte]
  cases hstring : c.valueIsString with
  | true =>
    simp only [conditionValue, savedNumber, hstring, ↓reduceIte]
    cases stringValueNumber c.inputType c.valueString <;> rfl
  | false =>
    simp only [conditionValue, savedNumber, hstring, Bool.false_eq_true, ↓reduceIte]
    cases stod (formatGeneral 6 c.valueNumber) <;> rfl

theorem reloadCondition_same_iff (c : RuleCondition) :
    (∃ d, reloadCondition c = .ok d ∧ SameCondition c d) ↔ ConditionSaveable c := by
  by_cases hv : c.valueInputType = .unknown
  · rw [reloadCondition_constant hv]
    simp only [ConditionSaveable, hv, ne_eq, not_true_eq_false, false_or]
    cases savedNumber c with
    | error e => simp
    | ok number =>
      constructor
      · rintro ⟨d, hd, hsame⟩
        cases hd
        have hoperand := hsame.operand
        rw [if_pos hv] at hoperand
        rw [hoperand]
      · intro h
        exact ⟨_, rfl, ⟨rfl, rfl, rfl, hv, by rw [if_pos hv]; exact (Except.ok.inj h).symm⟩⟩
  · refine iff_of_true ⟨_, if_pos hv, ⟨rfl, rfl, rfl, rfl, ?_⟩⟩ (Or.inl hv)
    rw [if_neg hv]

theorem reloadCommand_same_iff (c : RuleCommand) :
    (∃ d, reloadCommand c = .ok d ∧ c = d) ↔ CommandSaveable c := by
  by_cases h : CommandSaveable c
  · exact iff_of_true ⟨c, if_pos h, rfl⟩ h
  · simp [reloadCommand, h]

/-- A list is reloaded with every item in relation `S` to its image exactly
when each item alone is. -/
theorem mapM_same_iff {α : Type} {f : α → Except Failure α} {S : α → α → Prop} (xs : List α) :
    (∃ ys, xs.mapM f = .ok ys ∧ List.Forall₂ S xs ys) ↔ ∀ x ∈ xs, ∃ y, f x = .ok y ∧ S x y := by
  induction xs with
  | nil => simp
  | cons x xs ih =>
    rw [List.mapM_cons, List.forall_mem_cons, ← ih]
    constructor
    · rintro ⟨zs, hzs, hsame⟩
      obtain ⟨y, hy, hzs⟩ := bind_eq_ok.mp hzs
      obtain ⟨ys, hys, hzs⟩ := bind_eq_ok.mp hzs
      cases hzs
      cases hsame with
      | cons hx hxs => exact ⟨⟨y, hy, hx⟩, ys, hys, hxs⟩
    · rintro ⟨⟨y, hy, hx⟩, ys, hys, hxs⟩
      exact ⟨y :: ys, by simp [hy, hys], List.Forall₂.cons hx hxs⟩

theorem reloadRule_same_iff (r : Rule) :
    (∃ t, reloadRule r = .ok t ∧ SameRule r t) ↔ RuleSaveable r := by
  have hconditions := mapM_same_iff (f := reloadCondition) (S := SameCondition) r.conditions
  have hcommands := mapM_same_iff (f := reloadCommand) (S := Eq) r.commands
  simp only [reloadCondition_same_iff] at hconditions
  simp only [reloadCommand_same_iff, List.forall₂_eq_eq_eq] at hcommands
  constructor
  · rintro ⟨t, ht, hsame⟩
    obtain ⟨conditions, h₁, ht⟩ := bind_eq_ok.mp ht
    obtain ⟨commands, h₂, ht⟩ := bind_eq_ok.mp ht
    cases ht
    exact ⟨hconditions.mp ⟨conditions, h₁, hsame.conditions⟩,
      hcommands.mp ⟨commands, h₂, hsame.commands⟩⟩
  · rintro ⟨h₁, h₂⟩
    obtain ⟨conditions, hread₁, hsame₁⟩ := hconditions.mpr h₁
    obtain ⟨commands, hread₂, hsame₂⟩ := hcommands.mpr h₂
    exact ⟨{ r with conditions := conditions, commands := commands },
      by simp [reloadRule, hread₁, hread₂], ⟨rfl, rfl, rfl, hsame₁, hsame₂⟩⟩

/-- The rule with another enabled flag at most. -/
def SameButEnabled (r t : Rule) : Prop := t = { r with enabled := t.enabled }

theorem SameButEnabled.readable_iff {r t : Rule} (h : SameButEnabled r t) :
    Readable t ↔ Readable r := by
  rw [h]
  exact ⟨fun ⟨hid, hfinite⟩ => ⟨hid, hfinite⟩, fun ⟨hid, hfinite⟩ => ⟨hid, hfinite⟩⟩

theorem SameButEnabled.saveable_iff {r t : Rule} (h : SameButEnabled r t) :
    RuleSaveable t ↔ RuleSaveable r := by
  rw [h]
  exact ⟨fun ⟨h₁, h₂⟩ => ⟨h₁, h₂⟩, fun ⟨h₁, h₂⟩ => ⟨h₁, h₂⟩⟩

theorem forall_mem_iff_of_forall₂ {α : Type} {S : α → α → Prop} {P : α → Prop}
    (hS : ∀ x y, S x y → (P y ↔ P x)) {xs ys : List α} (h : List.Forall₂ S xs ys) :
    (∀ y ∈ ys, P y) ↔ ∀ x ∈ xs, P x := by
  induction h with
  | nil => simp
  | cons hxy _ ih => rw [List.forall_mem_cons, List.forall_mem_cons, hS _ _ hxy, ih]

/-- A parsed list, switched on and off in any way, is read back as it was saved
exactly when all its rules are saveable. -/
theorem saved_rules_reload_iff {data : Bytes} {rules saved : List Rule}
    (hparse : parseRulesArray data = .ok rules)
    (hsaved : List.Forall₂ SameButEnabled rules saved) :
    (∃ reloaded, parseRulesArray (rulesFileText saved) = .ok reloaded ∧
        List.Forall₂ SameRule saved reloaded) ↔
      ∀ r ∈ rules, RuleSaveable r := by
  have hreadable : ∀ r ∈ saved, Readable r :=
    (forall_mem_iff_of_forall₂ (P := Readable) (fun _ _ h => h.readable_iff) hsaved).mpr
      (parseRulesArray_readable hparse)
  rw [parseRulesArray_rulesFileText (fun r hr => (hreadable r hr).id_ne_zero)
    (fun r hr => (hreadable r hr).finite), mapM_same_iff]
  simp only [reloadRule_same_iff]
  exact forall_mem_iff_of_forall₂ (fun _ _ h => h.saveable_iff) hsaved

/-- A rule file with one rule whose command carries `data`. -/
def pumpText (data : String) : Bytes :=
  ascii "[\x7b\"id\":1,\"name\":\"pump\",\"conditions\":[\x7b\"inputType\":\"variable\"," ++
  ascii "\"inputAddress\":1,\"operator\":\"greater\",\"value\":25.5\x7d],\"commands\":" ++
  ascii "[\x7b\"type\":\"setVar\",\"data\":\"" ++ ascii data ++
  ascii "\",\"address\":2\x7d]\x7d]"

def pumpRule (data : String) : Rule where
  id := 1
  name := ascii "pump"
  conditions := [{ inputType := .variable, inputAddress := 1, op := .greater, valueNumber := 25.5 }]
  commands := [{ type := .setVar, data := ascii data, address := 2 }]

theorem saved_pump_reloads :
    ∃ reloaded, parseRulesArray (rulesFileText [{ pumpRule "7" with enabled := false }]) =
        .ok reloaded ∧
      List.Forall₂ SameRule [{ pumpRule "7" with enabled := false }] reloaded := by
  have hparse : parseRulesArray (pumpText "7") = .ok [pumpRule "7"] := by decide +kernel
  have hsaved : SameButEnabled (pumpRule "7") { pumpRule "7" with enabled := false } := rfl
  refine (saved_rules_reload_iff hparse (List.Forall₂.cons hsaved List.Forall₂.nil)).mpr ?_
  intro r hr
  rw [List.mem_singleton.mp hr]
  refine ⟨fun c hc => Or.inr ?_, fun c hc => Or.inr (Or.inr ?_)⟩
  · rw [List.mem_singleton.mp hc]
    decide +kernel
  · rw [List.mem_singleton.mp hc]
    exact ⟨⟨decimalParts 7, by decide⟩, by decide⟩

/-- The data `.5` is written bare, which the reader rejects. -/
theorem saved_rules_unreadable :
    parseRulesArray (pumpText ".5") = .ok [pumpRule ".5"] ∧
      parseRulesArray (rulesFileText [pumpRule ".5"]) = .error .rejected := by
  decide +kernel

end InverterMonitor.Rules
