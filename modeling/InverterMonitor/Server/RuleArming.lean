import InverterMonitor.Server.RuleHistory

/-!
# Disabled rules and their latches

A rule that is disabled should have its latch down, so that it fires when it is
enabled again.  A visit breaks this exactly when the rule fires and its own
commands leave it disabled: the visit raises the latch afterwards
(`visitRule_disarmed_iff`).  In every run without such visits all disabled rules
stay disarmed and fire after the next enable (`disabled_rules_disarmed`).
-/

namespace InverterMonitor.Rules
open Text Cxx Json Registers Runs

/-! ## Enabled flags -/

/-- The flag of the first rule with the id. -/
def flagOf (id : UInt32) (rules : List Rule) : Option Bool :=
  (rules.find? (·.id = id)).map Rule.enabled

theorem flagOf_cons (id : UInt32) (rule : Rule) (rules : List Rule) :
    flagOf id (rule :: rules) = if rule.id = id then some rule.enabled else flagOf id rules := by
  by_cases h : rule.id = id <;> simp [flagOf, h]

/-- With distinct ids the flag is the rule's own. -/
theorem flagOf_of_mem {rules : List Rule} (hnodup : (rules.map Rule.id).Nodup) {rule : Rule}
    (h : rule ∈ rules) : flagOf rule.id rules = some rule.enabled := by
  induction rules with
  | nil => cases h
  | cons first rules ih =>
    rw [List.map_cons, List.nodup_cons] at hnodup
    rw [flagOf_cons]
    rcases List.mem_cons.mp h with rfl | h
    · exact if_pos rfl
    · have hne : first.id ≠ rule.id := by
        intro heq
        exact hnodup.1 (heq ▸ List.mem_map_of_mem h)
      rw [if_neg hne]
      exact ih hnodup.2 h

theorem switchRule_none {id : UInt32} {enabled : Bool} {rules : List Rule}
    (h : switchRule id enabled rules = none) :
    flagOf id rules = (flagOf id rules).map fun _ => enabled := by
  induction rules with
  | nil => rfl
  | cons rule rules ih =>
    simp only [switchRule] at h
    rw [flagOf_cons]
    split at h
    · next hid =>
      rw [if_pos hid]
      split at h
      · next henabled => rw [henabled]; rfl
      · cases h
    · next hid =>
      rw [if_neg hid]
      exact ih (Option.map_eq_none_iff.mp h)

theorem switchRule_some {id : UInt32} {enabled : Bool} {rules rules' : List Rule}
    (h : switchRule id enabled rules = some rules') (other : UInt32) :
    flagOf other rules' =
      if id = other then (flagOf other rules).map fun _ => enabled else flagOf other rules := by
  induction rules generalizing rules' with
  | nil => cases h
  | cons rule rules ih =>
    simp only [switchRule] at h
    split at h
    · next hid =>
      split at h
      · cases h
      · cases h
        rw [flagOf_cons, flagOf_cons]
        by_cases hother : id = other
        · simp [hid, hother]
        · simp [hid, hother]
    · next hid =>
      obtain ⟨tail, htail, rfl⟩ := Option.map_eq_some_iff.mp h
      rw [flagOf_cons, flagOf_cons, ih htail]
      by_cases hrule : rule.id = other
      · have hother : id ≠ other := fun heq => hid (hrule.trans heq.symm)
        simp [hrule, hother]
      · simp [hrule]

theorem setRuleEnabledInternal_flag (id other : UInt32) (enabled : Bool) (store : RuleStore) :
    flagOf other (setRuleEnabledInternal id enabled store).2.rules =
      if id = other then (flagOf other store.rules).map fun _ => enabled
      else flagOf other store.rules := by
  unfold setRuleEnabledInternal
  cases h : switchRule id enabled store.rules with
  | none =>
    by_cases hid : id = other
    · rw [if_pos hid, ← hid]
      exact switchRule_none h
    · exact (if_neg hid).symm
  | some rules =>
    have hflag := switchRule_some h other
    cases enabled <;> exact hflag

/-! ## Disarmed -/

/-- Every disabled rule has its latch down. -/
def Disarmed (store : RuleStore) : Prop :=
  ∀ id, flagOf id store.rules = some false → store.latch id = false

theorem Disarmed.setLatch_false {store : RuleStore} (h : Disarmed store) (id : UInt32) :
    Disarmed (store.setLatch id false) := by
  intro other hother
  rw [RuleStore.latch_setLatch]
  split
  · rfl
  · exact h other hother

/-- A disable clears the latch, an enable leaves nothing to clear. -/
theorem Disarmed.setRuleEnabledInternal {store : RuleStore} (h : Disarmed store) (id : UInt32)
    (enabled : Bool) : Disarmed (setRuleEnabledInternal id enabled store).2 := by
  intro other hother
  cases hchanged : (Rules.setRuleEnabledInternal id enabled store).1 with
  | false =>
    rw [setRuleEnabledInternal_unchanged hchanged] at hother ⊢
    exact h other hother
  | true =>
    rw [setRuleEnabledInternal_latch, hchanged]
    rw [setRuleEnabledInternal_flag] at hother
    split
    · rfl
    · next hne =>
      refine h other ?_
      by_cases hid : id = other
      · cases enabled with
        | false => exact absurd ⟨rfl, hid, rfl⟩ hne
        | true =>
          rw [if_pos hid] at hother
          cases hflag : flagOf other store.rules <;> simp [hflag] at hother
      · rwa [if_neg hid] at hother

/-- What a command makes of the flag of a rule, when it is aimed at it. -/
def RuleCommand.switches (id : UInt32) (command : RuleCommand) : Option Bool :=
  if 0 < targetId command.data ∧ targetId command.data = id then
    match command.type with
    | .enable => some true
    | .disable => some false
    | _ => none
  else none

/-- The last word of a command list on the flag of a rule. -/
def lastSwitch (id : UInt32) (commands : List RuleCommand) : Option Bool :=
  (commands.filterMap (·.switches id)).getLast?

/-- The last command that enables or disables the rule itself disables it. -/
def Rule.DisablesItself (rule : Rule) : Prop := lastSwitch rule.id rule.commands = some false

instance (rule : Rule) : Decidable rule.DisablesItself :=
  inferInstanceAs (Decidable (lastSwitch rule.id rule.commands = some false))

theorem switchByCommand_disarmed {engine : Engine} (h : Disarmed engine.store) (enabled : Bool)
    (command : RuleCommand) : Disarmed (switchByCommand enabled command engine).2.store := by
  unfold switchByCommand
  by_cases htarget : 0 < targetId command.data
  · simp only [htarget, ↓reduceIte]
    exact h.setRuleEnabledInternal _ _
  · simpa [htarget] using h

theorem executeRuleCommand_disarmed {engine : Engine} (h : Disarmed engine.store)
    (command : RuleCommand) : Disarmed (executeRuleCommand command engine).2.store := by
  unfold executeRuleCommand
  cases command.type with
  | enable => exact switchByCommand_disarmed h true command
  | disable => exact switchByCommand_disarmed h false command
  | send | setVar | addVar | subVar | system | unknown => exact h

theorem runCommands_disarmed (commands : List RuleCommand) {engine : Engine}
    (h : Disarmed engine.store) : Disarmed (runCommands commands engine).2.store := by
  induction commands generalizing engine with
  | nil => exact h
  | cons command commands ih => exact ih (executeRuleCommand_disarmed h command)

theorem switchByCommand_flag (enabled : Bool) (command : RuleCommand) (engine : Engine)
    (id : UInt32) :
    flagOf id (switchByCommand enabled command engine).2.store.rules =
      if 0 < targetId command.data ∧ targetId command.data = id then
        (flagOf id engine.store.rules).map fun _ => enabled
      else flagOf id engine.store.rules := by
  unfold switchByCommand
  by_cases htarget : 0 < targetId command.data
  · simp only [htarget, ↓reduceIte, Engine.setStore_store, true_and]
    exact setRuleEnabledInternal_flag _ _ _ _
  · simp [htarget]

theorem executeRuleCommand_flag (command : RuleCommand) (engine : Engine) (id : UInt32) :
    flagOf id (executeRuleCommand command engine).2.store.rules =
      (flagOf id engine.store.rules).map fun flag => (command.switches id).getD flag := by
  unfold executeRuleCommand RuleCommand.switches
  cases command.type with
  | enable | disable =>
    simp only [switchByCommand_flag]
    split <;> simp
  | send | setVar | addVar | subVar | system | unknown => simp

theorem runCommands_flag (commands : List RuleCommand) (engine : Engine) (id : UInt32) :
    flagOf id (runCommands commands engine).2.store.rules =
      (flagOf id engine.store.rules).map fun flag => (lastSwitch id commands).getD flag := by
  induction commands generalizing engine with
  | nil => simp [runCommands, lastSwitch]
  | cons command commands ih =>
    simp only [runCommands]
    rw [ih, executeRuleCommand_flag, Option.map_map]
    congr 1
    funext flag
    cases hswitch : command.switches id with
    | none => simp [lastSwitch, hswitch]
    | some value =>
      simp only [Function.comp_apply, Option.getD_some, lastSwitch,
        List.filterMap_cons_some hswitch]
      cases hrest : commands.filterMap (·.switches id) with
      | nil => simp
      | cons first rest => simp [List.getLast?_cons]

/-! ## Visits -/

/-- The visit runs the commands of the rule. -/
def fires (inputs : Inputs) (k : Nat) (rule : Rule) (engine : Engine) : Bool :=
  rule.enabled && conditionsMet inputs engine.vars (inputs.clock k) rule.conditions &&
    !engine.store.latch rule.id

theorem visitRule_store (inputs : Inputs) (k : Nat) (rule : Rule) (engine : Engine) :
    (visitRule inputs k rule engine).2.store =
      if fires inputs k rule engine then
        (runCommands rule.commands engine).2.store.setLatch rule.id true
      else engine.store.setLatch rule.id
        (rule.enabled && conditionsMet inputs engine.vars (inputs.clock k) rule.conditions) := by
  unfold visitRule fires
  cases rule.enabled with
  | false => rfl
  | true =>
    cases conditionsMet inputs engine.vars (inputs.clock k) rule.conditions with
    | false => rfl
    | true => cases hlatch : engine.store.latch rule.id <;> rfl

/-- Raising a latch is harmless exactly where the rule is not disabled. -/
theorem Disarmed.setLatch_true_iff {store : RuleStore} (h : Disarmed store) (id : UInt32) :
    Disarmed (store.setLatch id true) ↔ flagOf id store.rules ≠ some false := by
  constructor
  · intro hdisarmed hflag
    have := hdisarmed id hflag
    simp [RuleStore.latch_setLatch] at this
  · intro hflag other hother
    have hne : id ≠ other := by
      intro heq
      exact hflag (heq ▸ hother)
    rw [RuleStore.latch_setLatch, if_neg hne]
    exact h other hother

/-- A visit keeps disabled rules disarmed unless the rule fires and disables
itself. -/
theorem visitRule_disarmed_iff (inputs : Inputs) (k : Nat) {rule : Rule} {engine : Engine}
    (hnodup : engine.store.ids.Nodup) (hrule : rule ∈ engine.store.rules)
    (h : Disarmed engine.store) :
    Disarmed (visitRule inputs k rule engine).2.store ↔
      ¬(fires inputs k rule engine = true ∧ rule.DisablesItself) := by
  have hflag : flagOf rule.id engine.store.rules = some rule.enabled :=
    flagOf_of_mem hnodup hrule
  rw [visitRule_store]
  cases hfires : fires inputs k rule engine with
  | false =>
    refine iff_of_true ?_ (by simp)
    cases henabled : rule.enabled with
    | false => exact h.setLatch_false rule.id
    | true =>
      cases conditionsMet inputs engine.vars (inputs.clock k) rule.conditions with
      | false => exact h.setLatch_false rule.id
      | true => exact (h.setLatch_true_iff rule.id).mpr (by simp [hflag, henabled])
  | true =>
    have henabled : rule.enabled = true := by
      simp only [fires, Bool.and_eq_true] at hfires
      exact hfires.1.1
    rw [if_pos rfl, (runCommands_disarmed rule.commands h).setLatch_true_iff,
      runCommands_flag, hflag, henabled]
    unfold Rule.DisablesItself
    cases lastSwitch rule.id rule.commands <;> simp

/-! ## Runs -/

/-- No visit of the pass fires a rule that disables itself. -/
def passKeeps (inputs : Inputs) : Nat → Nat → Engine → Bool
  | 0, _, _ => true
  | n + 1, k, engine =>
    match engine.store.rules[k]? with
    | none => true
    | some rule =>
      !(fires inputs k rule engine && decide rule.DisablesItself) &&
        passKeeps inputs n (k + 1) (visitRule inputs k rule engine).2

/-- The condition on an operation, and the state before it, under which disabled
rules stay disarmed. -/
def keeps (operation : Operation) (engine : Engine) : Bool :=
  match operation with
  | .evaluateRules inputs => passKeeps inputs engine.store.rules.length 0 engine
  | _ => true

/-- A step that meets the condition. -/
def KeepingStep (engine engine' : Engine) (events : List Event) : Prop :=
  (∃ operation, keeps operation engine = true ∧ perform operation engine = .ok (engine', events)) ∧
    engine'.store.ids.Nodup

theorem visitFrom_disarmed (inputs : Inputs) (n k : Nat) {engine : Engine}
    (hnodup : engine.store.ids.Nodup) (hkeeps : passKeeps inputs n k engine = true)
    (h : Disarmed engine.store) : Disarmed (visitFrom inputs n k engine).2.store := by
  induction n generalizing k engine with
  | zero => exact h
  | succ n ih =>
    simp only [visitFrom, passKeeps] at hkeeps ⊢
    cases hrule : engine.store.rules[k]? with
    | none => exact h
    | some rule =>
      simp only [hrule, Bool.and_eq_true, Bool.not_eq_true', Bool.and_eq_false_iff,
        decide_eq_false_iff_not] at hkeeps
      obtain ⟨hvisit, hrest⟩ := hkeeps
      have hids := visitRule_ids inputs k rule engine
      refine ih (k + 1) (by rwa [hids]) hrest ?_
      refine (visitRule_disarmed_iff inputs k hnodup (List.mem_of_getElem? hrule) h).mpr ?_
      rintro ⟨hfires, hself⟩
      rcases hvisit with hquiet | hother
      · rw [hfires] at hquiet
        cases hquiet
      · exact hother hself

theorem visitFrom_ids (inputs : Inputs) (n k : Nat) (engine : Engine) :
    (visitFrom inputs n k engine).2.store.ids = engine.store.ids := by
  induction n generalizing k engine with
  | zero => rfl
  | succ n ih =>
    simp only [visitFrom]
    cases engine.store.rules[k]? with
    | none => rfl
    | some rule => exact (ih (k + 1) _).trans (visitRule_ids inputs k rule engine)

theorem flagOf_append (id : UInt32) (rules rules' : List Rule) :
    flagOf id (rules ++ rules') = (flagOf id rules).or (flagOf id rules') := by
  unfold flagOf
  rw [List.find?_append]
  cases rules.find? (·.id = id) <;> simp

theorem flagOf_filter {id other : UInt32} (h : other ≠ id) (rules : List Rule) :
    flagOf other (rules.filter (·.id ≠ id)) = flagOf other rules := by
  induction rules with
  | nil => rfl
  | cons rule rules ih =>
    by_cases hrule : rule.id = id
    · have hne : rule.id ≠ other := fun heq => h (heq.symm.trans hrule)
      rw [List.filter_cons_of_neg (by simp [hrule]), ih, flagOf_cons, if_neg hne]
    · rw [List.filter_cons_of_pos (by simp [hrule]), flagOf_cons, flagOf_cons, ih]

theorem Disarmed.addRule {store : RuleStore} (saves : Bool) (rule : Rule) (h : Disarmed store) :
    Disarmed (addRule saves rule store).2 := by
  unfold Rules.addRule
  split
  · exact h
  · intro id hid
    rw [RuleStore.latch_setLatch]
    split
    · rfl
    · next hne =>
      apply h id
      rw [RuleStore.setLatch_rules, RuleStore.setRules_rules, flagOf_append, flagOf_cons,
        if_neg hne] at hid
      simpa [flagOf] using hid

theorem Disarmed.deleteRule {store : RuleStore} (saves : Bool) (id : UInt32) (h : Disarmed store) :
    Disarmed (deleteRule saves id store).2 := by
  unfold Rules.deleteRule
  split
  · intro other hother
    by_cases hid : other = id
    · subst hid
      simp [RuleStore.latch]
    · rw [flagOf_filter hid] at hother
      have hlatch := h other hother
      have hne : id ≠ other := fun heq => hid heq.symm
      simpa [RuleStore.latch, Std.ExtTreeMap.getElem?_erase, hne] using hlatch
  · exact h

/-- The step lemma. -/
theorem KeepingStep.disarmed {engine engine' : Engine} {events : List Event}
    (hstep : KeepingStep engine engine' events) (h : Disarmed engine.store) :
    Disarmed engine'.store := by
  obtain ⟨⟨operation, hkeeps, hperform⟩, hnodup⟩ := hstep
  cases operation with
  | loadRules file =>
    simp only [perform] at hperform
    split at hperform
    · next store hload =>
      cases hperform
      intro id _
      exact (loadRules_follows hload).latch id
    · cases hperform
      exact h
    · cases hperform
  | addRule saves rule =>
    simp only [perform] at hperform
    split at hperform
    · cases hperform
      exact h
    · cases hperform
      exact h.addRule saves rule
  | deleteRule saves id =>
    cases hperform
    exact h.deleteRule saves id
  | setRuleEnabled saves id enabled =>
    cases hperform
    exact h.setRuleEnabledInternal id enabled
  | executeRuleCommands saves id =>
    simp only [perform, executeRuleCommands] at hperform
    split at hperform
    · cases hperform
      exact h
    · cases hperform
      exact runCommands_disarmed _ h
  | evaluateRules inputs =>
    cases hperform
    have hids := visitFrom_ids inputs engine.store.rules.length 0 engine
    exact visitFrom_disarmed inputs _ 0 (hids ▸ hnodup) hkeeps h
  | setVariable key value =>
    cases hperform
    exact h

theorem run_disarmed {engine : Engine} {history : List Event}
    (h : Run KeepingStep {} engine history) : Disarmed engine.store ∧ engine.store.ids.Nodup := by
  refine h.invariant (P := fun engine _ => Disarmed engine.store ∧ engine.store.ids.Nodup) ?_ ?_
  · exact ⟨fun id hid => by simp [flagOf] at hid, List.nodup_nil⟩
  · intro engine engine' history events ⟨hdisarmed, _⟩ hstep
    exact ⟨hstep.disarmed hdisarmed, hstep.2⟩

/-- A visit that finds all conditions of the rule met. -/
def Event.meets (id : UInt32) : Event → Prop
  | .visit rule verdict _ => rule.id = id ∧ verdict.isMet = true
  | _ => False

theorem Event.latch_stays_false_of_not_meets {id : UInt32} {event : Event}
    (h : ¬event.meets id) : event.latch id false = false := by
  cases event with
  | visit rule verdict run =>
    by_cases hid : rule.id = id
    · have hmet : verdict.isMet = false := by
        rw [← Bool.not_eq_true]
        exact fun hmet => h ⟨hid, hmet⟩
      simp [Event.latch, hid, hmet]
    · simp [Event.latch, hid]
  | _ => exact Event.latch_stays_false (fun h => h)

/-- A rule whose latch is down fires at its first visit with all conditions met. -/
theorem Tracks.first_met_fires {start engine : Engine} {history : List Event}
    (h : Tracks start engine history) {before after : List Event} {rule : Rule} {fired : Bool}
    {run : List Executed} (heq : history = before ++ .visit rule (.met fired) run :: after)
    (hdown : start.store.latch rule.id = false) (hbefore : ∀ e ∈ before, ¬e.meets rule.id) :
    fired = true ∧ run.map Executed.command = rule.commands := by
  obtain ⟨_, hfired, hrun⟩ := h.lawful before (.visit rule (.met fired) run) after heq
  have hlatch : latchesAfter start before rule.id = false := by
    rw [latchesAfter, hdown]
    exact follow_unchanged fun e he => Event.latch_stays_false_of_not_meets (hbefore e he)
  rw [hlatch] at hfired
  subst hfired
  exact ⟨rfl, hrun⟩

/-- Where no firing rule leaves itself disabled, every disabled rule is disarmed,
and whatever enables it again, its first visit with all conditions met fires. -/
theorem disabled_rules_disarmed {engine : Engine} {history : List Event}
    (h : Run KeepingStep {} engine history) :
    ∀ rule ∈ engine.store.rules, rule.enabled = false →
      engine.store.latch rule.id = false ∧
      ∀ engine' later, Run Step engine engine' later →
        ∀ before rule' fired run after,
          later = before ++ .visit rule' (.met fired) run :: after → rule'.id = rule.id →
          (∀ e ∈ before, ¬e.meets rule.id) →
          fired = true ∧ run.map Executed.command = rule'.commands := by
  obtain ⟨hdisarmed, hnodup⟩ := run_disarmed h
  intro rule hrule hdisabled
  have hdown : engine.store.latch rule.id = false := by
    refine hdisarmed rule.id ?_
    rw [flagOf_of_mem hnodup hrule, hdisabled]
  refine ⟨hdown, ?_⟩
  intro engine' later hlater before rule' fired run after heq hid hbefore
  rw [← hid] at hdown hbefore
  exact (run_tracks hlater).first_met_fires heq hdown hbefore

/-- The alarm rule, added and switched off again. -/
def alarmOff : Engine where
  store :=
    { rules := [{ alarmRule with enabled := false }]
      ruleLastState := ((∅ : Std.ExtTreeMap UInt32 Bool).insert 1 false).insert 1 false }

theorem alarm_fires_again :
    ∃ engine run,
      Run Step alarmOff engine [.switched 1 true, .visit alarmRule (.met true) run] ∧
      alarmOff.store.latch 1 = false ∧ run.map Executed.command = alarmRule.commands := by
  have hempty : Run KeepingStep {} {} [] := .start
  have hadd := hempty.next ⟨⟨.addRule true alarmRule, rfl, rfl⟩, by decide⟩
  have hoff : Run KeepingStep {} alarmOff [.added alarmRule, .switched 1 false] :=
    hadd.next ⟨⟨.setRuleEnabled true 1 false, rfl, rfl⟩, by decide⟩
  have hstart : Run Step alarmOff alarmOff [] := .start
  have hon := hstart.next ⟨⟨.setRuleEnabled true 1 true, rfl⟩, by decide⟩
  have hpass := hon.next ⟨⟨.evaluateRules {}, rfl⟩, by decide⟩
  obtain ⟨hdown, hfires⟩ := disabled_rules_disarmed hoff { alarmRule with enabled := false }
    (List.mem_singleton.mpr rfl) rfl
  exact ⟨_, _, hpass, hdown,
    (hfires _ _ hpass [.switched 1 true] alarmRule true _ [] rfl rfl (by simp [Event.meets])).2⟩

/-- The rule of the example configuration that switches the pump off, and itself. -/
def poolPumpDisabler : Rule where
  id := 1
  name := ascii "pool pump disabler"
  conditions := [{ inputType := .register, inputAddress := 15206, op := .lessEqual,
                   valueNumber := 24.5 }]
  commands := [{ type := .send, data := ascii "RELAY 3 OFF" }, { type := .disable, data := ascii "1" }]

/-- A battery at 24 V. -/
def lowBattery : Inputs where
  lastValues := (∅ : LastValues).insert 15206 240

theorem disabled_rule_stays_armed :
    ∃ engine history, Run Step {} engine history ∧
      ∃ rule ∈ engine.store.rules, rule.enabled = false ∧ engine.store.latch rule.id = true := by
  have hstart : Run Step {} {} [] := .start
  have hadd := hstart.next ⟨⟨.addRule true poolPumpDisabler, rfl⟩, by decide⟩
  have hpass := hadd.next ⟨⟨.evaluateRules lowBattery, rfl⟩, by decide +kernel⟩
  refine ⟨_, _, hpass, { poolPumpDisabler with enabled := false }, ?_, rfl, ?_⟩
  · decide +kernel
  · decide +kernel

end InverterMonitor.Rules
