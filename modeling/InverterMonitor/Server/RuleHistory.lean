import InverterMonitor.Server.RuleEngine

/-!
# What a history says about the latches

* `run_tracks`: in every run the latches, the listed ids and the fired visits
  are determined by the events before (`Event.latch`, `Event.listed`,
  `Event.law`);
* `rules_fire_on_rising_edges`: between two fired visits of a rule lies an event
  that re-arms it, and an armed rule fires at its next visit that finds all its
  conditions met.
-/

namespace InverterMonitor.Rules
open Text Cxx Json Registers Runs

/-! ## Switching -/

theorem switchRule_ids {id : UInt32} {enabled : Bool} {rules rules' : List Rule}
    (h : switchRule id enabled rules = some rules') :
    rules'.map Rule.id = rules.map Rule.id := by
  induction rules generalizing rules' with
  | nil => cases h
  | cons rule rules ih =>
    simp only [switchRule] at h
    split at h
    · split at h
      · cases h
      · cases h
        rfl
    · obtain ⟨tail, htail, rfl⟩ := Option.map_eq_some_iff.mp h
      simp [ih htail]

theorem setRuleEnabledInternal_ids (id : UInt32) (enabled : Bool) (store : RuleStore) :
    (setRuleEnabledInternal id enabled store).2.ids = store.ids := by
  unfold setRuleEnabledInternal
  cases h : switchRule id enabled store.rules with
  | none => rfl
  | some rules => cases enabled <;> exact switchRule_ids h

/-- A successful disable clears the latch, nothing else touches one. -/
theorem setRuleEnabledInternal_latch (id other : UInt32) (enabled : Bool) (store : RuleStore) :
    (setRuleEnabledInternal id enabled store).2.latch other =
      if (setRuleEnabledInternal id enabled store).1 = true ∧ id = other ∧ enabled = false then false
      else store.latch other := by
  unfold setRuleEnabledInternal
  cases h : switchRule id enabled store.rules with
  | none => simp
  | some rules =>
    cases enabled with
    | true => simp
    | false => simp [RuleStore.latch_setLatch]

/-! ## Commands -/

/-- Some command of the run disabled the rule. -/
def switchesOff (run : List Executed) (id : UInt32) : Bool :=
  run.any (·.switched = some (id, false))

@[simp] theorem switchesOff_nil (id : UInt32) : switchesOff [] id = false := rfl

theorem switchByCommand_spec (enabled : Bool) (command : RuleCommand) (engine : Engine) :
    (switchByCommand enabled command engine).1.command = command ∧
    (switchByCommand enabled command engine).2.store.ids = engine.store.ids ∧
    ∀ id, (switchByCommand enabled command engine).2.store.latch id =
      (engine.store.latch id &&
        !decide ((switchByCommand enabled command engine).1.switched = some (id, false))) := by
  unfold switchByCommand
  by_cases htarget : 0 < targetId command.data
  · simp only [htarget, ↓reduceIte, Engine.setStore_store, true_and]
    refine ⟨setRuleEnabledInternal_ids _ _ _, fun id => ?_⟩
    rw [setRuleEnabledInternal_latch]
    cases hchanged : (setRuleEnabledInternal (targetId command.data) enabled engine.store).1 with
    | false => simp
    | true =>
      by_cases hid : targetId command.data = id <;> cases enabled <;> simp [hid]
  · simp [htarget]

theorem executeRuleCommand_spec (command : RuleCommand) (engine : Engine) :
    (executeRuleCommand command engine).1.command = command ∧
    (executeRuleCommand command engine).2.store.ids = engine.store.ids ∧
    ∀ id, (executeRuleCommand command engine).2.store.latch id =
      (engine.store.latch id &&
        !decide ((executeRuleCommand command engine).1.switched = some (id, false))) := by
  unfold executeRuleCommand
  cases command.type with
  | enable => exact switchByCommand_spec true command engine
  | disable => exact switchByCommand_spec false command engine
  | send | setVar | addVar | subVar | system | unknown => simp

/-- The run lists the commands in order; ids stay, and a latch falls exactly
when a command disables its rule. -/
theorem runCommands_spec (commands : List RuleCommand) (engine : Engine) :
    (runCommands commands engine).1.map Executed.command = commands ∧
    (runCommands commands engine).2.store.ids = engine.store.ids ∧
    ∀ id, (runCommands commands engine).2.store.latch id =
      (engine.store.latch id && !switchesOff (runCommands commands engine).1 id) := by
  induction commands generalizing engine with
  | nil => simp [runCommands]
  | cons command commands ih =>
    obtain ⟨hcommand, hids, hlatch⟩ := executeRuleCommand_spec command engine
    obtain ⟨ihcommands, ihids, ihlatch⟩ := ih (executeRuleCommand command engine).2
    simp only [runCommands]
    refine ⟨by rw [List.map_cons, hcommand, ihcommands], by rw [ihids, hids], fun id => ?_⟩
    rw [ihlatch, hlatch]
    simp [switchesOff, Bool.and_assoc]

/-! ## Events -/

def Verdict.isMet : Verdict → Bool
  | .met _ => true
  | _ => false

namespace Event

/-- What an event makes of the latch of a rule. -/
def latch (id : UInt32) : Event → Bool → Bool
  | .visit rule verdict run, was =>
    if rule.id = id then verdict.isMet else was && !switchesOff run id
  | .executed _ run, was => was && !switchesOff run id
  | .switched other enabled, was => if other = id ∧ enabled = false then false else was
  | .loaded _, _ => false
  | .added rule, was => if rule.id = id then false else was
  | .deleted other, was => if other = id then false else was

/-- Whether a rule with the id is in the list after an event. -/
def listed (id : UInt32) : Event → Bool → Bool
  | .loaded rules, _ => decide (id ∈ rules.map Rule.id)
  | .added rule, was => decide (rule.id = id) || was
  | .deleted other, was => decide (other ≠ id) && was
  | _, was => was

/-- How an event depends on the latches and the list before it. -/
def law (latches list : UInt32 → Bool) : Event → Prop
  | .visit rule (.met fired) run =>
    list rule.id = true ∧ fired = !latches rule.id ∧
      run.map Executed.command = if fired then rule.commands else []
  | .visit rule _ run => list rule.id = true ∧ run = []
  | .added rule => list rule.id = false
  | _ => True

end Event

/-- The step lemma's content: one event takes one engine state to the next. -/
structure Follows (engine : Engine) (event : Event) (engine' : Engine) : Prop where
  latch : ∀ id, engine'.store.latch id = event.latch id (engine.store.latch id)
  listed : ∀ id, decide (id ∈ engine'.store.ids) = event.listed id (decide (id ∈ engine.store.ids))
  law : event.law engine.store.latch fun id => decide (id ∈ engine.store.ids)

/-- The latches that a history leaves. -/
def latchesAfter (start : Engine) (history : List Event) (id : UInt32) : Bool :=
  follow (Event.latch id) history (start.store.latch id)

/-- The ids that a history leaves in the list. -/
def listAfter (start : Engine) (history : List Event) (id : UInt32) : Bool :=
  follow (Event.listed id) history (decide (id ∈ start.store.ids))

/-- The history determines the latches, the list and which visits fire. -/
structure Tracks (start engine : Engine) (history : List Event) : Prop where
  latch : ∀ id, engine.store.latch id = latchesAfter start history id
  listed : ∀ id, decide (id ∈ engine.store.ids) = listAfter start history id
  lawful : Lawful
    (fun before event => event.law (latchesAfter start before) (listAfter start before)) history

namespace Tracks

theorem start (engine : Engine) : Tracks engine engine [] :=
  ⟨fun _ => rfl, fun _ => rfl, Lawful.nil⟩

theorem follows {start engine engine' : Engine} {history : List Event} {event : Event}
    (h : Tracks start engine history) (hevent : Follows engine event engine') :
    Tracks start engine' (history ++ [event]) := by
  refine ⟨fun id => ?_, fun id => ?_, h.lawful.concat ?_⟩
  · rw [hevent.latch, h.latch, latchesAfter, latchesAfter, follow_append]
    rfl
  · rw [hevent.listed, h.listed, listAfter, listAfter, follow_append]
    rfl
  · have hlatch : engine.store.latch = latchesAfter start history := funext h.latch
    have hlisted : (fun id => decide (id ∈ engine.store.ids)) = listAfter start history :=
      funext h.listed
    rw [← hlatch, ← hlisted]
    exact hevent.law

end Tracks

/-! ## Every operation is tracked -/

theorem visitRule_follows (inputs : Inputs) (k : Nat) {rule : Rule} {engine : Engine}
    (hrule : rule ∈ engine.store.rules) :
    Follows engine (visitRule inputs k rule engine).1 (visitRule inputs k rule engine).2 := by
  have hid : rule.id ∈ engine.store.ids := List.mem_map_of_mem hrule
  unfold visitRule
  split
  · split
    · cases hlatch : engine.store.latch rule.id with
      | true =>
        refine ⟨fun id => ?_, fun id => rfl, by simp [Event.law, hid, hlatch]⟩
        by_cases h : rule.id = id <;> simp [RuleStore.latch_setLatch, Event.latch, h, Verdict.isMet]
      | false =>
        obtain ⟨hcommands, hids, hlatches⟩ := runCommands_spec rule.commands engine
        refine ⟨fun id => ?_, fun id => ?_, by simp [Event.law, hid, hlatch, hcommands]⟩
        · by_cases h : rule.id = id <;>
            simp [RuleStore.latch_setLatch, Event.latch, h, Verdict.isMet, hlatches]
        · simp [Event.listed, hids]
    · refine ⟨fun id => ?_, fun id => rfl, by simp [Event.law, hid]⟩
      by_cases h : rule.id = id <;> simp [RuleStore.latch_setLatch, Event.latch, h, Verdict.isMet]
  · refine ⟨fun id => ?_, fun id => rfl, by simp [Event.law, hid]⟩
    by_cases h : rule.id = id <;> simp [RuleStore.latch_setLatch, Event.latch, h, Verdict.isMet]

theorem visitFrom_tracks (inputs : Inputs) (n k : Nat) {start engine : Engine}
    {history : List Event} (h : Tracks start engine history) :
    Tracks start (visitFrom inputs n k engine).2
      (history ++ (visitFrom inputs n k engine).1) := by
  induction n generalizing k engine history with
  | zero => simpa [visitFrom] using h
  | succ n ih =>
    simp only [visitFrom]
    cases hrule : engine.store.rules[k]? with
    | none => simpa using h
    | some rule =>
      have hvisit := h.follows (visitRule_follows inputs k (List.mem_of_getElem? hrule))
      have hrest := ih (k + 1) hvisit
      rwa [List.append_assoc] at hrest

theorem loadedStore_latch (rules : List Rule) (id : UInt32) : (loadedStore rules).latch id = false := by
  have hfold : ∀ latches : Std.ExtTreeMap UInt32 Bool, latches[id]?.getD false = false →
      (rules.foldl (fun latches rule => latches.insert rule.id false) latches)[id]?.getD false =
        false := by
    induction rules with
    | nil => exact fun latches h => h
    | cons rule rules ih =>
      intro latches h
      refine ih _ ?_
      by_cases hid : rule.id = id <;> simp [Std.ExtTreeMap.getElem?_insert, hid, h]
  exact hfold ∅ (by simp)

theorem loadRules_follows {file : Option Bytes} {engine : Engine} {store : RuleStore}
    (h : loadRules file engine.store = .ok (true, store)) :
    Follows engine (.loaded store.rules) (engine.setStore store) := by
  refine ⟨fun id => ?_, fun id => rfl, trivial⟩
  cases file with
  | none =>
    cases h
    simp [RuleStore.latch, Event.latch]
  | some content =>
    simp only [loadRules] at h
    split at h
    · cases h
      exact loadedStore_latch _ id
    · cases h
    · cases h

theorem addRule_follows {saves : Bool} {rule : Rule} {engine : Engine}
    (htaken : ¬(rule.id ≠ 0 ∧ rule.id ∈ engine.store.ids))
    (hnodup : (addRule saves rule engine.store).2.ids.Nodup) :
    Follows engine (.added (withRuleId engine.store.rules rule))
      (engine.setStore (addRule saves rule engine.store).2) := by
  have hadd : addRule saves rule engine.store = (saves,
      (engine.store.setRules
        (engine.store.rules ++ [withRuleId engine.store.rules rule])).setLatch
          (withRuleId engine.store.rules rule).id false) := if_neg htaken
  have hids : (addRule saves rule engine.store).2.ids =
      engine.store.ids ++ [(withRuleId engine.store.rules rule).id] := by
    rw [hadd]
    simp [RuleStore.ids]
  rw [hids] at hnodup
  refine ⟨fun id => ?_, fun id => ?_, ?_⟩
  · rw [hadd, Engine.setStore_store, RuleStore.latch_setLatch, RuleStore.latch_setRules]
    rfl
  · rw [Engine.setStore_store, hids]
    simp [Event.listed, eq_comm, or_comm]
  · have := (List.nodup_append.mp hnodup).2.2
    simpa [Event.law] using fun h => this _ h _ (by simp) rfl

theorem deleteRule_follows (saves : Bool) {id : UInt32} {engine : Engine}
    (hid : id ∈ engine.store.ids) :
    Follows engine (.deleted id) (engine.setStore (deleteRule saves id engine.store).2) := by
  have hdelete : deleteRule saves id engine.store = (saves,
      { rules := engine.store.rules.filter (·.id ≠ id)
        ruleLastState := engine.store.ruleLastState.erase id }) := if_pos hid
  rw [hdelete]
  refine ⟨fun other => ?_, fun other => ?_, trivial⟩
  · by_cases h : id = other <;>
      simp [RuleStore.latch, Event.latch, Std.ExtTreeMap.getElem?_erase, h]
  · have hmem : other ∈ (engine.store.rules.filter (·.id ≠ id)).map Rule.id ↔
        other ≠ id ∧ other ∈ engine.store.ids := by
      simp only [RuleStore.ids, List.mem_map, List.mem_filter, decide_eq_true_eq]
      constructor
      · rintro ⟨rule, ⟨hrule, hne⟩, rfl⟩
        exact ⟨hne, rule, hrule, rfl⟩
      · rintro ⟨hne, rule, hrule, rfl⟩
        exact ⟨rule, ⟨hrule, hne⟩, rfl⟩
    rw [Engine.setStore_store]
    change decide (other ∈ (engine.store.rules.filter (·.id ≠ id)).map Rule.id) = _
    simp only [hmem]
    simp [Event.listed, eq_comm]

theorem setRuleEnabled_store (saves : Bool) (id : UInt32) (enabled : Bool) (store : RuleStore) :
    (setRuleEnabled saves id enabled store).2 = (setRuleEnabledInternal id enabled store).2 := rfl

theorem setRuleEnabled_follows (saves : Bool) {id : UInt32} {enabled : Bool} {engine : Engine}
    (h : (setRuleEnabledInternal id enabled engine.store).1 = true) :
    Follows engine (.switched id enabled)
      (engine.setStore (setRuleEnabled saves id enabled engine.store).2) := by
  refine ⟨fun other => ?_, fun other => ?_, trivial⟩
  · rw [Engine.setStore_store, setRuleEnabled_store, setRuleEnabledInternal_latch]
    simp [Event.latch, h]
  · rw [Engine.setStore_store, setRuleEnabled_store, setRuleEnabledInternal_ids]
    rfl

theorem setRuleEnabledInternal_unchanged {id : UInt32} {enabled : Bool} {store : RuleStore}
    (h : (setRuleEnabledInternal id enabled store).1 = false) :
    (setRuleEnabledInternal id enabled store).2 = store := by
  unfold setRuleEnabledInternal at h ⊢
  cases hswitch : switchRule id enabled store.rules with
  | none => rfl
  | some rules =>
    rw [hswitch] at h
    cases h

theorem runCommands_follows (id : UInt32) (commands : List RuleCommand) (engine : Engine) :
    Follows engine (.executed id (runCommands commands engine).1)
      (runCommands commands engine).2 := by
  obtain ⟨_, hids, hlatches⟩ := runCommands_spec commands engine
  refine ⟨hlatches, fun other => ?_, trivial⟩
  rw [hids]
  rfl

/-- The step lemma. -/
theorem Step.tracks {start engine engine' : Engine} {history events : List Event}
    (hstep : Step engine engine' events) (h : Tracks start engine history) :
    Tracks start engine' (history ++ events) := by
  obtain ⟨⟨operation, hperform⟩, hnodup⟩ := hstep
  cases operation with
  | loadRules file =>
    simp only [perform] at hperform
    split at hperform
    · next store hload =>
      cases hperform
      exact h.follows (loadRules_follows hload)
    · cases hperform
      simpa using h
    · cases hperform
  | addRule saves rule =>
    simp only [perform] at hperform
    split at hperform
    · cases hperform
      simpa using h
    · next htaken =>
      cases hperform
      exact h.follows (addRule_follows htaken hnodup)
  | deleteRule saves id =>
    by_cases hid : id ∈ engine.store.ids
    · simp only [perform, hid, ↓reduceIte] at hperform
      cases hperform
      exact h.follows (deleteRule_follows saves hid)
    · simp only [perform, hid, ↓reduceIte, deleteRule] at hperform
      cases hperform
      simpa [Engine.setStore] using h
  | setRuleEnabled saves id enabled =>
    cases hchanged : (setRuleEnabledInternal id enabled engine.store).1 with
    | true =>
      simp only [perform, hchanged, ↓reduceIte] at hperform
      cases hperform
      exact h.follows (setRuleEnabled_follows saves hchanged)
    | false =>
      simp only [perform, hchanged, Bool.false_eq_true, ↓reduceIte, setRuleEnabled_store,
        setRuleEnabledInternal_unchanged hchanged] at hperform
      cases hperform
      simpa [Engine.setStore] using h
  | executeRuleCommands saves id =>
    simp only [perform, executeRuleCommands] at hperform
    split at hperform
    · cases hperform
      simpa using h
    · cases hperform
      exact h.follows (runCommands_follows id _ engine)
  | evaluateRules inputs =>
    cases hperform
    exact visitFrom_tracks inputs _ 0 h
  | setVariable key value =>
    cases hperform
    rw [List.append_nil]
    exact ⟨h.latch, h.listed, h.lawful⟩

theorem run_tracks {start engine : Engine} {history : List Event}
    (h : Run Step start engine history) : Tracks start engine history :=
  h.invariant (Tracks.start start) fun _ _ _ _ htracks hstep => hstep.tracks htracks

/-! ## Rising edges -/

namespace Event

/-- A pass that did not find the conditions met, a moment at which the rule was
disabled, a reload, or a delete. -/
def releases (id : UInt32) : Event → Prop
  | .visit rule verdict run =>
    (rule.id = id ∧ verdict.isMet = false) ∨ switchesOff run id = true
  | .executed _ run => switchesOff run id = true
  | .switched other enabled => other = id ∧ enabled = false
  | .loaded _ => True
  | .added _ => False
  | .deleted other => other = id

/-- A pass that found the conditions of the enabled rule not all met, or the
load or the addition of the rule. -/
def arms (id : UInt32) : Event → Prop
  | .visit rule verdict _ => rule.id = id ∧ verdict = .unmet
  | .loaded rules => id ∈ rules.map Rule.id
  | .added rule => rule.id = id
  | _ => False

def visits (id : UInt32) : Event → Prop
  | .visit rule _ _ => rule.id = id
  | _ => False

/-- The id of the rule that an event visits. -/
def visited : Event → Option UInt32
  | .visit rule _ _ => some rule.id
  | _ => none

/-- A latch falls by a release, or by adding a rule under its id. -/
theorem latch_falls {id : UInt32} {event : Event} (h : event.latch id true ≠ true) :
    event.releases id ∨ ∃ rule, event = .added rule ∧ rule.id = id := by
  cases event with
  | visit rule verdict run =>
    left
    by_cases hid : rule.id = id
    · exact Or.inl ⟨hid, by simpa [latch, hid] using h⟩
    · exact Or.inr (by simpa [latch, hid] using h)
  | executed other run => exact Or.inl (by simpa [latch, releases] using h)
  | switched other enabled => exact Or.inl (by simpa [latch, releases] using h)
  | loaded rules => exact Or.inl trivial
  | added rule => exact Or.inr ⟨rule, rfl, by simpa [latch] using h⟩
  | deleted other => exact Or.inl (by simpa [latch, releases] using h)

theorem listed_falls {id : UInt32} {event : Event} (h : event.listed id true ≠ true) :
    event.releases id := by
  cases event with
  | visit rule verdict run => exact absurd rfl h
  | executed other run => exact absurd rfl h
  | switched other enabled => exact absurd rfl h
  | loaded rules => trivial
  | added rule => simp [listed] at h
  | deleted other => simpa [listed, releases] using h

theorem latch_of_arms {id : UInt32} {event : Event} (h : event.arms id) (was : Bool) :
    event.latch id was = false := by
  cases event with
  | visit rule verdict run =>
    obtain ⟨hid, rfl⟩ := h
    simp [latch, hid, Verdict.isMet]
  | executed other run => exact h.elim
  | switched other enabled => exact h.elim
  | loaded rules => rfl
  | added rule => exact if_pos h
  | deleted other => exact h.elim

/-- Only a visit raises a latch. -/
theorem latch_stays_false {id : UInt32} {event : Event} (h : ¬event.visits id) :
    event.latch id false = false := by
  cases event with
  | visit rule verdict run =>
    have hid : rule.id ≠ id := h
    simp [latch, hid]
  | executed other run => rfl
  | switched other enabled => simp [latch]
  | loaded rules => rfl
  | added rule => simp [latch]
  | deleted other => simp [latch]

end Event

theorem visitRule_ids (inputs : Inputs) (k : Nat) (rule : Rule) (engine : Engine) :
    (visitRule inputs k rule engine).2.store.ids = engine.store.ids := by
  unfold visitRule
  split
  · split
    · cases engine.store.latch rule.id with
      | true => rfl
      | false => exact (runCommands_spec rule.commands engine).2.1
    · rfl
  · rfl

theorem visitRule_visited (inputs : Inputs) (k : Nat) (rule : Rule) (engine : Engine) :
    (visitRule inputs k rule engine).1.visited = some rule.id := by
  unfold visitRule
  split
  · split <;> rfl
  · rfl

theorem visitFrom_visited (inputs : Inputs) (n k : Nat) (engine : Engine)
    (h : n + k = engine.store.ids.length) :
    (visitFrom inputs n k engine).1.map Event.visited = (engine.store.ids.drop k).map some := by
  induction n generalizing k engine with
  | zero =>
    rw [List.drop_eq_nil_of_le (by omega)]
    rfl
  | succ n ih =>
    have hlen : engine.store.ids.length = engine.store.rules.length := List.length_map _
    have hk : k < engine.store.rules.length := by omega
    have hid : engine.store.ids.drop k =
        engine.store.rules[k].id :: engine.store.ids.drop (k + 1) := by
      rw [List.drop_eq_getElem_cons (by omega)]
      simp [RuleStore.ids]
    have hids := visitRule_ids inputs k engine.store.rules[k] engine
    simp only [visitFrom, List.getElem?_eq_getElem hk, List.map_cons, visitRule_visited]
    rw [ih (k + 1) _ (by rw [hids]; omega), hids, hid, List.map_cons]

/-- A pass visits every rule once, in list order. -/
theorem evaluateRules_visited (inputs : Inputs) (engine : Engine) :
    (evaluateRules inputs engine).1.map Event.visited = engine.store.ids.map some := by
  have h := visitFrom_visited inputs engine.store.rules.length 0 engine
    (by simp [RuleStore.ids])
  rwa [List.drop_zero] at h

section

variable {start engine : Engine} {history : List Event}

/-- Between two fired visits of a rule lies a release. -/
theorem Tracks.release_between (h : Tracks start engine history)
    {before between after : List Event} {rule₁ rule₂ : Rule} {run₁ run₂ : List Executed}
    (heq : history = before ++
      .visit rule₁ (.met true) run₁ :: (between ++ .visit rule₂ (.met true) run₂ :: after))
    (hid : rule₁.id = rule₂.id) : ∃ event ∈ between, event.releases rule₁.id := by
  obtain ⟨hlisted, _⟩ := h.lawful before _ _ heq
  obtain ⟨_, hlatch, _⟩ := h.lawful (before ++ .visit rule₁ (.met true) run₁ :: between)
    (.visit rule₂ (.met true) run₂) after (by simpa using heq)
  -- the first visit leaves the latch up, the second finds it down
  have hfall : follow (Event.latch rule₁.id) between true ≠ true := by
    have hup : ∀ was, (Event.visit rule₁ (.met true) run₁).latch rule₁.id was = true := by
      intro was
      simp [Event.latch, Verdict.isMet]
    rw [← hid, latchesAfter, follow_append, follow_cons, hup] at hlatch
    simpa using hlatch
  obtain ⟨early, event, late, rfl, _, hevent⟩ := follow_changed hfall
  rcases Event.latch_falls hevent with hrelease | ⟨rule, rfl, hrule⟩
  · exact ⟨event, by simp, hrelease⟩
  -- an added rule was not listed, so it was loaded away or deleted before
  · have hlaw := h.lawful (before ++ .visit rule₁ (.met true) run₁ :: early) (.added rule)
      (late ++ .visit rule₂ (.met true) run₂ :: after) (by simpa using heq)
    have hgone : follow (Event.listed rule₁.id) early true ≠ true := by
      simp only [Event.law, hrule, listAfter, follow_append, follow_cons] at hlaw hlisted
      rw [hlisted] at hlaw
      exact fun h => Bool.false_ne_true (hlaw.symm.trans h)
    obtain ⟨early', event, late', rfl, _, hevent⟩ := follow_changed hgone
    exact ⟨event, by simp, Event.listed_falls hevent⟩

/-- A rule that is armed fires at its next visit with all conditions met. -/
theorem Tracks.armed_fires (h : Tracks start engine history)
    {before between after : List Event} {event : Event} {rule : Rule} {fired : Bool}
    {run : List Executed}
    (heq : history = before ++ event :: (between ++ .visit rule (.met fired) run :: after))
    (harms : event.arms rule.id) (hbetween : ∀ e ∈ between, ¬e.visits rule.id) :
    fired = true ∧ run.map Executed.command = rule.commands := by
  obtain ⟨_, hfired, hrun⟩ := h.lawful (before ++ event :: between) (.visit rule (.met fired) run)
    after (by simpa using heq)
  have hdown : follow (Event.latch rule.id) between false = false :=
    follow_unchanged fun e he => Event.latch_stays_false (hbetween e he)
  rw [latchesAfter, follow_append, follow_cons, Event.latch_of_arms harms, hdown] at hfired
  subst hfired
  exact ⟨rfl, hrun⟩

end

/-- Rules fire exactly on rising edges, in every run of the operations. -/
theorem rules_fire_on_rising_edges {start engine : Engine} {history : List Event}
    (h : Run Step start engine history) :
    (∀ before between after rule₁ rule₂ run₁ run₂,
      history = before ++
        .visit rule₁ (.met true) run₁ :: (between ++ .visit rule₂ (.met true) run₂ :: after) →
      rule₁.id = rule₂.id → ∃ event ∈ between, event.releases rule₁.id) ∧
    (∀ before event between after rule fired run,
      history = before ++ event :: (between ++ .visit rule (.met fired) run :: after) →
      event.arms rule.id → (∀ e ∈ between, ¬e.visits rule.id) →
      fired = true ∧ run.map Executed.command = rule.commands) ∧
    ∀ inputs, (evaluateRules inputs engine).1.map Event.visited = engine.store.ids.map some := by
  have htracks := run_tracks h
  refine ⟨?_, ?_, fun inputs => evaluateRules_visited inputs engine⟩
  · intro before between after rule₁ rule₂ run₁ run₂ heq hid
    exact htracks.release_between heq hid
  · intro before event between after rule fired run heq harms hbetween
    exact htracks.armed_fires heq harms hbetween

/-- A rule without conditions. -/
def alarmRule : Rule where
  id := 1
  commands := [{ type := .send, data := ascii "RELAY 3 OFF" }]

theorem added_alarm_fires :
    ∃ engine run,
      Run Step {} engine [.added alarmRule, .visit alarmRule (.met true) run] ∧
      run.map Executed.command = alarmRule.commands := by
  have hstart : Run Step {} {} [] := .start
  have hadd := hstart.next ⟨⟨.addRule true alarmRule, rfl⟩, by decide⟩
  have hpass := hadd.next ⟨⟨.evaluateRules {}, rfl⟩, by decide⟩
  exact ⟨_, _, hpass, ((rules_fire_on_rising_edges hpass).2.1 [] (.added alarmRule) [] []
    alarmRule true _ rfl rfl (by simp)).2⟩

end InverterMonitor.Rules
