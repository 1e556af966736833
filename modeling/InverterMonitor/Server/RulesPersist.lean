import InverterMonitor.Server.RuleHistory
import InverterMonitor.Server.RuleSimulation

/-!
# Rules on the disk

Every operation that changes the rule list saves it, and a restart loads it.  The file either
takes the whole text or cannot be opened.

* `Switches`: what an operation makes of the list, and what its events tell of it;
* `survives_reload`: a list that was saved is read back as one that can be saved again;
* `rules_persist`: in every run the file can be loaded, and what it gives is the list in memory
  unless the last save failed;
* `restart_simulates`: then the server does after a restart what it would have done without one,
  its latches and variables cleared.
-/

namespace InverterMonitor.Rules
open Text Cxx Json Registers Runs

/-! ## What changes a list -/

/-- `saveRules` is called after the event. -/
def Event.saved : Event → Bool
  | .visit _ _ run => modified run
  | .executed _ run => modified run
  | .switched _ _ => true
  | .added _ => true
  | .deleted _ => true
  | .loaded _ => false

/-- Rules of the list were switched at most, and none if nothing changed. -/
structure Switches (before after : RuleStore) (changed : Bool) : Prop where
  rules : ∀ r ∈ after.rules, ∃ old ∈ before.rules, SameButEnabled old r
  unchanged : changed = false → after.rules = before.rules

namespace Switches

theorem of_rules_eq {before after : RuleStore} (h : after.rules = before.rules) (changed : Bool) :
    Switches before after changed :=
  ⟨fun r hr => ⟨r, h ▸ hr, rfl⟩, fun _ => h⟩

theorem setLatch {before after : RuleStore} {changed : Bool} (h : Switches before after changed)
    (id : UInt32) (value : Bool) : Switches before (after.setLatch id value) changed :=
  ⟨h.rules, h.unchanged⟩

theorem trans {a b c : RuleStore} {changed changed' : Bool} (hab : Switches a b changed)
    (hbc : Switches b c changed') : Switches a c (changed || changed') := by
  constructor
  · intro r hr
    obtain ⟨middle, hmiddle, hsame⟩ := hbc.rules r hr
    obtain ⟨old, hold, hsame'⟩ := hab.rules middle hmiddle
    refine ⟨old, hold, ?_⟩
    rw [SameButEnabled, hsame, hsame']
  · intro hquiet
    obtain ⟨hfirst, hsecond⟩ := Bool.or_eq_false_iff.mp hquiet
    rw [hbc.unchanged hsecond, hab.unchanged hfirst]

end Switches

theorem switchRule_switches {id : UInt32} {enabled : Bool} {rules rules' : List Rule}
    (h : switchRule id enabled rules = some rules') :
    ∀ r ∈ rules', ∃ old ∈ rules, SameButEnabled old r := by
  induction rules generalizing rules' with
  | nil => cases h
  | cons rule rules ih =>
    have hkept : ∀ r ∈ rules, ∃ old ∈ rule :: rules, SameButEnabled old r := fun r hr =>
      ⟨r, List.mem_cons_of_mem _ hr, rfl⟩
    unfold switchRule at h
    split at h
    · split at h
      · cases h
      · cases h
        exact List.forall_mem_cons.mpr ⟨⟨rule, List.mem_cons_self, rfl⟩, hkept⟩
    · obtain ⟨tail, htail, rfl⟩ := Option.map_eq_some_iff.mp h
      refine List.forall_mem_cons.mpr ⟨⟨rule, List.mem_cons_self, rfl⟩, fun r hr => ?_⟩
      obtain ⟨old, hold, hsame⟩ := ih htail r hr
      exact ⟨old, List.mem_cons_of_mem _ hold, hsame⟩

theorem setRuleEnabledInternal_switches (id : UInt32) (enabled : Bool) (store : RuleStore) :
    Switches store (setRuleEnabledInternal id enabled store).2
      (setRuleEnabledInternal id enabled store).1 := by
  unfold setRuleEnabledInternal
  cases h : switchRule id enabled store.rules with
  | none => exact .of_rules_eq rfl _
  | some rules =>
    refine ⟨?_, nofun⟩
    cases enabled with
    | true => exact switchRule_switches h
    | false => exact switchRule_switches h

theorem switchByCommand_switches (enabled : Bool) (command : RuleCommand) (engine : Engine) :
    Switches engine.store (switchByCommand enabled command engine).2.store
      (switchByCommand enabled command engine).1.switched.isSome := by
  have hswitch := setRuleEnabledInternal_switches (targetId command.data) enabled engine.store
  unfold switchByCommand
  simp only
  split
  · simp only [Engine.setStore_store]
    generalize (setRuleEnabledInternal (targetId command.data) enabled engine.store).1 = changed
      at hswitch ⊢
    cases changed with
    | true => exact hswitch
    | false => exact hswitch
  · exact .of_rules_eq rfl _

theorem executeRuleCommand_switches (command : RuleCommand) (engine : Engine) :
    Switches engine.store (executeRuleCommand command engine).2.store
      (executeRuleCommand command engine).1.switched.isSome := by
  unfold executeRuleCommand
  cases command.type with
  | enable => exact switchByCommand_switches true command engine
  | disable => exact switchByCommand_switches false command engine
  | send | setVar | addVar | subVar | system | unknown => exact .of_rules_eq rfl _

theorem runCommands_switches (commands : List RuleCommand) (engine : Engine) :
    Switches engine.store (runCommands commands engine).2.store
      (modified (runCommands commands engine).1) := by
  induction commands generalizing engine with
  | nil => exact .of_rules_eq rfl _
  | cons command commands ih => exact (executeRuleCommand_switches command engine).trans (ih _)

theorem visitRule_switches (inputs : Inputs) (k : Nat) (rule : Rule) (engine : Engine) :
    Switches engine.store (visitRule inputs k rule engine).2.store
      (visitRule inputs k rule engine).1.saved := by
  unfold visitRule
  split
  · split
    · simp only
      split
      · exact (Switches.of_rules_eq rfl _).setLatch _ _
      · exact (runCommands_switches rule.commands engine).setLatch _ _
    · exact (Switches.of_rules_eq rfl _).setLatch _ _
  · exact (Switches.of_rules_eq rfl _).setLatch _ _

theorem visitFrom_switches (inputs : Inputs) (n k : Nat) (engine : Engine) :
    Switches engine.store (visitFrom inputs n k engine).2.store
      ((visitFrom inputs n k engine).1.any Event.saved) := by
  induction n generalizing k engine with
  | zero => exact .of_rules_eq rfl _
  | succ n ih =>
    unfold visitFrom
    cases engine.store.rules[k]? with
    | none => exact .of_rules_eq rfl _
    | some rule => exact (visitRule_switches inputs k rule engine).trans (ih (k + 1) _)

theorem executeRuleCommands_switches (saves : Bool) (id : UInt32) (engine : Engine) :
    Switches engine.store (executeRuleCommands saves id engine).2.2.store
      ((executeRuleCommands saves id engine).2.1.any Event.saved) := by
  unfold executeRuleCommands
  split
  · exact .of_rules_eq rfl _
  · next rule _ =>
    rw [List.any_cons, List.any_nil, Bool.or_false]
    exact runCommands_switches rule.commands engine

/-! ## Rules that survive -/

/-- The rule can be saved and read back, again and again. -/
structure Survives (r : Rule) : Prop where
  readable : Readable r
  saveable : RuleSaveable r

theorem SameButEnabled.survives {r t : Rule} (h : SameButEnabled r t) (hr : Survives r) :
    Survives t :=
  ⟨h.readable_iff.mpr hr.readable, h.saveable_iff.mpr hr.saveable⟩

/-- The constant of a reloaded condition is saved as before. -/
theorem reloadCondition_saveable {c d : RuleCondition} (hc : ConditionSaveable c)
    (h : reloadCondition c = .ok d) : ConditionSaveable d := by
  by_cases hv : c.valueInputType = .unknown
  · rcases hc with hne | hc
    · exact absurd hv hne
    · rw [reloadCondition_constant hv, hc] at h
      cases h
      refine Or.inr (Eq.trans ?_ hc)
      unfold savedNumber
      cases c.valueIsString with
      | true => rfl
      | false => rfl
  · rw [reloadCondition, if_pos hv] at h
    cases h
    exact Or.inl hv

theorem forall₂_and {α : Type} {S : α → α → Prop} {P : α → Prop} {xs ys : List α}
    (h : List.Forall₂ (fun x y => S x y ∧ P y) xs ys) : List.Forall₂ S xs ys ∧ ∀ y ∈ ys, P y := by
  induction h with
  | nil => exact ⟨.nil, List.forall_mem_nil _⟩
  | cons hxy _ ih => exact ⟨.cons hxy.1 ih.1, List.forall_mem_cons.mpr ⟨hxy.2, ih.2⟩⟩

theorem reloadRule_saveable {r : Rule} (h : RuleSaveable r) :
    ∃ t, reloadRule r = .ok t ∧ SameRule r t ∧ RuleSaveable t := by
  obtain ⟨conditions, hconditions, hsame⟩ :=
    (mapM_same_iff (S := fun c d => SameCondition c d ∧ ConditionSaveable d) r.conditions).mpr
      fun c hc => by
        have hsaveable := h.conditions c hc
        obtain ⟨d, hd, hsame⟩ := (reloadCondition_same_iff c).mpr hsaveable
        exact ⟨d, hd, hsame, reloadCondition_saveable hsaveable hd⟩
  obtain ⟨commands, hcommands, heq⟩ := (mapM_same_iff (S := Eq) r.commands).mpr
    fun c hc => (reloadCommand_same_iff c).mpr (h.commands c hc)
  rw [List.forall₂_eq_eq_eq] at heq
  obtain ⟨hsame, hkept⟩ := forall₂_and hsame
  refine ⟨{ r with conditions := conditions, commands := commands }, ?_,
    ⟨rfl, rfl, rfl, hsame, heq⟩, hkept, ?_⟩
  · simp [reloadRule, hconditions, hcommands]
  · rw [← heq]
    exact h.commands

/-- What is saved can be read back, and saved again. -/
theorem survives_reload {rules : List Rule} (h : ∀ r ∈ rules, Survives r) :
    ∃ reloaded, parseRulesArray (rulesFileText rules) = .ok reloaded ∧
      List.Forall₂ SameRule rules reloaded ∧ ∀ r ∈ reloaded, Survives r := by
  have hparse := parseRulesArray_rulesFileText (fun r hr => (h r hr).readable.id_ne_zero)
    fun r hr => (h r hr).readable.finite
  obtain ⟨reloaded, hreloaded, hsame⟩ :=
    (mapM_same_iff (S := fun r t => SameRule r t ∧ RuleSaveable t) rules).mpr fun r hr =>
      reloadRule_saveable (h r hr).saveable
  rw [hreloaded] at hparse
  obtain ⟨hsame, hsaveable⟩ := forall₂_and hsame
  exact ⟨reloaded, hparse, hsame, fun r hr =>
    ⟨parseRulesArray_readable hparse r hr, hsaveable r hr⟩⟩

/-! ## The engine and its file -/

structure Stored where
  engine : Engine
  /-- `rules.json`, if there is one. -/
  file : Option Bytes

/-- What the server is asked to do with its rules. -/
inductive Request
  | reloadRules
  | addRule (rule : Rule)
  | deleteRule (id : UInt32)
  | setRuleEnabled (id : UInt32) (enabled : Bool)
  | executeRuleCommands (id : UInt32)
  | evaluateRules (inputs : Inputs)
  | setVariable (key : UInt32) (value : Float)

/-- `saves` tells whether the file can be opened for writing. -/
def Request.operation (file : Option Bytes) (saves : Bool) : Request → Operation
  | .reloadRules => .loadRules file
  | .addRule rule => .addRule saves rule
  | .deleteRule id => .deleteRule saves id
  | .setRuleEnabled id enabled => .setRuleEnabled saves id enabled
  | .executeRuleCommands id => .executeRuleCommands saves id
  | .evaluateRules inputs => .evaluateRules inputs
  | .setVariable key value => .setVariable key value

/-- A rule that is added can be saved. -/
def Request.Saveable : Request → Prop
  | .addRule rule => RuleSaveable rule ∧ ∀ c ∈ rule.conditions, FiniteConstant c
  | _ => True

/-- The server starts with the rules of the file; whether they could be loaded is ignored. -/
def boot (file : Option Bytes) : Except Failure Engine :=
  (loadRules file {}).map fun loaded => { store := loaded.2 }

inductive StoredEvent
  | saved (written : Bool)
  | loaded
  deriving DecidableEq

def storedEvents (request : Request) (events : List Event) (saves : Bool) : List StoredEvent :=
  match request with
  | .reloadRules => if events.isEmpty then [] else [.loaded]
  | _ => if events.any Event.saved then [.saved saves] else []

/-- The list is saved once, after all changes. -/
def Stored.after (s : Stored) (engine : Engine) (events : List Event) (saves : Bool) : Stored where
  engine := engine
  file := if events.any Event.saved && saves then some (rulesFileText engine.store.rules) else s.file

/-- A request, or a restart. -/
inductive StoredStep (s : Stored) : Stored → List StoredEvent → Prop
  | request (request : Request) (hsaveable : request.Saveable) (saves : Bool) {engine : Engine}
      {events : List Event}
      (hperform : perform (request.operation s.file saves) s.engine = .ok (engine, events)) :
      StoredStep s (s.after engine events saves) (storedEvents request events saves)
  | restart {engine : Engine} (hboot : boot s.file = .ok engine) :
      StoredStep s ⟨engine, s.file⟩ [.loaded]

/-- The last change was saved, or a load came after it. -/
def Synced (history : List StoredEvent) : Prop := history.getLast? ≠ some (.saved false)

instance (history : List StoredEvent) : Decidable (Synced history) :=
  inferInstanceAs (Decidable (history.getLast? ≠ some (.saved false)))

/-- The rules that a load of the file gives. -/
def fileRules : Option Bytes → Except Failure (List Rule)
  | none => .ok []
  | some content => parseRulesArray content

theorem loadRules_fileRules {file : Option Bytes} {rules : List Rule}
    (h : fileRules file = .ok rules) (store : RuleStore) :
    loadRules file store = .ok (true, loadedStore rules) := by
  cases file with
  | none =>
    cases h
    rfl
  | some content =>
    unfold fileRules at h
    simp only [loadRules, h]

/-- What holds of memory and file. -/
structure Persists (s : Stored) (history : List StoredEvent) : Prop where
  memory : ∀ r ∈ s.engine.store.rules, Survives r
  file : ∃ rules, fileRules s.file = .ok rules ∧ (∀ r ∈ rules, Survives r) ∧
    (Synced history → List.Forall₂ SameRule s.engine.store.rules rules)

/-- A save leaves a file that gives the list back; a failed one leaves the file alone. -/
theorem Persists.change {s : Stored} {history : List StoredEvent} (h : Persists s history)
    {engine : Engine} {events : List Event} (saves : Bool)
    (hmemory : ∀ r ∈ engine.store.rules, Survives r)
    (hquiet : events.any Event.saved = false → engine.store.rules = s.engine.store.rules) :
    Persists (s.after engine events saves)
      (history ++ if events.any Event.saved then [.saved saves] else []) := by
  refine ⟨hmemory, ?_⟩
  obtain ⟨rules, hrules, hsurvives, hsame⟩ := h.file
  unfold Stored.after
  cases hsaved : events.any Event.saved with
  | false =>
    rw [hquiet hsaved]
    simp only [Bool.false_and, Bool.false_eq_true, ↓reduceIte, List.append_nil]
    exact ⟨rules, hrules, hsurvives, hsame⟩
  | true =>
    simp only [Bool.true_and, ↓reduceIte]
    cases saves with
    | true =>
      obtain ⟨reloaded, hparse, hsame, hsurvives⟩ := survives_reload hmemory
      exact ⟨reloaded, hparse, hsurvives, fun _ => hsame⟩
    | false => exact ⟨rules, hrules, hsurvives, fun hsynced => absurd (by simp) hsynced⟩

/-- A request that only switches rules. -/
theorem Persists.switch {s : Stored} {history : List StoredEvent} (h : Persists s history)
    {engine : Engine} {events : List Event} (saves : Bool)
    (hswitches : Switches s.engine.store engine.store (events.any Event.saved)) :
    Persists (s.after engine events saves)
      (history ++ if events.any Event.saved then [.saved saves] else []) := by
  refine h.change saves (fun r hr => ?_) hswitches.unchanged
  obtain ⟨old, hold, hsame⟩ := hswitches.rules r hr
  exact hsame.survives (h.memory old hold)

theorem survives_withRuleId (rules : List Rule) {rule : Rule} (hsaveable : RuleSaveable rule)
    (hfinite : ∀ c ∈ rule.conditions, FiniteConstant c) : Survives (withRuleId rules rule) := by
  refine ⟨⟨withRuleId_id_ne_zero rules rule, ?_⟩, ?_⟩
  · rw [withRuleId_conditions]
    exact hfinite
  · unfold withRuleId
    split
    · exact ⟨hsaveable.conditions, hsaveable.commands⟩
    · exact hsaveable

/-- The step lemma for a request. -/
theorem Persists.request {s : Stored} {history : List StoredEvent} (h : Persists s history)
    {request : Request} (hsaveable : request.Saveable) (saves : Bool) {engine : Engine}
    {events : List Event}
    (hperform : perform (request.operation s.file saves) s.engine = .ok (engine, events)) :
    Persists (s.after engine events saves) (history ++ storedEvents request events saves) := by
  cases request with
  | reloadRules =>
    obtain ⟨rules, hrules, hsurvives, -⟩ := h.file
    simp only [Request.operation, perform, loadRules_fileRules hrules] at hperform
    cases hperform
    exact ⟨hsurvives, rules, hrules, hsurvives, fun _ => List.forall₂_same.mpr fun r _ => .refl r⟩
  | addRule rule =>
    simp only [Request.operation, perform] at hperform
    split at hperform
    · cases hperform
      exact h.change saves h.memory fun _ => rfl
    · next htaken =>
      cases hperform
      refine h.change saves ?_ fun hquiet => by cases hquiet
      have hrules : (Rules.addRule saves rule s.engine.store).2.rules =
          s.engine.store.rules ++ [withRuleId s.engine.store.rules rule] := by
        rw [Rules.addRule, if_neg htaken]
        rfl
      rw [Engine.setStore_store, hrules]
      intro r hr
      rcases List.mem_append.mp hr with hold | hnew
      · exact h.memory r hold
      · rw [List.mem_singleton.mp hnew]
        exact survives_withRuleId _ hsaveable.1 hsaveable.2
  | deleteRule id =>
    cases hperform
    refine h.change saves ?_ ?_
    · rw [Engine.setStore_store, Rules.deleteRule]
      split
      · exact fun r hr => h.memory r (List.mem_filter.mp hr).1
      · exact h.memory
    · rw [Engine.setStore_store, Rules.deleteRule]
      split
      · exact fun hquiet => by cases hquiet
      · exact fun _ => rfl
  | setRuleEnabled id enabled =>
    cases hperform
    have hswitches := setRuleEnabledInternal_switches id enabled s.engine.store
    refine h.switch saves ?_
    rw [Engine.setStore_store, Rules.setRuleEnabled]
    cases hchanged : (setRuleEnabledInternal id enabled s.engine.store).1 with
    | true =>
      rw [hchanged] at hswitches
      exact hswitches
    | false =>
      rw [hchanged] at hswitches
      exact hswitches
  | executeRuleCommands id =>
    cases hperform
    exact h.switch saves (executeRuleCommands_switches saves id s.engine)
  | evaluateRules inputs =>
    cases hperform
    exact h.switch saves (visitFrom_switches inputs _ 0 s.engine)
  | setVariable key value =>
    cases hperform
    exact h.change saves h.memory fun _ => rfl

theorem Persists.restart {s : Stored} {history : List StoredEvent} (h : Persists s history)
    {engine : Engine} (hboot : boot s.file = .ok engine) :
    Persists ⟨engine, s.file⟩ (history ++ [.loaded]) := by
  obtain ⟨rules, hrules, hsurvives, -⟩ := h.file
  rw [boot, loadRules_fileRules hrules] at hboot
  cases hboot
  exact ⟨hsurvives, rules, hrules, hsurvives, fun _ => List.forall₂_same.mpr fun r _ => .refl r⟩

/-- A server that has just started, with a file whose rules can be saved. -/
structure Stored.Started (s : Stored) : Prop where
  boot : boot s.file = .ok s.engine
  file : ∃ rules, fileRules s.file = .ok rules ∧ ∀ r ∈ rules, RuleSaveable r

theorem Stored.Started.persists {s : Stored} (h : s.Started) : Persists s [] := by
  obtain ⟨rules, hrules, hsaveable⟩ := h.file
  have hboot := h.boot
  rw [Rules.boot, loadRules_fileRules hrules] at hboot
  have hengine : s.engine = { store := loadedStore rules } := (Except.ok.inj hboot).symm
  have hsurvives : ∀ r ∈ rules, Survives r := by
    intro r hr
    refine ⟨?_, hsaveable r hr⟩
    cases hfile : s.file with
    | none =>
      rw [hfile] at hrules
      cases hrules
      cases hr
    | some content =>
      rw [hfile] at hrules
      exact parseRulesArray_readable hrules r hr
  refine ⟨?_, rules, hrules, hsurvives, fun _ => ?_⟩
  · rw [hengine]
    exact hsurvives
  · rw [hengine]
    exact List.forall₂_same.mpr fun r _ => .refl r

variable {start s : Stored} {history : List StoredEvent}

theorem run_persists (hstart : start.Started) (hrun : Run StoredStep start s history) :
    Persists s history := by
  refine hrun.invariant (P := Persists) hstart.persists ?_
  intro s s' history events h hstep
  cases hstep with
  | request request hsaveable saves hperform => exact h.request hsaveable saves hperform
  | restart hboot => exact h.restart hboot

/-- In every run of requests, restarts and saves that fail, in which only rules are added that
can be saved: the file can be loaded, and unless the last save failed it gives the rules in
memory, switched on and off as they are. -/
theorem rules_persist (hstart : start.Started) (hrun : Run StoredStep start s history) :
    ∃ rules, fileRules s.file = .ok rules ∧
      (Synced history → List.Forall₂ SameRule s.engine.store.rules rules) := by
  obtain ⟨rules, hrules, -, hsame⟩ := (run_persists hstart hrun).file
  exact ⟨rules, hrules, hsame⟩

/-! ## A restart -/

/-- The engine with all latches off and no variables. -/
def Engine.cleared (engine : Engine) : Engine := { store := loadedStore engine.store.rules }

/-- In every run whose last save did not fail: whatever is asked next, the server does after a
restart what it would have done with its latches and variables cleared. -/
theorem restart_simulates (hstart : start.Started) (hrun : Run StoredStep start s history)
    (hsynced : Synced history) :
    ∃ booted, boot s.file = .ok booted ∧
      ∀ operations, Matches SameEngine Event.outline
        (performAll perform operations s.engine.cleared)
        (performAll perform operations booted) := by
  obtain ⟨rules, hrules, -, hsame⟩ := (run_persists hstart hrun).file
  refine ⟨{ store := loadedStore rules }, ?_, fun operations => ?_⟩
  · rw [boot, loadRules_fileRules hrules]
    rfl
  · refine performAll_matches (fun operation _ _ h => perform_matches operation h) operations ?_
    refine ⟨⟨hsame hsynced, fun id => ?_⟩, rfl⟩
    rw [Engine.cleared, loadedStore_latch, loadedStore_latch]

/-! ## A rule that is added, fires and is kept -/

def Stored.request (s : Stored) (request : Request) (saves : Bool) :
    Except Failure (Stored × List StoredEvent) := do
  let (engine, events) ← perform (request.operation s.file saves) s.engine
  return (s.after engine events saves, storedEvents request events saves)

/-- Requests one after the other. -/
def Stored.requests : List (Request × Bool) → Stored → Except Failure (Stored × List StoredEvent)
  | [], s => .ok (s, [])
  | (request, saves) :: requests, s => do
    let (s, events) ← s.request request saves
    let (s, more) ← s.requests requests
    return (s, events ++ more)

theorem run_requests {requests : List (Request × Bool)}
    (hsaveable : ∀ asked ∈ requests, asked.1.Saveable) {s s' : Stored} {events : List StoredEvent}
    (h : s.requests requests = .ok (s', events)) : Run StoredStep s s' events := by
  induction requests generalizing s events with
  | nil =>
    cases h
    exact .start
  | cons asked requests ih =>
    obtain ⟨request, saves⟩ := asked
    obtain ⟨hfirst, hrest⟩ := List.forall_mem_cons.mp hsaveable
    obtain ⟨⟨middle, first⟩, hrequest, h⟩ := bind_eq_ok.mp h
    obtain ⟨⟨last, more⟩, hrequests, h⟩ := bind_eq_ok.mp h
    obtain ⟨⟨engine, seen⟩, hperform, hmiddle⟩ := bind_eq_ok.mp hrequest
    cases h
    cases hmiddle
    exact (Run.next .start (.request request hfirst saves hperform)).trans (ih hrest hrequests)

def idleText : Bytes := ascii "[\x7b\"id\":1,\"name\":\"idle\"\x7d]"

def idleRule : Rule := { id := 1, name := ascii "idle" }

def idling : Stored := ⟨{ store := loadedStore [idleRule] }, some idleText⟩

theorem idling_started : idling.Started := by
  have hrules : fileRules idling.file = .ok [idleRule] := by decide +kernel
  refine ⟨?_, [idleRule], hrules, ?_⟩
  · rw [boot, loadRules_fileRules hrules]
    rfl
  · intro r hr
    rw [List.mem_singleton.mp hr]
    exact ⟨List.forall_mem_nil _, List.forall_mem_nil _⟩

/-- Above 25.5 the rule sends a command and disables the rule 1. -/
def wateringRule : Rule where
  name := ascii "watering"
  conditions := [{ inputType := .variable, inputAddress := 1, op := .greater, valueNumber := 25.5 }]
  commands :=
    [{ type := .send, data := ascii "RELAY 1 ON" }, { type := .disable, data := ascii "1" }]

theorem wateringRule_saveable : (Request.addRule wateringRule).Saveable := by
  refine ⟨⟨fun c hc => Or.inr ?_, fun c hc => ?_⟩, fun c hc => ?_⟩
  · rw [List.mem_singleton.mp hc]
    decide +kernel
  · rcases List.mem_pair.mp hc with rfl | rfl
    · exact Or.inr (Or.inl (by decide +kernel))
    · exact Or.inr (Or.inr ⟨⟨decimalParts 1, by decide⟩, by decide⟩)
  · rw [List.mem_singleton.mp hc]
    exact fun _ => by decide +kernel

/-- The rule is added, fires while the file cannot be opened, and is disabled. -/
def wateringRequests : List (Request × Bool) :=
  [(.addRule wateringRule, true), (.setVariable 1 30, true), (.evaluateRules {}, false),
    (.setRuleEnabled 2 false, true)]

/-- The server afterwards. -/
theorem watering_run : ∃ s, Run StoredStep idling s [.saved true, .saved false, .saved true] ∧
    s.engine.store.rules =
      [{ idleRule with enabled := false }, { wateringRule with id := 2, enabled := false }] := by
  have hresult : (idling.requests wateringRequests).toOption.map (fun result =>
      (result.1.engine.store.rules, result.2)) =
        some ([{ idleRule with enabled := false }, { wateringRule with id := 2, enabled := false }],
          [.saved true, .saved false, .saved true]) := by
    decide +kernel
  cases hrequests : idling.requests wateringRequests with
  | error failure =>
    rw [hrequests] at hresult
    cases hresult
  | ok result =>
    obtain ⟨s, events⟩ := result
    rw [hrequests] at hresult
    obtain ⟨hrules, hevents⟩ := Prod.mk.inj (Option.some.inj hresult)
    refine ⟨s, ?_, hrules⟩
    rw [← hevents]
    refine run_requests (fun asked hasked => ?_) hrequests
    simp only [wateringRequests, List.mem_cons, List.not_mem_nil, or_false] at hasked
    rcases hasked with rfl | rfl | rfl | rfl
    · exact wateringRule_saveable
    · trivial
    · trivial
    · trivial

theorem watering_persists :
    ∃ s rules, Run StoredStep idling s [.saved true, .saved false, .saved true] ∧
      fileRules s.file = .ok rules ∧ List.Forall₂ SameRule
        [{ idleRule with enabled := false }, { wateringRule with id := 2, enabled := false }]
        rules := by
  obtain ⟨s, hrun, hrules⟩ := watering_run
  obtain ⟨rules, hfile, hsame⟩ := rules_persist idling_started hrun
  exact ⟨s, rules, hrun, hfile, hrules ▸ hsame (by decide)⟩

/-- After a restart the rule is enabled and fires again. -/
theorem watering_restarts :
    ∃ s booted, Run StoredStep idling s [.saved true, .saved false, .saved true] ∧
      boot s.file = .ok booted ∧ ∀ inputs, Matches SameEngine Event.outline
        (performAll perform [.setRuleEnabled true 2 true, .setVariable 1 30, .evaluateRules inputs]
          s.engine.cleared)
        (performAll perform [.setRuleEnabled true 2 true, .setVariable 1 30, .evaluateRules inputs]
          booted) := by
  obtain ⟨s, hrun, -⟩ := watering_run
  obtain ⟨booted, hboot, hmatches⟩ := restart_simulates idling_started hrun (by decide)
  exact ⟨s, booted, hrun, hboot, fun inputs => hmatches _⟩

end InverterMonitor.Rules
