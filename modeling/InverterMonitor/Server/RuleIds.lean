import InverterMonitor.Server.RuleHistory
import InverterMonitor.Server.RulesRoundTrip

/-!
# The ids of the rules

Ids come from the rules file, from the callers of `addRule`, and from the running
maximum of both `parseRulesArray` and `addRule`.

* `nextId_mem_iff`: the running maximum meets a listed id only when the two largest
  ids are listed;
* `assign_nodup_iff`: which written ids leave a loaded list without duplicates;
* `ids_unique_iff`: over a whole run, ids are never zero and are the keys of
  `ruleLastState`, and they stay distinct exactly when each load and each addition
  has room for its ids.
-/

namespace InverterMonitor.Rules
open Text Cxx Json Registers Runs

/-! ## The running maximum -/

/-- `nextRuleId` on the ids alone. -/
def nextId (ids : List UInt32) : UInt32 := ids.foldl (fun nextId id => max nextId (id + 1)) 1

/-- The two largest ids are listed. -/
def Exhausted (ids : List UInt32) : Prop := 4294967294 ∈ ids ∧ 4294967295 ∈ ids

theorem nextRuleId_ids (rules : List Rule) : nextRuleId rules = nextId (rules.map Rule.id) := by
  unfold nextRuleId nextId
  rw [List.foldl_map]

theorem toNat_max (a b : UInt32) : (max a b).toNat = max a.toNat b.toNat := by
  change (if a ≤ b then b else a).toNat = _
  split
  · next h =>
    rw [UInt32.le_iff_toNat_le] at h
    omega
  · next h =>
    rw [UInt32.le_iff_toNat_le] at h
    omega

theorem max_cases (a b : UInt32) : max a b = a ∨ max a b = b := by
  change (if a ≤ b then b else a) = a ∨ (if a ≤ b then b else a) = b
  split
  · exact Or.inr rfl
  · exact Or.inl rfl

theorem foldl_max_spec (ids : List UInt32) (n : UInt32) :
    n.toNat ≤ (ids.foldl (fun nextId id => max nextId (id + 1)) n).toNat ∧
      (∀ id ∈ ids,
        (id + 1).toNat ≤ (ids.foldl (fun nextId id => max nextId (id + 1)) n).toNat) ∧
      (ids.foldl (fun nextId id => max nextId (id + 1)) n = n ∨
        ∃ id ∈ ids, ids.foldl (fun nextId id => max nextId (id + 1)) n = id + 1) := by
  induction ids generalizing n with
  | nil => simp
  | cons id ids ih =>
    obtain ⟨hle, hall, hfrom⟩ := ih (max n (id + 1))
    rw [toNat_max] at hle
    rw [List.foldl_cons]
    refine ⟨by omega, ?_, ?_⟩
    · intro other hother
      rcases List.mem_cons.mp hother with rfl | hother
      · omega
      · exact hall other hother
    · rcases hfrom with hfrom | ⟨other, hother, hfrom⟩
      · rw [hfrom]
        rcases max_cases n (id + 1) with hmax | hmax
        · exact Or.inl hmax
        · exact Or.inr ⟨id, List.mem_cons_self .., hmax⟩
      · exact Or.inr ⟨other, List.mem_cons_of_mem _ hother, hfrom⟩

theorem nextId_mem_iff (ids : List UInt32) : nextId ids ∈ ids ↔ Exhausted ids := by
  obtain ⟨_, hall, hfrom⟩ := foldl_max_spec ids 1
  change (∀ id ∈ ids, (id + 1).toNat ≤ (nextId ids).toNat) at hall
  change (nextId ids = 1 ∨ ∃ id ∈ ids, nextId ids = id + 1) at hfrom
  constructor
  · intro hmem
    -- an id that is its own upper bound has wrapped
    have hlast : nextId ids = 4294967295 := by
      have hwrap := hall _ hmem
      rw [UInt32.toNat_add] at hwrap
      apply UInt32.toNat_inj.mp
      have := (nextId ids).toNat_lt
      simp only [UInt32.reduceToNat] at hwrap ⊢
      omega
    rw [hlast] at hmem hfrom
    rcases hfrom with hfrom | ⟨id, hid, hfrom⟩
    · exact absurd hfrom (by decide)
    · have hprevious : id = 4294967294 := by
        rw [← UInt32.add_sub_cancel id 1, ← hfrom]
        rfl
      exact ⟨hprevious ▸ hid, hmem⟩
  · rintro ⟨hprevious, hlast⟩
    have hle := hall _ hprevious
    have heq : nextId ids = 4294967295 := by
      apply UInt32.toNat_inj.mp
      have := (nextId ids).toNat_lt
      change 4294967295 ≤ (nextId ids).toNat at hle
      change (nextId ids).toNat = 4294967295
      omega
    rw [heq]
    exact hlast

/-! ## Ids in a rules file -/

/-- The rules as they are written in the file, without an id where none is given. -/
def writtenRules (data : Bytes) : Except Failure (List Rule) :=
  (parseArray (parseRuleObject (loopBound data)) pushBack (loopBound data) (.inside data)).map
    Prod.fst

/-- What is done with each element does not change what is read. -/
theorem parseElements_foldl {α : Type} (element : Cursor → Except Failure (α × Cursor))
    (push : List α → α → List α) (out : List α) (fuel : Nat) (read : List α) (c : Cursor) :
    parseElements element push fuel (read.foldl push out) c =
      (parseElements element pushBack fuel read c).map
        fun result => (result.1.foldl push out, result.2) := by
  induction fuel generalizing read c with
  | zero => rfl
  | succ fuel ih =>
    unfold parseElements
    simp only
    cases (skipWhitespace c).rest with
    | nil => rfl
    | cons b s =>
      simp only
      by_cases hclose : b = ']'
      · rw [if_pos hclose, if_pos hclose]
        rfl
      · rw [if_neg hclose, if_neg hclose]
        cases element (skipWhitespace c) with
        | error failure => rfl
        | ok result =>
          have hpush : push (read.foldl push out) result.1 =
              (pushBack read result.1).foldl push out := by
            rw [pushBack, List.foldl_append]
            rfl
          simp only [bind, Except.bind]
          rw [hpush]
          exact ih _ _

theorem parseRulesArray_written (data : Bytes) :
    parseRulesArray data = (writtenRules data).map fun written => written.foldl pushRule [] := by
  unfold parseRulesArray writtenRules parseArray
  cases consumeChar (.inside data) '[' with
  | mk found c =>
    cases found with
    | false => rfl
    | true =>
      have hread := parseElements_foldl (parseRuleObject (loopBound data)) pushRule []
        (loopBound data) [] c
      rw [List.foldl_nil] at hread
      simp only [hread]
      cases parseElements (parseRuleObject (loopBound data)) pushBack (loopBound data) [] c with
      | error failure => rfl
      | ok result => rfl

/-- The id of a rule behind rules with the ids `taken`. -/
def givenId (taken : List UInt32) (id : UInt32) : UInt32 := if id = 0 then nextId taken else id

def assign (taken written : List UInt32) : List UInt32 :=
  written.foldl (fun taken id => taken ++ [givenId taken id]) taken

/-- There is room for a rule: its id is not taken, or the next one is not. -/
def Room (taken : List UInt32) (id : UInt32) : Prop :=
  if id = 0 then ¬Exhausted taken else id ∉ taken

/-- There is room for every written rule behind those before it. -/
def HasRoom : List UInt32 → List UInt32 → Prop
  | _, [] => True
  | taken, id :: written => Room taken id ∧ HasRoom (taken ++ [givenId taken id]) written

theorem room_iff (taken : List UInt32) (id : UInt32) : Room taken id ↔ givenId taken id ∉ taken := by
  unfold Room givenId
  by_cases hid : id = 0
  · rw [if_pos hid, if_pos hid, nextId_mem_iff]
  · rw [if_neg hid, if_neg hid]

theorem prefix_assign (taken written : List UInt32) : taken <+: assign taken written := by
  induction written generalizing taken with
  | nil => exact List.prefix_rfl
  | cons id written ih => exact (List.prefix_append _ _).trans (ih (taken ++ [givenId taken id]))

theorem nodup_concat {taken : List UInt32} (h : taken.Nodup) (id : UInt32) :
    (taken ++ [id]).Nodup ↔ id ∉ taken := by
  rw [← List.concat_eq_append, List.nodup_concat]
  exact ⟨fun hconcat => hconcat.1, fun hid => ⟨hid, h⟩⟩

theorem assign_nodup_iff {taken : List UInt32} (written : List UInt32) (h : taken.Nodup) :
    (assign taken written).Nodup ↔ HasRoom taken written := by
  induction written generalizing taken with
  | nil => exact iff_of_true h trivial
  | cons id written ih =>
    have hconcat := nodup_concat h (givenId taken id)
    unfold HasRoom
    rw [room_iff]
    constructor
    · intro hall
      have hfirst := hall.sublist (prefix_assign (taken ++ [givenId taken id]) written).sublist
      exact ⟨hconcat.mp hfirst, (ih hfirst).mp hall⟩
    · rintro ⟨hroom, hrest⟩
      exact (ih (hconcat.mpr hroom)).mpr hrest

theorem withRuleId_id (rules : List Rule) (rule : Rule) :
    (withRuleId rules rule).id = givenId (rules.map Rule.id) rule.id := by
  unfold withRuleId givenId
  by_cases hid : rule.id = 0
  · rw [if_pos hid, if_pos hid]
    exact nextRuleId_ids rules
  · rw [if_neg hid, if_neg hid]

theorem foldl_pushRule_ids (written out : List Rule) :
    (written.foldl pushRule out).map Rule.id = assign (out.map Rule.id) (written.map Rule.id) := by
  induction written generalizing out with
  | nil => rfl
  | cons rule written ih =>
    have hpush : (pushRule out rule).map Rule.id =
        out.map Rule.id ++ [givenId (out.map Rule.id) rule.id] := by
      rw [pushRule, pushBack, List.map_append, List.map_singleton, withRuleId_id]
    rw [List.foldl_cons, ih, hpush]
    rfl

/-! ## The keys of the latches -/

/-- No id is zero, and the listed ids are the keys of `ruleLastState`. -/
structure KeysListed (store : RuleStore) : Prop where
  nonzero : ∀ id ∈ store.ids, id ≠ 0
  keys : ∀ id, id ∈ store.ruleLastState ↔ id ∈ store.ids

/-- The ids stay in their places, and the keys with them. -/
structure KeepsIds (store store' : RuleStore) : Prop where
  ids : store'.ids = store.ids
  keys : KeysListed store → KeysListed store'

namespace KeepsIds

theorem refl (store : RuleStore) : KeepsIds store store := ⟨rfl, id⟩

theorem trans {a b c : RuleStore} (hab : KeepsIds a b) (hbc : KeepsIds b c) : KeepsIds a c :=
  ⟨hbc.ids.trans hab.ids, fun h => hbc.keys (hab.keys h)⟩

theorem setLatch {store : RuleStore} {id : UInt32} (hid : id ∈ store.ids) (value : Bool) :
    KeepsIds store (store.setLatch id value) where
  ids := rfl
  keys h := by
    refine ⟨h.nonzero, fun other => ?_⟩
    rw [RuleStore.setLatch_ids, RuleStore.setLatch, Std.ExtTreeMap.mem_insert, h.keys]
    constructor
    · rintro (heq | hother)
      · exact Std.LawfulEqCmp.eq_of_compare heq ▸ hid
      · exact hother
    · exact Or.inr

theorem setRules {store : RuleStore} {rules : List Rule}
    (hids : rules.map Rule.id = store.ids) : KeepsIds store (store.setRules rules) where
  ids := hids
  keys h := by
    have hsame : (store.setRules rules).ids = store.ids := hids
    refine ⟨?_, ?_⟩
    · rw [hsame]
      exact h.nonzero
    · intro other
      rw [hsame]
      exact h.keys other

end KeepsIds

theorem switchRule_mem {id : UInt32} {enabled : Bool} {rules rules' : List Rule}
    (h : switchRule id enabled rules = some rules') : id ∈ rules.map Rule.id := by
  induction rules generalizing rules' with
  | nil => cases h
  | cons rule rules ih =>
    unfold switchRule at h
    by_cases hid : rule.id = id
    · exact hid ▸ List.mem_cons_self ..
    · rw [if_neg hid] at h
      obtain ⟨tail, htail, _⟩ := Option.map_eq_some_iff.mp h
      exact List.mem_cons_of_mem _ (ih htail)

theorem setRuleEnabledInternal_keeps (id : UInt32) (enabled : Bool) (store : RuleStore) :
    KeepsIds store (setRuleEnabledInternal id enabled store).2 := by
  unfold setRuleEnabledInternal
  cases h : switchRule id enabled store.rules with
  | none => exact .refl store
  | some rules =>
    have hrules : KeepsIds store (store.setRules rules) := .setRules (switchRule_ids h)
    cases enabled with
    | true => exact hrules
    | false =>
      refine hrules.trans (.setLatch ?_ false)
      rw [hrules.ids]
      exact switchRule_mem h

theorem switchByCommand_keeps (enabled : Bool) (command : RuleCommand) (engine : Engine) :
    KeepsIds engine.store (switchByCommand enabled command engine).2.store := by
  unfold switchByCommand
  simp only
  split
  · exact setRuleEnabledInternal_keeps _ enabled engine.store
  · exact .refl _

theorem executeRuleCommand_keeps (command : RuleCommand) (engine : Engine) :
    KeepsIds engine.store (executeRuleCommand command engine).2.store := by
  unfold executeRuleCommand
  cases command.type with
  | enable => exact switchByCommand_keeps true command engine
  | disable => exact switchByCommand_keeps false command engine
  | send | setVar | addVar | subVar | system | unknown => exact .refl _

theorem runCommands_keeps (commands : List RuleCommand) (engine : Engine) :
    KeepsIds engine.store (runCommands commands engine).2.store := by
  induction commands generalizing engine with
  | nil => exact .refl _
  | cons command commands ih => exact (executeRuleCommand_keeps command engine).trans (ih _)

theorem visitRule_keeps (inputs : Inputs) (k : Nat) {rule : Rule} {engine : Engine}
    (hrule : rule ∈ engine.store.rules) :
    KeepsIds engine.store (visitRule inputs k rule engine).2.store := by
  have hid : rule.id ∈ engine.store.ids := List.mem_map_of_mem hrule
  unfold visitRule
  split
  · split
    · simp only
      split
      · exact .setLatch hid true
      · have hrun := runCommands_keeps rule.commands engine
        refine hrun.trans (.setLatch ?_ true)
        rw [hrun.ids]
        exact hid
    · exact .setLatch hid false
  · exact .setLatch hid false

theorem visitFrom_keeps (inputs : Inputs) (n k : Nat) (engine : Engine) :
    KeepsIds engine.store (visitFrom inputs n k engine).2.store := by
  induction n generalizing k engine with
  | zero => exact .refl _
  | succ n ih =>
    unfold visitFrom
    cases hrule : engine.store.rules[k]? with
    | none => exact .refl _
    | some rule =>
      exact (visitRule_keeps inputs k (List.mem_of_getElem? hrule)).trans (ih (k + 1) _)

theorem executeRuleCommands_keeps (saves : Bool) (id : UInt32) (engine : Engine) :
    KeepsIds engine.store (executeRuleCommands saves id engine).2.2.store := by
  unfold executeRuleCommands
  split
  · exact .refl _
  · exact runCommands_keeps _ engine

/-! ## Loading, adding and deleting -/

theorem mem_loadedStore (rules : List Rule) (id : UInt32) :
    id ∈ (loadedStore rules).ruleLastState ↔ id ∈ rules.map Rule.id := by
  have hfold : ∀ latches : Std.ExtTreeMap UInt32 Bool,
      id ∈ rules.foldl (fun latches rule => latches.insert rule.id false) latches ↔
        id ∈ latches ∨ id ∈ rules.map Rule.id := by
    induction rules with
    | nil => simp
    | cons rule rules ih =>
      intro latches
      rw [List.foldl_cons, ih, Std.ExtTreeMap.mem_insert, List.map_cons, List.mem_cons,
        Std.LawfulEqCmp.compare_eq_iff_eq]
      tauto
  have hempty : ¬id ∈ (∅ : Std.ExtTreeMap UInt32 Bool) := Std.ExtTreeMap.not_mem_empty
  exact (hfold ∅).trans (or_iff_right hempty)

theorem nextId_ne_zero (ids : List UInt32) : nextId ids ≠ 0 := by
  have hpos := (foldl_max_spec ids 1).1
  intro hzero
  rw [show ids.foldl (fun nextId id => max nextId (id + 1)) 1 = 0 from hzero] at hpos
  exact absurd hpos (by decide)

theorem givenId_ne_zero (taken : List UInt32) (id : UInt32) : givenId taken id ≠ 0 := by
  unfold givenId
  split
  · exact nextId_ne_zero taken
  · next hid => exact hid

theorem assign_nonzero {taken : List UInt32} (written : List UInt32) (h : ∀ id ∈ taken, id ≠ 0) :
    ∀ id ∈ assign taken written, id ≠ 0 := by
  induction written generalizing taken with
  | nil => exact h
  | cons id written ih =>
    apply ih
    intro other hother
    rcases List.mem_append.mp hother with hother | hother
    · exact h other hother
    · rw [List.mem_singleton.mp hother]
      exact givenId_ne_zero taken id

theorem loadedStore_keysListed (written : List Rule) :
    KeysListed (loadedStore (written.foldl pushRule [])) where
  nonzero := by
    change ∀ id ∈ (written.foldl pushRule []).map Rule.id, id ≠ 0
    rw [foldl_pushRule_ids]
    exact assign_nonzero _ (by simp)
  keys := mem_loadedStore _

theorem addRule_free (saves : Bool) {rule : Rule} {store : RuleStore}
    (hfree : ¬(rule.id ≠ 0 ∧ rule.id ∈ store.ids)) :
    (addRule saves rule store).2.ids = store.ids ++ [givenId store.ids rule.id] ∧
      (addRule saves rule store).2.ruleLastState =
        store.ruleLastState.insert (givenId store.ids rule.id) false := by
  have hadd : addRule saves rule store = (saves,
      (store.setRules (store.rules ++ [withRuleId store.rules rule])).setLatch
        (withRuleId store.rules rule).id false) := if_neg hfree
  have hid : givenId store.ids rule.id = (withRuleId store.rules rule).id :=
    (withRuleId_id store.rules rule).symm
  rw [hadd, hid]
  exact ⟨List.map_append, rfl⟩

theorem addRule_keysListed {saves : Bool} {rule : Rule} {store : RuleStore}
    (hfree : ¬(rule.id ≠ 0 ∧ rule.id ∈ store.ids)) (h : KeysListed store) :
    KeysListed (addRule saves rule store).2 := by
  obtain ⟨hids, hkeys⟩ := addRule_free saves hfree
  refine ⟨?_, fun other => ?_⟩
  · intro other hother
    rw [hids] at hother
    rcases List.mem_append.mp hother with hother | hother
    · exact h.nonzero other hother
    · rw [List.mem_singleton.mp hother]
      exact givenId_ne_zero store.ids rule.id
  · rw [hids, hkeys, List.mem_append, List.mem_singleton, Std.ExtTreeMap.mem_insert,
      Std.LawfulEqCmp.compare_eq_iff_eq, or_comm, eq_comm]
    exact or_congr_left (h.keys other)

theorem deleteRule_ids (saves : Bool) (id : UInt32) (store : RuleStore) :
    (deleteRule saves id store).2.ids = store.ids.filter (· ≠ id) := by
  unfold deleteRule
  by_cases hid : id ∈ store.ids
  · rw [if_pos hid]
    simp [RuleStore.ids, List.filter_map, Function.comp_def]
  · rw [if_neg hid, List.filter_eq_self.mpr]
    intro other hother
    rw [decide_eq_true_eq]
    rintro rfl
    exact hid hother

theorem deleteRule_keysListed {saves : Bool} {id : UInt32} {store : RuleStore}
    (h : KeysListed store) : KeysListed (deleteRule saves id store).2 := by
  have hids := deleteRule_ids saves id store
  refine ⟨?_, fun other => ?_⟩
  · rw [hids]
    intro other hother
    exact h.nonzero other (List.mem_filter.mp hother).1
  · rw [hids, List.mem_filter, decide_eq_true_eq, ← h.keys]
    unfold deleteRule
    by_cases hid : id ∈ store.ids
    · rw [if_pos hid]
      change other ∈ store.ruleLastState.erase id ↔ _
      rw [Std.ExtTreeMap.mem_erase, and_comm, ne_eq, Std.LawfulEqCmp.compare_eq_iff_eq, eq_comm]
    · rw [if_neg hid]
      refine ⟨fun hother => ⟨hother, ?_⟩, And.left⟩
      rintro rfl
      exact hid ((h.keys _).mp hother)

/-! ## Steps and runs -/

/-- An operation that returned, between the engines before and after it. -/
structure Performed where
  before : Engine
  operation : Operation
  after : Engine

/-- The steps of the engine.  An operation that makes the program end has none. -/
inductive Performs : Engine → Engine → List Performed → Prop
  | perform {before after : Engine} {emitted : List Event} (operation : Operation)
      (h : perform operation before = .ok (after, emitted)) :
      Performs before after [⟨before, operation, after⟩]

/-- The rules that are loaded or added find room for their ids. -/
def FindsRoom (before : Engine) : Operation → Prop
  | .loadRules file =>
    ∀ content written, file = some content → writtenRules content = .ok written →
      HasRoom [] (written.map Rule.id)
  | .addRule _ rule => rule.id = 0 → ¬Exhausted before.store.ids
  | .deleteRule _ _ => True
  | .setRuleEnabled _ _ _ => True
  | .executeRuleCommands _ _ => True
  | .evaluateRules _ => True
  | .setVariable _ _ => True

/-- The claim of the documentation about ids, and what the latches need. -/
structure UniqueIds (store : RuleStore) : Prop extends KeysListed store where
  nodup : store.ids.Nodup

/-- A load leaves the rules alone, empties the list or replaces it. -/
theorem perform_loadRules {file : Option Bytes} {before after : Engine} {emitted : List Event}
    (h : perform (.loadRules file) before = .ok (after, emitted)) :
    (after.store = before.store ∧
        ∀ content written, file = some content → writtenRules content ≠ .ok written) ∨
      (file = none ∧ after.store = {}) ∨
      ∃ content written, file = some content ∧ writtenRules content = .ok written ∧
        after.store = loadedStore (written.foldl pushRule []) := by
  cases file with
  | none =>
    cases h
    exact Or.inr (Or.inl ⟨rfl, rfl⟩)
  | some content =>
    simp only [perform, loadRules, parseRulesArray_written] at h
    cases hwritten : writtenRules content with
    | ok written =>
      rw [hwritten] at h
      cases h
      exact Or.inr (Or.inr ⟨content, written, rfl, hwritten, rfl⟩)
    | error failure =>
      rw [hwritten] at h
      cases failure with
      | rejected =>
        cases h
        refine Or.inl ⟨rfl, ?_⟩
        intro content' written heq hok
        cases heq
        rw [hwritten] at hok
        cases hok
      | raised e => cases h
      | diverged => cases h

/-- The step lemma's content: the keys stay those of the listed ids, and the ids stay
distinct exactly when there is room. -/
structure StepsIds (before : RuleStore) (room : Prop) (after : RuleStore) : Prop where
  keys : KeysListed before → KeysListed after
  nodup : before.ids.Nodup → (after.ids.Nodup ↔ room)

theorem KeepsIds.steps {before after : RuleStore} (h : KeepsIds before after) :
    StepsIds before True after where
  keys := h.keys
  nodup hnodup := by
    rw [h.ids]
    exact iff_of_true hnodup trivial

theorem loadRules_steps {file : Option Bytes} {before after : Engine} {emitted : List Event}
    (h : perform (.loadRules file) before = .ok (after, emitted)) :
    StepsIds before.store (FindsRoom before (.loadRules file)) after.store := by
  rcases perform_loadRules h with ⟨hstore, hnone⟩ | ⟨rfl, hstore⟩ |
    ⟨content, written, rfl, hwritten, hstore⟩
  · rw [hstore]
    refine ⟨id, fun hnodup => iff_of_true hnodup ?_⟩
    intro content written hfile hok
    exact absurd hok (hnone content written hfile)
  · rw [hstore]
    refine ⟨fun _ => loadedStore_keysListed [], fun _ => iff_of_true List.nodup_nil ?_⟩
    intro content written hfile
    cases hfile
  · rw [hstore]
    refine ⟨fun _ => loadedStore_keysListed written, fun _ => ?_⟩
    change ((written.foldl pushRule []).map Rule.id).Nodup ↔ _
    rw [foldl_pushRule_ids, List.map_nil, assign_nodup_iff _ List.nodup_nil]
    constructor
    · intro hroom content' written' hfile hok
      cases hfile
      rw [hwritten] at hok
      cases hok
      exact hroom
    · intro hroom
      exact hroom content written rfl hwritten

theorem addRule_steps {saves : Bool} {rule : Rule} {before after : Engine} {emitted : List Event}
    (h : perform (.addRule saves rule) before = .ok (after, emitted)) :
    StepsIds before.store (FindsRoom before (.addRule saves rule)) after.store := by
  unfold perform at h
  simp only at h
  by_cases htaken : rule.id ≠ 0 ∧ rule.id ∈ before.store.ids
  · rw [if_pos htaken] at h
    cases h
    exact ⟨id, fun hnodup => iff_of_true hnodup fun hzero => absurd hzero htaken.1⟩
  · rw [if_neg htaken] at h
    cases h
    refine ⟨addRule_keysListed htaken, fun hnodup => ?_⟩
    rw [Engine.setStore_store, (addRule_free saves htaken).1, nodup_concat hnodup, ← room_iff]
    unfold Room FindsRoom
    by_cases hid : rule.id = 0
    · rw [if_pos hid]
      exact ⟨fun hroom _ => hroom, fun hroom => hroom hid⟩
    · rw [if_neg hid]
      exact iff_of_true (fun hmem => htaken ⟨hid, hmem⟩) fun hzero => absurd hzero hid

theorem perform_steps {before after : Engine} {operation : Operation} {emitted : List Event}
    (h : perform operation before = .ok (after, emitted)) :
    StepsIds before.store (FindsRoom before operation) after.store := by
  cases operation with
  | loadRules file => exact loadRules_steps h
  | addRule saves rule => exact addRule_steps h
  | deleteRule saves id =>
    cases h
    refine ⟨deleteRule_keysListed, fun hnodup => iff_of_true ?_ trivial⟩
    rw [Engine.setStore_store, deleteRule_ids]
    exact hnodup.filter _
  | setRuleEnabled saves id enabled =>
    cases h
    exact (setRuleEnabledInternal_keeps id enabled before.store).steps
  | executeRuleCommands saves id =>
    cases h
    exact (executeRuleCommands_keeps saves id before).steps
  | evaluateRules inputs =>
    cases h
    exact (visitFrom_keeps inputs _ 0 before).steps
  | setVariable key value =>
    cases h
    exact (KeepsIds.refl before.store).steps

/-- What holds of a run so far. -/
structure IdsTracked (engine : Engine) (history : List Performed) : Prop where
  keys : KeysListed engine.store
  allKeys : ∀ step ∈ history, KeysListed step.after.store
  nodup : (∀ step ∈ history, step.after.store.ids.Nodup) → engine.store.ids.Nodup
  unique : (∀ step ∈ history, step.after.store.ids.Nodup) ↔
    ∀ step ∈ history, FindsRoom step.before step.operation

theorem IdsTracked.next {before after : Engine} {history events : List Performed}
    (h : IdsTracked before history) (hstep : Performs before after events) :
    IdsTracked after (history ++ events) := by
  cases hstep with
  | perform operation hperform =>
    have hsteps := perform_steps hperform
    have hkeys := hsteps.keys h.keys
    refine ⟨hkeys, ?_, ?_, ?_⟩
    · intro step hstep
      rcases List.mem_append.mp hstep with hstep | hstep
      · exact h.allKeys step hstep
      · rw [List.mem_singleton.mp hstep]
        exact hkeys
    · intro hall
      exact hall _ (List.mem_append_right _ (List.mem_singleton_self _))
    · simp only [List.forall_mem_append, List.forall_mem_singleton, ← h.unique]
      refine and_congr_right fun hall => ?_
      exact hsteps.nodup (h.nodup hall)

/-- In every run the ids are not zero and the keys of `ruleLastState`, and they stay
distinct exactly when every load and every addition finds room for its ids. -/
theorem ids_unique_iff {engine : Engine} {history : List Performed}
    (h : Run Performs {} engine history) :
    (∀ step ∈ history, KeysListed step.after.store) ∧
      ((∀ step ∈ history, UniqueIds step.after.store) ↔
        ∀ step ∈ history, FindsRoom step.before step.operation) := by
  have hempty : KeysListed {} := loadedStore_keysListed []
  have htracked : IdsTracked engine history := h.invariant
    ⟨hempty, by simp, fun _ => List.nodup_nil, by simp⟩ fun _ _ _ _ hp hstep => hp.next hstep
  refine ⟨htracked.allKeys, ?_⟩
  rw [← htracked.unique]
  constructor
  · intro hall step hstep
    exact (hall step hstep).nodup
  · intro hall step hstep
    exact ⟨htracked.allKeys step hstep, hall step hstep⟩

def mixedFile : Bytes := ascii "[\x7b\x7d,\x7b\"id\":7\x7d,\x7b\x7d]"

theorem mixedFile_written : writtenRules mixedFile = .ok [{}, { id := 7 }, {}] := by
  decide +kernel

theorem mixedFile_loads :
    perform (.loadRules (some mixedFile)) {} =
      .ok (⟨loadedStore [{ id := 1 }, { id := 7 }, { id := 8 }], ∅⟩,
        [.loaded [{ id := 1 }, { id := 7 }, { id := 8 }]]) := by
  simp only [perform, loadRules, parseRulesArray_written, mixedFile_written]
  rfl

/-- Written and automatic ids are loaded, the written one is deleted, and an automatic one and the
deleted one are added. -/
theorem ids_unique_edited :
    ∃ engine history, Run Performs {} engine history ∧ history.length = 4 ∧
      engine.store.ids = [1, 8, 9, 7] ∧ ∀ step ∈ history, UniqueIds step.after.store := by
  have hload : Run Performs {} _ _ :=
    .next .start (.perform (.loadRules (some mixedFile)) mixedFile_loads)
  have hdelete := hload.next (.perform (.deleteRule true 7) rfl)
  have hadd := hdelete.next (.perform (.addRule true {}) rfl)
  have hagain := hadd.next (.perform (.addRule true { id := 7 }) rfl)
  refine ⟨_, _, hagain, rfl, rfl, (ids_unique_iff hagain).2.mpr ?_⟩
  intro step hstep
  simp only [List.nil_append, List.cons_append, List.mem_cons, List.not_mem_nil, or_false] at hstep
  rcases hstep with rfl | rfl | rfl | rfl
  · intro content written hfile hwritten
    cases hfile
    rw [mixedFile_written] at hwritten
    cases hwritten
    exact (assign_nodup_iff _ List.nodup_nil).mp (by decide)
  · trivial
  · intro _ hexhausted
    exact absurd hexhausted.1 (by decide)
  · intro hzero
    exact absurd hzero (by decide)

def overlappingFile : Bytes := ascii "[\x7b\x7d,\x7b\"id\":1\x7d]"

/-- The rule without an id gets the id that the rule behind it has. -/
theorem loaded_ids_collide :
    ∃ engine history, Run Performs {} engine history ∧ engine.store.ids = [1, 1] ∧
      ¬UniqueIds engine.store := by
  have hstart : Run Performs {} {} [] := .start
  have hparse : parseRulesArray overlappingFile = .ok [{ id := 1 }, { id := 1 }] := by
    decide +kernel
  have hload : perform (.loadRules (some overlappingFile)) {} =
      .ok (⟨loadedStore [{ id := 1 }, { id := 1 }], ∅⟩,
        [.loaded [{ id := 1 }, { id := 1 }]]) := by
    simp only [perform, loadRules, hparse]
    rfl
  refine ⟨_, _, hstart.next (.perform _ hload), rfl, fun hunique => ?_⟩
  have hnodup : ([1, 1] : List UInt32).Nodup := hunique.nodup
  exact absurd hnodup (by decide)

end InverterMonitor.Rules
