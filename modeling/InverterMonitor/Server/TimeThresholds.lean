import InverterMonitor.Server.MemberOrder

/-!
# Times of day in conditions

A quoted `value` behind the input type `Time` goes through
`parseTimeStringToSeconds`, whose `-1` is turned into midnight.

* `parseTime_eq`: the texts `H:M` and `H:M:S` are read as they should;
* `stringValueNumber_midday`: all other texts are some time of day as well;
* `time_threshold_iff`: so the threshold is right exactly for those texts, or when
  the `value` comes before the input type and `std::stod` happens to be right.
-/

namespace InverterMonitor.Rules
open Text Cxx Json JsonTree

/-! ## Texts of times -/

/-- A number below `limit` in decimal digits. -/
structure IsField (ds : Bytes) (limit : Nat) : Prop where
  digits : Digits ds
  nonempty : ds ≠ []
  value_lt : numeralValue ds < limit

/-- `H:M` and `H:M:S`, and the seconds since midnight. -/
inductive TimeText : Bytes → Nat → Prop
  | minutes {h m : Bytes} (hh : IsField h 24) (hm : IsField m 60) :
      TimeText (h ++ (':' : Byte) :: m) (numeralValue h * 3600 + numeralValue m * 60)
  | seconds {h m s : Bytes} (hh : IsField h 24) (hm : IsField m 60) (hs : IsField s 60) :
      TimeText (h ++ (':' : Byte) :: (m ++ (':' : Byte) :: s))
        (numeralValue h * 3600 + numeralValue m * 60 + numeralValue s)

theorem extractInt_field {ds rest : Bytes} {limit : Nat} (h : IsField ds limit)
    (hlimit : limit ≤ 2 ^ 31) (hrest : Stops isDigit rest) :
    extractInt 32 (ds ++ rest) = some ((numeralValue ds : Int), rest) := by
  have hvalue := h.value_lt
  have hinside : ¬(ds = [] ∨ (numeralValue ds : Int) < -2 ^ (32 - 1) ∨
      2 ^ (32 - 1) ≤ (numeralValue ds : Int)) := by
    rintro (hnil | hlow | hhigh)
    · exact h.nonempty hnil
    · omega
    · omega
  simp only [extractInt, skipSpaces_digits rest h.digits h.nonempty,
    readSign_digits rest h.digits h.nonempty, digitsOf_append h.digits hrest,
    afterDigits_append h.digits hrest, Bool.false_eq_true, ↓reduceIte, if_neg hinside]

theorem extractChar_colon (s : Bytes) : extractChar ((':' : Byte) :: s) = some ((':' : Byte), s) := by
  simp only [extractChar, skipSpaces_cons s (show isSpace ':' = false by decide)]

theorem stops_colon (s : Bytes) : Stops isDigit ((':' : Byte) :: s) := by
  simpa using (show isDigit ':' = false by decide)

theorem inRange_eq {h m s : Nat} (hh : h < 24) (hm : m < 60) (hs : s < 60) :
    parseTimeStringToSeconds.inRange h m s = ((h * 3600 + m * 60 + s : Nat) : Int) := by
  rw [parseTimeStringToSeconds.inRange, if_neg (by omega)]
  push_cast
  rfl

theorem parseTime_eq {s : Bytes} {n : Nat} (h : TimeText s n) :
    parseTimeStringToSeconds s = n := by
  cases h with
  | @minutes h m hh hm =>
    have hlast := extractInt_field hm (by decide) (stops_nil isDigit)
    rw [List.append_nil] at hlast
    have hfront := extractInt_field hh (by decide) (stops_colon m)
    simp only [parseTimeStringToSeconds, hfront, extractChar_colon, hlast, Option.bind_eq_bind,
      Option.bind_some, Option.pure_def]
    rw [if_neg (by simp)]
    have hend : extractChar [] = none := rfl
    simp only [hend, Option.bind_none]
    have hrange := inRange_eq hh.value_lt hm.value_lt (show 0 < 60 by decide)
    rwa [Nat.cast_zero, Nat.add_zero] at hrange
  | @seconds h m s hh hm hs =>
    have hlast := extractInt_field hs (by decide) (stops_nil isDigit)
    rw [List.append_nil] at hlast
    have hfront := extractInt_field hh (by decide) (stops_colon (m ++ (':' : Byte) :: s))
    have hmiddle := extractInt_field hm (by decide) (stops_colon s)
    simp only [parseTimeStringToSeconds, hfront, extractChar_colon, hmiddle, hlast,
      Option.bind_eq_bind, Option.bind_some, Option.pure_def]
    rw [if_neg (by simp), if_neg (by simp)]
    exact inRange_eq hh.value_lt hm.value_lt hs.value_lt

theorem inRange_lt (h m s : Int) : parseTimeStringToSeconds.inRange h m s < 86400 := by
  unfold parseTimeStringToSeconds.inRange
  split <;> omega

theorem parseTime_lt (s : Bytes) : parseTimeStringToSeconds s < 86400 := by
  unfold parseTimeStringToSeconds
  split
  · decide
  split
  · decide
  split
  · exact inRange_lt _ _ _
  split
  · decide
  · exact inRange_lt _ _ _

/-- Every text is read as some time of day, and a time as itself. -/
theorem stringValueNumber_midday (s : Bytes) :
    ∃ n < 86400, stringValueNumber .time s = .ok (Float.ofNat n) ∧
      ∀ m, TimeText s m → m = n := by
  have hlt := parseTime_lt s
  rw [stringValueNumber, if_pos rfl]
  by_cases hneg : 0 ≤ parseTimeStringToSeconds s
  · refine ⟨(parseTimeStringToSeconds s).toNat, by omega, by simp only [if_pos hneg], ?_⟩
    intro m hm
    rw [parseTime_eq hm, Int.toNat_natCast]
  · refine ⟨0, by decide, by simp only [if_neg hneg]; rfl, ?_⟩
    intro m hm
    rw [parseTime_eq hm] at hneg
    omega

/-- A number is right for the text of a time, and is no time of day for other texts. -/
def Threshold (s : Bytes) (x : Float) : Prop :=
  (∀ n, TimeText s n → x = Float.ofNat n) ∧
    ((∃ n, TimeText s n) ∨ ∀ n < 86400, x ≠ Float.ofNat n)

theorem threshold_time_iff (s : Bytes) :
    (∀ x, stringValueNumber .time s = .ok x → Threshold s x) ↔ ∃ n, TimeText s n := by
  obtain ⟨n, hlt, hnumber, hsame⟩ := stringValueNumber_midday s
  constructor
  · intro h
    rcases (h _ hnumber).2 with htime | hother
    · exact htime
    · exact absurd rfl (hother n hlt)
  · intro htime x hx
    rw [hnumber] at hx
    cases hx
    exact ⟨fun m hm => by rw [hsame m hm], Or.inl htime⟩

/-! ## Conditions -/

abbrev evalMembers (es : List Entry) (c : RuleCondition) : Option RuleCondition :=
  es.foldlM (fun c e => evalCondition (Entry.key e) e.value c) c

theorem evalMembers_inputType {es : List Entry}
    (hkeys : ∀ e ∈ es, Entry.key e ≠ ascii "inputtype") {c d : RuleCondition}
    (h : evalMembers es c = some d) : d.inputType = c.inputType := by
  induction es generalizing c with
  | nil =>
    cases h
    rfl
  | cons e es ih =>
    rw [evalMembers, List.foldlM_cons] at h
    obtain ⟨c', hc', hrest⟩ := Option.bind_eq_some_iff.mp h
    obtain ⟨f, hf, rfl⟩ := evalCondition_update hc'
    rw [ih (fun a ha => hkeys a (List.mem_cons_of_mem e ha)) hrest,
      hf.inputType_eq (hkeys e (by simp))]

/-- The member that makes the input type `Time`. -/
structure MakesTime (t : Entry) : Prop where
  key : Entry.key t = ascii "inputtype"
  time : (scalar t.value).map (fun kind => parseConditionInputType kind.text) = some .time

theorem MakesTime.eval {t : Entry} (h : MakesTime t) (c : RuleCondition) :
    evalCondition (Entry.key t) t.value c = some { c with inputType := .time } := by
  obtain ⟨kind, hkind, htype⟩ := Option.map_eq_some_iff.mp h.time
  rw [h.key, evalCondition, if_pos rfl, hkind, ← htype]
  rfl

theorem evalMembers_time {es : List Entry} {t : Entry} (ht : MakesTime t)
    (hkeys : ∀ e ∈ es, Entry.key e = ascii "inputtype" → e = t) (hmem : t ∈ es)
    {c d : RuleCondition} (h : evalMembers es c = some d) : d.inputType = .time := by
  induction es generalizing c with
  | nil => cases hmem
  | cons e es ih =>
    rw [evalMembers, List.foldlM_cons] at h
    obtain ⟨c', hc', hrest⟩ := Option.bind_eq_some_iff.mp h
    have hrestKeys := fun a ha => hkeys a (List.mem_cons_of_mem e ha)
    by_cases hlater : t ∈ es
    · exact ih hrestKeys hlater hrest
    · -- The type is set here and not again.
      obtain rfl : t = e := (List.mem_cons.mp hmem).resolve_right hlater
      rw [ht.eval] at hc'
      cases hc'
      refine evalMembers_inputType (fun a ha hkey => hlater ?_) hrest
      exact hrestKeys a ha hkey ▸ ha

/-- The number of a condition is what its `value` gives under the type read before it. -/
theorem evalMembers_value {front back : List Entry} {v : Entry} {s : Bytes}
    (hvalue : Entry.key v = ascii "value") (hs : stringOf v.value = some s)
    (hkeys : ∀ e ∈ front ++ back, Entry.key e ≠ ascii "value")
    (htaken : ∀ e ∈ front ++ back, taken (Entry.key e) e.value = true) :
    ∃ c, evalMembers front {} = some c ∧
      (evalMembers (front ++ v :: back) {}).map RuleCondition.valueNumber =
        (stringValueNumber c.inputType s).toOption := by
  obtain ⟨c, hc, _⟩ := foldlM_others (fun e he => hkeys e (List.mem_append_left back he))
    (fun e he => htaken e (List.mem_append_left back he)) {}
  refine ⟨c, hc, ?_⟩
  rw [evalMembers, List.foldlM_append, hc, Option.bind_eq_bind, Option.bind_some,
    List.foldlM_cons, hvalue, evalCondition_value hs]
  cases stringValueNumber c.inputType s with
  | error e => rfl
  | ok x =>
    obtain ⟨d, hd, hnumber⟩ := foldlM_others
      (fun e he => hkeys e (List.mem_append_right front he))
      (fun e he => htaken e (List.mem_append_right front he))
      { c with valueIsString := true, valueString := s, valueNumber := x }
    rw [Except.toOption, Option.map_some, Option.bind_eq_bind, Option.bind_some, hd,
      Option.map_some, hnumber]

theorem evalMembers_untaken {es : List Entry} {e : Entry} (hmem : e ∈ es)
    (hfalse : taken (Entry.key e) e.value = false) (c : RuleCondition) :
    evalMembers es c = none := by
  have hkey : Entry.key e ≠ ascii "value" := by
    intro hkey
    rw [hkey, taken, if_neg (by decide), if_neg (by decide)] at hfalse
    cases hfalse
  have hfails : ∀ c, evalCondition (Entry.key e) e.value c = none := by
    intro c
    rw [← isSome_evalCondition hkey e.value c] at hfalse
    simpa using hfalse
  rw [evalMembers, foldlM_none hmem hfails]

/-- A property of the number of a condition that may have failed to be read. -/
theorem forall_number_iff {read : Option RuleCondition} {number : Except Exception Float}
    (h : read.map RuleCondition.valueNumber = number.toOption) {P : Float → Prop} :
    (∀ d : RuleCondition, read = some d → P d.valueNumber) ↔ ∀ x, number = .ok x → P x := by
  constructor
  · rintro hall x rfl
    obtain ⟨d, hd, rfl⟩ := Option.map_eq_some_iff.mp h
    exact hall d hd
  · rintro hall d rfl
    cases number with
    | ok x =>
      rw [Option.some.inj h]
      exact hall x rfl
    | error e => cases h

/-- There is no other `value`, and no other input type. -/
def OnlyType (t : Entry) (others : List Entry) : Prop :=
  ∀ e ∈ others, Entry.key e ≠ ascii "value" ∧ (Entry.key e = ascii "inputtype" → e = t)

/-- A condition with the input type `Time` has the right threshold exactly when its text is
a time, behind the type; in front of it, when what `std::stod` reads is right.  Where another
member cannot be read, nothing is asked of the members behind it. -/
theorem time_threshold_iff {front back : List Entry} {t v : Entry} {s : Bytes}
    (hes : ∀ e ∈ front ++ v :: back, e.WellFormed)
    (hpass : ∀ e, ReachedMember evalCondition {} (front ++ v :: back) e →
      Level.condition.Passable (Entry.key e) e.value)
    (honly : (∀ e ∈ front ++ back, taken (Entry.key e) e.value = true) →
      OnlyType t (front ++ back))
    (ht : MakesTime t) (hvalue : Entry.key v = ascii "value") (hs : stringOf v.value = some s)
    {bound : Nat} {rest : Bytes}
    (hbound : 2 * (objectText (front ++ v :: back) ++ rest).length < bound) :
    (∀ c : RuleCondition, Level.read .condition bound (front ++ v :: back) rest = some c →
        Threshold s c.valueNumber) ↔
      (∃ e ∈ front ++ back, taken (Entry.key e) e.value = false) ∨
        (t ∈ front ∧ ∃ n, TimeText s n) ∨
        (t ∉ front ∧ ∀ x, stod s = .ok x → Threshold s x) := by
  have hread : Level.read .condition bound (front ++ v :: back) rest =
      evalMembers (front ++ v :: back) {} := Level.read_eq .condition hes hpass hbound
  have hgoal : (∀ c : RuleCondition, Level.read .condition bound (front ++ v :: back) rest = some c →
      Threshold s c.valueNumber) ↔ ∀ d : RuleCondition,
        evalMembers (front ++ v :: back) {} = some d → Threshold s d.valueNumber := by
    rw [hread]
    rfl
  refine hgoal.trans ?_
  by_cases htaken : ∀ e ∈ front ++ back, taken (Entry.key e) e.value = true
  · have hothers := honly htaken
    obtain ⟨c, hc, hnumber⟩ :=
      evalMembers_value hvalue hs (fun e he => (hothers e he).1) htaken
    have htypes : ∀ e ∈ front, Entry.key e = ascii "inputtype" → e = t :=
      fun e he => (hothers e (List.mem_append_left back he)).2
    have hnone : ¬∃ e ∈ front ++ back, taken (Entry.key e) e.value = false := by
      rintro ⟨e, he, hfalse⟩
      rw [htaken e he] at hfalse
      cases hfalse
    rw [forall_number_iff hnumber]
    by_cases hfront : t ∈ front
    · rw [evalMembers_time ht htypes hfront hc, threshold_time_iff]
      simp only [hnone, hfront, not_true_eq_false, true_and, false_and, false_or, or_false]
    · have htype : c.inputType ≠ .time := by
        rw [evalMembers_inputType (fun e he hkey => hfront (htypes e he hkey ▸ he)) hc]
        decide
      rw [stringValueNumber_stod htype]
      simp only [hnone, hfront, not_false_eq_true, true_and, false_and, false_or]
  · simp only [not_forall] at htaken
    obtain ⟨e, he, hbad⟩ := htaken
    have hfalse : taken (Entry.key e) e.value = false := by simpa using hbad
    have hmem' : e ∈ front ++ v :: back := by
      rcases List.mem_append.mp he with he | he
      · exact List.mem_append_left _ he
      · exact List.mem_append_right _ (List.mem_cons_of_mem v he)
    rw [evalMembers_untaken hmem' hfalse]
    refine ⟨fun _ => Or.inl ⟨e, he, hfalse⟩, fun _ c hc => by cases hc⟩

/-- Half past twelve. -/
theorem half_past_twelve :
    ∃ c : RuleCondition, Level.read .condition 200 [plain "inputType" (.string (ascii "time")),
        plain "value" (.string (ascii "12:30"))] [] = some c ∧
          Threshold (ascii "12:30") c.valueNumber := by
  have hes : ∀ e ∈ [plain "inputType" (.string (ascii "time")),
      plain "value" (.string (ascii "12:30"))], e.WellFormed := by
    intro e he
    rcases List.mem_pair.mp he with rfl | rfl
    · exact plain_wellFormed (by decide +kernel) (by decide +kernel)
    · exact plain_wellFormed (by decide +kernel) (by decide +kernel)
  have hpass : ∀ e, ReachedMember evalCondition {} [plain "inputType" (.string (ascii "time")),
      plain "value" (.string (ascii "12:30"))] e →
      Level.condition.Passable (Entry.key e) e.value := by
    intro e he
    rcases List.mem_pair.mp he.mem with rfl | rfl
    · exact fun _ => rfl
    · exact fun _ => rfl
  have honly : OnlyType (plain "inputType" (.string (ascii "time")))
      [plain "inputType" (.string (ascii "time"))] := by
    intro e he
    rw [List.mem_singleton.mp he]
    exact ⟨by decide +kernel, fun _ => rfl⟩
  have htime : TimeText (ascii "12:30") 45000 :=
    .minutes (h := ascii "12") (m := ascii "30") ⟨by decide, by decide, by decide⟩
      ⟨by decide, by decide, by decide⟩
  have hread : ∃ c : RuleCondition, Level.read .condition 200
      [plain "inputType" (.string (ascii "time")), plain "value" (.string (ascii "12:30"))] [] =
        some c := Option.isSome_iff_exists.mp (by decide +kernel)
  obtain ⟨c, hc⟩ := hread
  refine ⟨c, hc, ?_⟩
  exact (@time_threshold_iff [plain "inputType" (.string (ascii "time"))] []
    (plain "inputType" (.string (ascii "time"))) (plain "value" (.string (ascii "12:30")))
    (ascii "12:30") hes hpass (fun _ => honly) ⟨by decide +kernel, by decide +kernel⟩
    (by decide +kernel) (by decide +kernel) 200 [] (by decide +kernel)).mpr
      (Or.inr (Or.inl ⟨List.mem_singleton_self _, _, htime⟩)) c hc

/-- A text that is no time is midnight. -/
theorem noon_is_midnight :
    (parseRuleCondition 200 (.inside (ascii
        "\x7b\"inputType\":\"time\",\"value\":\"noon\"\x7d"))).toOption.map
          (fun read => (read.1.inputType, read.1.valueNumber)) = some (.time, Float.ofNat 0) ∧
      ¬∃ n, TimeText (ascii "noon") n := by
  refine ⟨by decide +kernel, ?_⟩
  rintro ⟨n, h⟩
  have hmem : (':' : Byte) ∈ ascii "noon" := by
    generalize ascii "noon" = text at h
    cases h <;> simp
  exact absurd hmem (by decide)

end InverterMonitor.Rules
