import InverterMonitor.Format.JsonGrammar

/-!
# Scanning JSON

A finite automaton that runs over every JSON text, which shows what a JSON text cannot
hold outside its strings.

* `Derives.run_eq`: the automaton passes everything that the grammar derives;
* `isNumber_of_run`: and of the texts of digits, points and signs only the numbers.
-/

namespace JsonGrammar
open Text

/-! ## The automaton -/

inductive State
  | outside | comma | inside | escaped
  | minus | zero | whole | point | fraction | letter | exponentSign | exponent
  deriving DecidableEq

/-- Behind a number. -/
def after (b : Byte) : Option State :=
  if b = ',' then some .comma
  else if b = ' ' ∨ b = '\t' ∨ b = '\n' ∨ b = '\r' ∨ b = ']' ∨ b = '}' then some .outside
  else none

/-- Outside of strings and numbers. -/
def start (b : Byte) : Option State :=
  if b = '"' then some .inside
  else if b = '-' then some .minus
  else if b = '0' then some .zero
  else if isDigit b = true then some .whole
  else if b = '+' ∨ b = '.' then none
  else if b = ',' then some .comma
  else some .outside

def step : State → Byte → Option State
  | .outside, b => start b
  | .comma, b =>
    if b = ' ' ∨ b = '\t' ∨ b = '\n' ∨ b = '\r' then some .comma
    else if b = ']' ∨ b = '}' then none
    else start b
  | .inside, b =>
    if b = '"' then some .outside else if b = '\\' then some .escaped else some .inside
  | .escaped, _ => some .inside
  | .minus, b => if b = '0' then some .zero else if isDigit b = true then some .whole else none
  | .zero, b =>
    if b = '.' then some .point else if b = 'e' ∨ b = 'E' then some .letter else after b
  | .whole, b =>
    if isDigit b = true then some .whole
    else if b = '.' then some .point
    else if b = 'e' ∨ b = 'E' then some .letter
    else after b
  | .point, b => if isDigit b = true then some .fraction else none
  | .fraction, b =>
    if isDigit b = true then some .fraction
    else if b = 'e' ∨ b = 'E' then some .letter
    else after b
  | .letter, b =>
    if b = '+' ∨ b = '-' then some .exponentSign
    else if isDigit b = true then some .exponent
    else none
  | .exponentSign, b => if isDigit b = true then some .exponent else none
  | .exponent, b => if isDigit b = true then some .exponent else after b

def run (st : State) (s : Bytes) : Option State := s.foldlM step st

/-- A value may end here. -/
def State.ended : State → Bool
  | .outside | .zero | .whole | .fraction | .exponent => true
  | _ => false

/-- A value may start here. -/
def Ready (st : State) : Prop := st = .outside ∨ st = .comma

variable {st st' : State} {s t : Bytes}

@[simp] theorem run_nil (st : State) : run st [] = some st := rfl

@[simp] theorem run_cons (st : State) (b : Byte) (s : Bytes) :
    run st (b :: s) = (step st b).bind fun st => run st s := rfl

theorem run_append (st : State) (s t : Bytes) :
    run st (s ++ t) = (run st s).bind fun st => run st t := by
  rw [run, List.foldlM_append]
  rfl

theorem run_append_some (h : run st s = some st') (t : Bytes) : run st (s ++ t) = run st' t := by
  rw [run_append, h, Option.bind_some]

theorem run_cons_some {b : Byte} (h : step st b = some st') (s : Bytes) :
    run st (b :: s) = run st' s := by
  rw [run_cons, h, Option.bind_some]

theorem step_ended (h : st.ended = true) {b : Byte}
    (hb : b = ',' ∨ b = ' ' ∨ b = '\t' ∨ b = '\n' ∨ b = '\r' ∨ b = ']' ∨ b = '}') :
    step st b = some (if b = ',' then .comma else .outside) := by
  rcases hb with rfl | rfl | rfl | rfl | rfl | rfl | rfl
  all_goals cases st with
    | outside | zero | whole | fraction | exponent => rfl
    | comma | inside | escaped | minus | point | letter | exponentSign => cases h

/-! ## Tokens -/

theorem step_ready (h : Ready st) {b : Byte}
    (hb : ¬(b = ' ' ∨ b = '\t' ∨ b = '\n' ∨ b = '\r')) (hclose : ¬(b = ']' ∨ b = '}')) :
    step st b = start b := by
  rcases h with rfl | rfl
  · rfl
  · rw [step, if_neg hb, if_neg hclose]

theorem run_same (h : ∀ b ∈ s, step st b = some st) : run st s = some st := by
  induction s with
  | nil => rfl
  | cons b s ih =>
    rw [run_cons_some (h b (List.mem_cons_self ..))]
    exact ih fun b' hb' => h b' (List.mem_cons_of_mem b hb')

theorem run_ws (hs : IsWs s) (h : Ready st) : run st s = some st := by
  refine run_same fun b hb => ?_
  rcases h with rfl | rfl
  · rcases hs b hb with rfl | rfl | rfl | rfl <;> rfl
  · rw [step, if_pos (hs b hb)]

theorem run_ws_ended (hs : IsWs s) (h : st.ended = true) :
    ∃ st', run st s = some st' ∧ st'.ended = true := by
  cases s with
  | nil => exact ⟨st, rfl, h⟩
  | cons b s =>
    have hb := hs b (List.mem_cons_self ..)
    have hstep : step st b = some .outside := by
      rw [step_ended h (by tauto), if_neg]
      rcases hb with rfl | rfl | rfl | rfl <;> decide
    rw [run_cons_some hstep]
    exact ⟨.outside, run_ws (fun b' hb' => hs b' (List.mem_cons_of_mem b hb')) (Or.inl rfl), rfl⟩

theorem run_chars (h : IsChars s) : run .inside s = some .inside := by
  have hinside : ∀ b : Byte, b ≠ '"' → b ≠ '\\' → step .inside b = some .inside := by
    intro b hquote hslash
    rw [step, if_neg hquote, if_neg hslash]
  induction h with
  | nil => rfl
  | unescaped _ hquote hslash _ ih =>
    rw [run_cons_some (hinside _ hquote hslash)]
    exact ih
  | short _ _ ih => exact ih
  | @code digits s _ hdigits _ ih =>
    have hrun : run .inside digits = some .inside := by
      refine run_same fun b hb => ?_
      have hhex := hdigits b hb
      apply hinside b <;> rintro rfl <;> cases hhex
    exact (run_append_some hrun s).trans ih

theorem run_string (h : IsString s) (hst : Ready st) : run st s = some .outside := by
  obtain ⟨hchars⟩ := h
  have hquote : step st '"' = some .inside := by rw [step_ready hst (by decide) (by decide)]; rfl
  rw [run_cons_some hquote, run_append_some (run_chars hchars)]
  rfl

/-! ## Numbers -/

theorem run_int (h : IsInt s) (hst : Ready st ∨ st = .minus) :
    run st s = some .zero ∨ run st s = some .whole := by
  cases h with
  | zero =>
    left
    rcases hst with hst | rfl
    · rw [run_cons, step_ready hst (by decide) (by decide)]
      rfl
    · rfl
  | @digits d ds hd hzero hds =>
    right
    have hquote : d ≠ '"' := ne_of_isDigit hd (by decide)
    have hminus : d ≠ '-' := ne_of_isDigit hd (by decide)
    have hws : ¬(d = ' ' ∨ d = '\t' ∨ d = '\n' ∨ d = '\r') := by
      rintro (rfl | rfl | rfl | rfl) <;> cases hd
    have hclose : ¬(d = ']' ∨ d = '}') := by rintro (rfl | rfl) <;> cases hd
    have hstep : step st d = some .whole := by
      rcases hst with hst | rfl
      · rw [step_ready hst hws hclose, start, if_neg hquote, if_neg hminus, if_neg hzero, if_pos hd]
      · rw [step, if_neg hzero, if_pos hd]
    rw [run_cons_some hstep]
    exact run_same fun b hb => if_pos (hds b hb)

theorem run_frac (h : IsFrac s) (hst : st = .zero ∨ st = .whole) :
    run st s = some st ∨ run st s = some .fraction := by
  cases h with
  | none => exact Or.inl rfl
  | @digits ds hds hne =>
    right
    have hpoint : step st '.' = some .point := by rcases hst with rfl | rfl <;> rfl
    obtain ⟨d, ds, rfl⟩ := List.exists_cons_of_ne_nil hne
    have hd : step .point d = some .fraction := if_pos (hds d (List.mem_cons_self ..))
    rw [run_cons_some hpoint, run_cons_some hd]
    exact run_same fun b hb => if_pos (hds b (List.mem_cons_of_mem d hb))

theorem run_exp (h : IsExp s) (hst : st = .zero ∨ st = .whole ∨ st = .fraction) :
    run st s = some st ∨ run st s = some .exponent := by
  cases h with
  | none => exact Or.inl rfl
  | @digits e sign ds he hsign hds hne =>
    right
    have hletter : step st e = some .letter := by
      rcases he with rfl | rfl <;> rcases hst with rfl | rfl | rfl <;> rfl
    obtain ⟨d, ds, rfl⟩ := List.exists_cons_of_ne_nil hne
    have hd := hds d (List.mem_cons_self ..)
    have hdigits : run .exponent ds = some .exponent :=
      run_same fun b hb => if_pos (hds b (List.mem_cons_of_mem d hb))
    have hnotSign : ¬(d = '+' ∨ d = '-') := by rintro (rfl | rfl) <;> cases hd
    rw [run_cons_some hletter]
    rcases hsign with rfl | rfl | rfl
    · rw [List.nil_append, run_cons, step, if_neg hnotSign, if_pos hd]
      exact hdigits
    all_goals
      rw [List.cons_append, List.nil_append, run_cons_some (show step .letter _ = _ from rfl),
        run_cons, step, if_pos hd]
      exact hdigits

theorem run_number (h : IsNumber s) (hst : Ready st) :
    ∃ st', run st s = some st' ∧ st'.ended = true := by
  obtain ⟨hminus, hint, hfrac, hexp⟩ := h
  rename_i minus int frac exp
  have hsign : ∃ st₁, run st minus = some st₁ ∧ (Ready st₁ ∨ st₁ = .minus) := by
    rcases hminus with rfl | rfl
    · exact ⟨st, rfl, Or.inl hst⟩
    · refine ⟨.minus, ?_, Or.inr rfl⟩
      rw [run_cons, step_ready hst (by decide) (by decide)]
      rfl
  obtain ⟨st₁, hsign, hst₁⟩ := hsign
  obtain ⟨st₂, hwhole, hst₂⟩ : ∃ st₂, run st₁ int = some st₂ ∧ (st₂ = .zero ∨ st₂ = .whole) := by
    rcases run_int hint hst₁ with hrun | hrun
    · exact ⟨_, hrun, Or.inl rfl⟩
    · exact ⟨_, hrun, Or.inr rfl⟩
  obtain ⟨st₃, hfraction, hst₃⟩ : ∃ st₃, run st₂ frac = some st₃ ∧
      (st₃ = .zero ∨ st₃ = .whole ∨ st₃ = .fraction) := by
    rcases run_frac hfrac hst₂ with hrun | hrun
    · exact ⟨_, hrun, by tauto⟩
    · exact ⟨_, hrun, by tauto⟩
  rw [run_append_some hsign, run_append_some hwhole, run_append_some hfraction]
  rcases run_exp hexp hst₃ with hrun | hrun
  · refine ⟨_, hrun, ?_⟩
    rcases hst₃ with rfl | rfl | rfl <;> rfl
  · exact ⟨_, hrun, rfl⟩

/-! ## Values -/

theorem run_comma (h : st.ended = true) (s : Bytes) :
    run st ((',' : Byte) :: s) = run .comma s := by
  have hstep := step_ended h (Or.inl (Eq.refl (',' : Byte)))
  exact run_cons_some hstep s

theorem run_close (h : st.ended = true) {b : Byte} (hb : b = ']' ∨ b = '}') :
    run st [b] = some .outside := by
  have hcomma : b ≠ ',' := by rcases hb with rfl | rfl <;> decide
  have hstep := step_ended h (b := b) (by tauto)
  rw [if_neg hcomma] at hstep
  exact run_cons_some hstep []

theorem run_open (h : Ready st) {b : Byte} (hb : b = '[' ∨ b = '{') (s : Bytes) :
    run st (b :: s) = run .outside s := by
  apply run_cons_some
  rcases hb with rfl | rfl
  all_goals
    rw [step_ready h (by decide) (by decide)]
    rfl

theorem run_name {before name beforeColon afterColon : Bytes} (hbefore : IsWs before)
    (hname : IsString name) (hbeforeColon : IsWs beforeColon) (hafterColon : IsWs afterColon)
    (h : Ready st) (s : Bytes) :
    run st (before ++ (name ++ (beforeColon ++ (':' : Byte) :: (afterColon ++ s)))) =
      run .outside s := by
  have hoff : Ready .outside := Or.inl rfl
  rw [run_append_some (run_ws hbefore h), run_append_some (run_string hname h),
    run_append_some (run_ws hbeforeColon hoff), run_cons_some (show step .outside ':' = _ from rfl),
    run_append_some (run_ws hafterColon hoff)]

/-- The automaton passes what the grammar derives. -/
theorem Derives.run_eq {p : Shape} (h : Derives p s) :
    ∀ st, Ready st → ∃ st', run st s = some st' ∧ st'.ended = true := by
  have hoff : Ready .outside := Or.inl rfl
  have hcomma : Ready .comma := Or.inr rfl
  induction h with
  | literal hs =>
    rintro st (rfl | rfl) <;> rcases hs with rfl | rfl | rfl <;> exact ⟨.outside, rfl, rfl⟩
  | number hs => exact fun st hst => run_number hs hst
  | string hs => exact fun st hst => ⟨.outside, run_string hs hst, rfl⟩
  | emptyArray hgap =>
    intro st hst
    rw [run_open hst (Or.inl rfl), run_append_some (run_ws hgap hoff)]
    exact ⟨.outside, rfl, rfl⟩
  | array _ ih =>
    intro st hst
    obtain ⟨st', hrun, hended⟩ := ih .outside hoff
    rw [run_open hst (Or.inl rfl), run_append_some hrun]
    exact ⟨.outside, run_close hended (Or.inl rfl), rfl⟩
  | emptyObject hgap =>
    intro st hst
    rw [run_open hst (Or.inr rfl), run_append_some (run_ws hgap hoff)]
    exact ⟨.outside, rfl, rfl⟩
  | object _ ih =>
    intro st hst
    obtain ⟨st', hrun, hended⟩ := ih .outside hoff
    rw [run_open hst (Or.inr rfl), run_append_some hrun]
    exact ⟨.outside, run_close hended (Or.inr rfl), rfl⟩
  | lastItem hbefore _ hafter ih =>
    intro st hst
    obtain ⟨st', hrun, hended⟩ := ih st hst
    rw [run_append_some (run_ws hbefore hst), run_append_some hrun]
    exact run_ws_ended hafter hended
  | item hbefore _ hafter _ ih ihRest =>
    intro st hst
    obtain ⟨st₁, hrun, hended⟩ := ih st hst
    obtain ⟨st₂, hws, hended⟩ := run_ws_ended hafter hended
    rw [run_append_some (run_ws hbefore hst), run_append_some hrun, run_append_some hws,
      run_comma hended]
    exact ihRest .comma hcomma
  | lastMember hbefore hname hbeforeColon hafterColon _ hafter ih =>
    intro st hst
    obtain ⟨st', hrun, hended⟩ := ih .outside hoff
    rw [run_name hbefore hname hbeforeColon hafterColon hst, run_append_some hrun]
    exact run_ws_ended hafter hended
  | member hbefore hname hbeforeColon hafterColon _ hafter _ ih ihRest =>
    intro st hst
    obtain ⟨st₁, hrun, hended⟩ := ih .outside hoff
    obtain ⟨st₂, hws, hended⟩ := run_ws_ended hafter hended
    rw [run_name hbefore hname hbeforeColon hafterColon hst, run_append_some hrun,
      run_append_some hws, run_comma hended]
    exact ihRest .comma hcomma

theorem IsJson.run_isSome (h : IsJson s) : ∃ st, run .outside s = some st := by
  have hoff : Ready .outside := Or.inl rfl
  obtain ⟨hbefore, hvalue, hafter⟩ := h
  obtain ⟨st₁, hrun, hended⟩ := hvalue.run_eq .outside hoff
  obtain ⟨st₂, hws, _⟩ := run_ws_ended hafter hended
  exact ⟨st₂, by rw [run_append_some (run_ws hbefore hoff), run_append_some hrun, hws]⟩

/-! ## Reading numbers off the automaton -/

/-- Digits, points and signs. -/
def Numeric (s : Bytes) : Prop := ∀ b ∈ s, isDigit b = true ∨ b = '.' ∨ b = '-' ∨ b = '+'

theorem numeric_cons {b : Byte} :
    Numeric (b :: s) ↔ (isDigit b = true ∨ b = '.' ∨ b = '-' ∨ b = '+') ∧ Numeric s :=
  List.forall_mem_cons

theorem step_zero_digit {b : Byte} (hb : isDigit b = true) : step .zero b = none := by
  have hne : ∀ c : Byte, isDigit c = false → b ≠ c := fun c hc => ne_of_isDigit hb hc
  rw [step, if_neg (hne _ (by decide)), if_neg, after, if_neg (hne _ (by decide)), if_neg]
  · rintro (rfl | rfl | rfl | rfl | rfl | rfl) <;> cases hb
  · rintro (rfl | rfl) <;> cases hb

theorem digits_of_run (hs : Numeric s) (h : run .fraction s = some st) :
    ∀ b ∈ s, isDigit b = true := by
  induction s with
  | nil => simp
  | cons b s ih =>
    obtain ⟨hb, hrest⟩ := numeric_cons.mp hs
    rcases hb with hb | rfl | rfl | rfl
    · have hstep : step .fraction b = some .fraction := if_pos hb
      rw [run_cons_some hstep] at h
      exact List.forall_mem_cons.mpr ⟨hb, ih hrest h⟩
    all_goals cases h

theorem isFrac_of_run (hs : Numeric s) (h : run .point s = some st) (hended : st.ended = true) :
    IsFrac (('.' : Byte) :: s) := by
  cases s with
  | nil =>
    cases h
    cases hended
  | cons b s =>
    obtain ⟨hb, hrest⟩ := numeric_cons.mp hs
    rcases hb with hb | rfl | rfl | rfl
    · have hstep : step .point b = some .fraction := if_pos hb
      rw [run_cons_some hstep] at h
      exact .digits (List.forall_mem_cons.mpr ⟨hb, digits_of_run hrest h⟩) (List.cons_ne_nil b s)
    all_goals cases h

theorem isFrac_of_run_zero (hs : Numeric s) (h : run .zero s = some st)
    (hended : st.ended = true) : IsFrac s := by
  cases s with
  | nil => exact .none
  | cons b s =>
    obtain ⟨hb, hrest⟩ := numeric_cons.mp hs
    rcases hb with hb | rfl | rfl | rfl
    · rw [run_cons, step_zero_digit hb] at h
      cases h
    · exact isFrac_of_run hrest h hended
    all_goals cases h

theorem isFrac_of_run_whole (hs : Numeric s) (h : run .whole s = some st)
    (hended : st.ended = true) :
    ∃ ds frac, (∀ b ∈ ds, isDigit b = true) ∧ IsFrac frac ∧ s = ds ++ frac := by
  induction s with
  | nil => exact ⟨[], [], by simp, .none, rfl⟩
  | cons b s ih =>
    obtain ⟨hb, hrest⟩ := numeric_cons.mp hs
    rcases hb with hb | rfl | rfl | rfl
    · have hstep : step .whole b = some .whole := if_pos hb
      rw [run_cons_some hstep] at h
      obtain ⟨ds, frac, hds, hfrac, rfl⟩ := ih hrest h
      exact ⟨b :: ds, frac, List.forall_mem_cons.mpr ⟨hb, hds⟩, hfrac, rfl⟩
    · have hpoint : run .point s = some st := h
      exact ⟨[], _, by simp, isFrac_of_run hrest hpoint hended, rfl⟩
    all_goals cases h

theorem isInt_of_run (hs : Numeric s) (h : run .minus s = some st) (hended : st.ended = true) :
    ∃ int frac, IsInt int ∧ IsFrac frac ∧ s = int ++ frac := by
  cases s with
  | nil =>
    cases h
    cases hended
  | cons b s =>
    obtain ⟨hb, hrest⟩ := numeric_cons.mp hs
    rcases hb with hb | rfl | rfl | rfl
    · by_cases hzero : b = '0'
      · subst hzero
        exact ⟨_, s, .zero, isFrac_of_run_zero hrest h hended, rfl⟩
      · have hstep : step .minus b = some .whole := by rw [step, if_neg hzero, if_pos hb]
        rw [run_cons_some hstep] at h
        obtain ⟨ds, frac, hds, hfrac, rfl⟩ := isFrac_of_run_whole hrest h hended
        exact ⟨b :: ds, frac, .digits hb hzero hds, hfrac, rfl⟩
    all_goals cases h

/-- Digits, points and signs that the automaton passes are a number. -/
theorem isNumber_of_run (hs : Numeric s) (hne : s ≠ []) (h : run .outside s = some st)
    (hended : st.ended = true) : IsNumber s := by
  obtain ⟨b, s, rfl⟩ := List.exists_cons_of_ne_nil hne
  have hrest := numeric_cons.mp hs
  rcases hrest.1 with hb | rfl | rfl | rfl
  · -- A digit is read as if behind a sign.
    have hstep : step .outside b = step .minus b := by
      have hquote : b ≠ '"' := ne_of_isDigit hb (by decide)
      have hminus : b ≠ '-' := ne_of_isDigit hb (by decide)
      rw [step, start, if_neg hquote, if_neg hminus, if_pos hb, step, if_pos hb]
    rw [run_cons, hstep, ← run_cons] at h
    obtain ⟨int, frac, hint, hfrac, heq⟩ := isInt_of_run hs h hended
    rw [heq, ← List.append_nil frac]
    exact .intro (Or.inl rfl) hint hfrac .none
  · cases h
  · obtain ⟨int, frac, hint, hfrac, rfl⟩ := isInt_of_run hrest.2 h hended
    rw [← List.append_nil frac]
    exact .intro (Or.inr rfl) hint hfrac .none
  · cases h

/-- Inside of a number. -/
def State.inNumber : State → Bool
  | .outside | .comma | .inside | .escaped => false
  | _ => true

theorem step_inNumber (hst : st.inNumber = true) {b : Byte}
    (hb : isDigit b = true ∨ b = '.' ∨ b = '-' ∨ b = '+') (h : step st b = some st') :
    st'.inNumber = true := by
  rcases hb with hb | rfl | rfl | rfl
  · cases st with
    | outside | comma | inside | escaped => cases hst
    | zero =>
      rw [step_zero_digit hb] at h
      cases h
    | minus | letter =>
      rw [step, if_pos hb] at h
      split at h
      all_goals
        cases h
        rfl
    | whole | point | fraction | exponentSign | exponent =>
      rw [step, if_pos hb] at h
      cases h
      rfl
  all_goals cases st <;> cases hst <;> cases h <;> rfl

theorem run_inNumber (hs : Numeric s) (hst : st.inNumber = true) (h : run st s = some st') :
    st'.inNumber = true := by
  induction s generalizing st with
  | nil =>
    cases h
    exact hst
  | cons b s ih =>
    obtain ⟨hb, hrest⟩ := numeric_cons.mp hs
    obtain ⟨st₁, hstep, h⟩ := Option.bind_eq_some_iff.mp h
    exact ih hrest (step_inNumber hst hb hstep) h

theorem start_inNumber {b : Byte} (hb : isDigit b = true ∨ b = '.' ∨ b = '-' ∨ b = '+')
    (h : start b = some st) : st.inNumber = true := by
  rcases hb with hb | rfl | rfl | rfl
  · have hquote : b ≠ '"' := ne_of_isDigit hb (by decide)
    have hminus : b ≠ '-' := ne_of_isDigit hb (by decide)
    rw [start, if_neg hquote, if_neg hminus, if_pos hb] at h
    split at h
    all_goals
      cases h
      rfl
  all_goals
    cases h
    try rfl

/-- The automaton passes a comma or a line break behind a number only. -/
theorem isNumber_of_run_append (hs : Numeric s) (hne : s ≠ []) {b : Byte} (hb : b = ',' ∨ b = '\n')
    (h : run .outside (s ++ b :: t) = some st) : IsNumber s := by
  rw [run_append] at h
  obtain ⟨st₁, hrun, h⟩ := Option.bind_eq_some_iff.mp h
  obtain ⟨st₂, hstep, -⟩ := Option.bind_eq_some_iff.mp h
  refine isNumber_of_run hs hne hrun ?_
  have hnumber : st₁.inNumber = true := by
    obtain ⟨c, s, rfl⟩ := List.exists_cons_of_ne_nil hne
    obtain ⟨hc, hrest⟩ := numeric_cons.mp hs
    obtain ⟨st₃, hstart, hrun⟩ := Option.bind_eq_some_iff.mp hrun
    exact run_inNumber hrest (start_inNumber hc hstart) hrun
  rcases hb with rfl | rfl <;> cases st₁ <;> cases hnumber <;> first | rfl | cases hstep

end JsonGrammar
