import InverterMonitor.Firmware.Device

/-!
# The lines that write a register of the inverter

`handleCommand` reads both halves of an unnamed line with `strtoul`, which takes
any numeral at the start of a text.  Proved here:

* `writes_iff`: the texts for which `writeSingleRegister` is called;
* `writes_numerals_iff`: a line writes only as two decimal numerals with spaces
  between them, unless it has a sign, other white space, zeros in front or more
  text than these;
* `malformed_line_writes`: a line that writes although it has more text.
-/

namespace InverterMonitor.Firmware
open Text Cxx Runs

/-- The address of a read-write register of the tables. -/
def IsReadWrite (address : UInt16) : Prop :=
  ∃ reg ∈ controlRegisters ++ monitorRegisters, reg.address = address ∧ reg.access = .readWrite

/-! ## Texts -/

/-- `strtoul` reads a sign and digits, which denote `n`, and stops before `rest`. -/
structure Numeral (sign digits rest : Bytes) (n : Nat) : Prop where
  signText : IsSignText sign
  digitText : Digits digits
  nonempty : digits ≠ []
  stops : Stops isDigit rest
  fits : numeralValue digits < 2 ^ 32
  value : n = wrapSign 32 (sign == ascii "-") (numeralValue digits)

theorem reads_iff_numeral {s rest : Bytes} {n : Nat} :
    Reads 32 s n rest ↔ ∃ gap sign digits, Blank gap ∧ Numeral sign digits rest n ∧
      s = gap ++ (sign ++ (digits ++ rest)) := by
  constructor
  · rintro ⟨gap, sign, digits, hgap, hsign, hdigits, hne, hstops, hfits, hvalue, heq⟩
    exact ⟨gap, sign, digits, hgap, ⟨hsign, hdigits, hne, hstops, hfits, hvalue⟩, heq⟩
  · rintro ⟨gap, sign, digits, hgap, h, heq⟩
    exact ⟨gap, sign, digits, hgap, h.signText, h.digitText, h.nonempty, h.stops, h.fits, h.value, heq⟩

/-- The parts of a line that is read as an address and a value. -/
structure WriteText where
  sign : Bytes
  address : Bytes
  junk : Bytes
  gap : Bytes
  valueSign : Bytes
  value : Bytes
  rest : Bytes

namespace WriteText

def first (p : WriteText) : Bytes := p.sign ++ (p.address ++ p.junk)

def second (p : WriteText) : Bytes := p.gap ++ (p.valueSign ++ (p.value ++ p.rest))

def text (p : WriteText) : Bytes := p.first ++ (' ' : Byte) :: p.second

/-- The parts are read as `address` and `value`. -/
structure Denotes (p : WriteText) (address value : Nat) : Prop where
  address : Numeral p.sign p.address p.junk address
  noBlank : (' ' : Byte) ∉ p.junk
  noNul : (0 : Byte) ∉ p.junk
  gap : Blank p.gap
  value : Numeral p.valueSign p.value p.rest value

/-- Two decimal numerals, spaces, and nothing else. -/
structure Plain (p : WriteText) : Prop where
  sign : p.sign = []
  address : p.address = decimal (numeralValue p.address)
  junk : p.junk = []
  gap : ∀ b ∈ p.gap, b = ' '
  valueSign : p.valueSign = []
  value : p.value = decimal (numeralValue p.value)
  rest : p.rest = []

end WriteText

/-! ## Numerals -/

theorem Numeral.value_eq {digits rest : Bytes} {n : Nat} (h : Numeral [] digits rest n) :
    numeralValue digits = n := h.value.symm

theorem Numeral.stops_space {sign digits rest : Bytes} {n : Nat} (h : Numeral sign digits rest n) :
    Stops isSpace (sign ++ (digits ++ rest)) := stops_sign h.signText h.digitText h.nonempty rest

/-- A numeral that makes up a decimal text has no sign and nothing after it. -/
theorem Numeral.of_decimal {sign digits rest : Bytes} {n m : Nat} (h : Numeral sign digits rest n)
    (heq : sign ++ (digits ++ rest) = decimal m) : sign = [] ∧ digits = decimal m ∧ rest = [] := by
  have hall := decimal_digits m
  rw [← heq] at hall
  have hsign : sign = [] := by
    rcases h.signText with rfl | rfl | rfl
    · rfl
    · exact absurd (hall '-' (by simp [ascii])) (by decide)
    · exact absurd (hall '+' (by simp [ascii])) (by decide)
  have hrest : rest = [] := by
    cases rest with
    | nil => rfl
    | cons b rest =>
      have hb := h.stops b rfl
      rw [hall b (by simp)] at hb
      cases hb
  subst hsign hrest
  exact ⟨rfl, by simpa using heq, rfl⟩

/-- White space before a text that does not begin with any. -/
theorem append_blank_inj {gap gap' s t : Bytes} (hgap : Blank gap) (hgap' : Blank gap')
    (hs : Stops isSpace s) (ht : Stops isSpace t) (h : gap ++ s = gap' ++ t) :
    gap = gap' ∧ s = t := by
  have hfirst := takeWhile_append_stop hgap hs
  have hsecond := dropWhile_append_stop hgap hs
  rw [h, takeWhile_append_stop hgap' ht] at hfirst
  rw [h, dropWhile_append_stop hgap' ht] at hsecond
  exact ⟨hfirst.symm, hsecond.symm⟩

/-! ## Reading the line -/

theorem findRegister_eq_some_of_mem {reg : RegItem}
    (h : reg ∈ controlRegisters ++ monitorRegisters) : findRegister reg.address = some reg := by
  have hall : ((controlRegisters ++ monitorRegisters).all fun reg =>
    findRegister reg.address = some reg) = true := by decide
  simpa using List.all_eq_true.mp hall reg h

theorem isReadWrite_iff {address : UInt16} :
    IsReadWrite address ↔ ∃ reg, findRegister address = some reg ∧ reg.access = .readWrite := by
  constructor
  · rintro ⟨reg, hmem, rfl, haccess⟩
    exact ⟨reg, findRegister_eq_some_of_mem hmem, haccess⟩
  · rintro ⟨reg, hfound, haccess⟩
    exact ⟨reg, List.mem_of_find?_eq_some hfound, findRegister_address hfound, haccess⟩

/-- No register has the address of a relay. -/
theorem findRegister_not_relay {address : UInt16} {reg : RegItem}
    (h : findRegister address = some reg) : ¬address.toNat ≤ relayPinCount := by
  have hall : ((controlRegisters ++ monitorRegisters).all fun reg =>
    ¬reg.address.toNat ≤ relayPinCount) = true := by decide
  rw [← findRegister_address h]
  simpa using List.all_eq_true.mp hall reg (List.mem_of_find?_eq_some h)

/-- What `parseWrite` asks of a register write. -/
theorem parseWrite_write_iff {line : Bytes} {reg : RegItem} {value : UInt16} :
    parseWrite line = .ok (.write reg value) ↔
      ∃ first second, splitAtIndex ' ' (trim line) = some (first, second) ∧
        strtoul32 first = some reg.address.toNat ∧ strtoul32 second = some value.toNat ∧
        findRegister reg.address = some reg ∧ reg.access = .readWrite := by
  unfold parseWrite
  constructor
  · intro h
    obtain ⟨⟨addrText, valueText⟩, hargs, hrest⟩ := bind_eq_ok.mp h
    obtain ⟨address, haddress, hrest⟩ := bind_eq_ok.mp hrest
    rw [parseAddress_eq_ok_iff] at haddress
    split at hrest
    · cases hrest
    · next rawValue hvalue =>
      split at hrest
      · cases hrest
      · next hrange =>
        split at hrest
        · cases hrest
        · split at hrest
          · cases hrest
          · next reg' hfound =>
            split at hrest
            · cases hrest
            · next haccess =>
              cases hrest
              obtain ⟨first, second, hcut, rfl, rfl, _, _⟩ := twoArguments_eq_ok_iff.mp hargs
              rw [strtoul32_trim] at haddress hvalue
              have haddr := findRegister_address hfound
              have hword : rawValue.toUInt16.toNat = rawValue := by
                rw [Nat.toUInt16_eq, UInt16.toNat_ofNat', Nat.mod_eq_of_lt (by omega)]
              subst haddr
              exact ⟨first, second, hcut, haddress, by rw [hvalue, hword], hfound,
                Decidable.not_not.mp haccess⟩
  · rintro ⟨first, second, hcut, haddress, hvalue, hfound, haccess⟩
    have hfirst : trim first ≠ [] := by
      intro hnil
      rw [← strtoul32_trim, hnil] at haddress
      cases haddress
    have hsecond : trim second ≠ [] := by
      intro hnil
      rw [← strtoul32_trim, hnil] at hvalue
      cases hvalue
    have hargs : twoArguments "invalid format, expected '[regAddr] [uintValue]'" line =
        .ok (trim first, trim second) :=
      twoArguments_eq_ok_iff.mpr ⟨first, second, hcut, rfl, rfl, hfirst, hsecond⟩
    have hparsed : parseAddress (trim first) = .ok reg.address := by
      rw [parseAddress_eq_ok_iff, strtoul32_trim, haddress]
    have hraw : strtoul32 (trim second) = some value.toNat := by rw [strtoul32_trim, hvalue]
    have hrange : ¬0xFFFF < value.toNat := by
      have := value.toNat_lt
      omega
    have hvalue' : value.toNat.toUInt16 = value := by simp
    simp only [hargs, ok_bind, hparsed, hraw, hrange, findRegister_not_relay hfound, hfound,
      haccess, hvalue', ne_eq, not_true_eq_false, ↓reduceIte]

/-- A numeral begins with a digit or a sign. -/
theorem Numeral.head {sign digits rest : Bytes} {n : Nat} (h : Numeral sign digits rest n) :
    ∃ b s, sign ++ (digits ++ rest) = b :: s ∧ (isDigit b = true ∨ isSign b = true) := by
  obtain ⟨d, ds, hd⟩ := List.exists_cons_of_ne_nil h.nonempty
  have hdigit : isDigit d = true := h.digitText d (by simp [hd])
  rcases h.signText with rfl | rfl | rfl
  · exact ⟨d, ds ++ rest, by simp [hd], Or.inl hdigit⟩
  · exact ⟨'-', digits ++ rest, rfl, Or.inr (by decide)⟩
  · exact ⟨'+', digits ++ rest, rfl, Or.inr (by decide)⟩

theorem Numeral.strtoul32 {sign digits rest gap : Bytes} {n : UInt16}
    (h : Numeral sign digits rest n.toNat) (hgap : Blank gap) :
    Firmware.strtoul32 (gap ++ (sign ++ (digits ++ rest))) = some n.toNat := by
  have hn := n.toNat_lt
  exact (strtoul32_eq_some_iff (by omega)).mpr
    ⟨rest, reads_iff_numeral.mpr ⟨gap, sign, digits, hgap, h, rfl⟩⟩

/-- The first part has no blank and no NUL. -/
theorem WriteText.Denotes.split {p : WriteText} {address value : Nat} (h : p.Denotes address value) :
    splitAtIndex ' ' p.text = some (p.first, p.second) :=
  (splitAtIndex_eq_some_iff (by decide)).mpr
    ⟨not_mem_numeral h.address.signText h.address.digitText (by decide) h.noBlank,
      not_mem_numeral h.address.signText h.address.digitText (by decide) h.noNul, rfl⟩

/-- The texts that are read as a write of `value` to the register at `address`. -/
theorem parseCommandLine_write_iff {rawLine : Bytes} {address value : UInt16} :
    (∃ reg, parseCommandLine rawLine = .ok (.write reg value) ∧ reg.address = address) ↔
      IsReadWrite address ∧
        ∃ p : WriteText, trim rawLine = p.text ∧ p.Denotes address.toNat value.toNat := by
  unfold parseCommandLine
  simp only
  constructor
  · rintro ⟨reg, h, rfl⟩
    split at h
    · cases h
    · rcases parseNamed_cases (trim rawLine) namedForms with
        ⟨name, parse, remainder, hmem, _, hparse⟩ | hwrite
      · rw [hparse] at h
        exact absurd rfl ((namedForms_named hmem remainder _ h).2 reg value)
      · rw [hwrite] at h
        obtain ⟨first, second, hcut, hfirst, hsecond, hfound, haccess⟩ :=
          parseWrite_write_iff.mp h
        rw [trim_trim] at hcut
        obtain ⟨hblank, hnul, hline⟩ := (splitAtIndex_eq_some_iff (by decide)).mp hcut
        have haddress := reg.address.toNat_lt
        have hvalue := value.toNat_lt
        obtain ⟨junk, hreads⟩ := (strtoul32_eq_some_iff (by omega)).mp hfirst
        obtain ⟨rest, hreads'⟩ := (strtoul32_eq_some_iff (by omega)).mp hsecond
        obtain ⟨lead, sign, digits, hlead, hnumeral, rfl⟩ := reads_iff_numeral.mp hreads
        obtain ⟨gap, valueSign, valueDigits, hgap, hnumeral', rfl⟩ := reads_iff_numeral.mp hreads'
        -- a trimmed line has no white space before its number
        obtain rfl : lead = [] := by
          obtain ⟨_, _, _, _, _, hstops, _⟩ := exists_trim rawLine
          cases lead with
          | nil => rfl
          | cons b lead =>
            have hspace := hlead b (by simp)
            rw [hstops b (by simp [hline])] at hspace
            cases hspace
        refine ⟨isReadWrite_iff.mpr ⟨reg, hfound, haccess⟩,
          ⟨sign, digits, junk, gap, valueSign, valueDigits, rest⟩, hline, hnumeral,
          fun hmem => hblank (by simp [hmem]), fun hmem => hnul (by simp [hmem]), hgap, hnumeral'⟩
  · rintro ⟨hregister, p, hline, h⟩
    obtain ⟨reg, hfound, haccess⟩ := isReadWrite_iff.mp hregister
    have haddress := findRegister_address hfound
    obtain ⟨b, s, hhead, hb⟩ := h.address.head
    have hcons : p.text = b :: (s ++ (' ' : Byte) :: p.second) := by
      unfold WriteText.text WriteText.first
      rw [hhead, List.cons_append]
    have hwrite : parseWrite (trim rawLine) = .ok (.write reg value) := by
      refine parseWrite_write_iff.mpr ⟨p.first, p.second, ?_, ?_, ?_, ?_, haccess⟩
      · rw [trim_trim, hline]
        exact h.split
      · rw [haddress]
        exact h.address.strtoul32 blank_nil
      · exact h.value.strtoul32 h.gap
      · rw [haddress, hfound]
    refine ⟨reg, ?_, haddress⟩
    rw [hline, hcons] at hwrite ⊢
    rw [if_neg (List.cons_ne_nil _ _), parseNamed_number _ hb]
    exact hwrite

/-! ## Writes -/

/-- Of all that a line makes the device do only a register write writes a register. -/
theorem Carries.write_mem_iff {answers : Answers} {d : Device} {parsed : Except Bytes Command}
    {x : Execution Device Action} (h : Carries answers d parsed x) {address value : UInt16} :
    .writeSingleRegister address value ∈ x.log ↔
      ∃ reg, parsed = .ok (.write reg value) ∧ reg.address = address := by
  have hnot {looked : List Action} (hlooked : TableReads looked) :
      .writeSingleRegister address value ∉ looked := by
    intro hmem
    obtain ⟨_, _, heq, _⟩ := hlooked _ hmem
    cases heq
  cases h with
  | rejected message hlooked => simp [hnot hlooked]
  | performed command hlooked =>
    simp only [List.mem_append, hnot hlooked, false_or, Except.ok.injEq]
    cases command with
    | write reg v =>
      cases hwritten : answers.written <;>
        simp [Command.actions, hwritten, eq_comm, and_comm]
    | wifi | host | sim | ctrlScanMs | monScanMs | regSpacingMs | clearIp | setIp =>
      cases hcommit : answers.committed <;>
        simp [Command.actions, Command.intervalActions, savedOr, hcommit]
    | read reg =>
      cases hsimulated : d.board.memory.simulationMode <;>
        cases hresult : answers.readResult <;> simp [Command.actions, hsimulated, hresult]
    | otaUrl url => cases hresult : answers.updateResult <;> simp [Command.actions, hresult]
    | relayValue a v =>
      simp only [Command.actions]
      cases setRelayState (a - 1).toUInt8 (v ≠ 0) <;> simp
    | _ => simp [Command.actions]

/-- `writeSingleRegister` is called for the texts that are read as a write. -/
theorem writes_iff {answers : Answers} {d : Device} {rawLine : Bytes} {address value : UInt16} :
    .writeSingleRegister address value ∈ (d.handleCommand answers rawLine).log ↔
      IsReadWrite address ∧
        ∃ p : WriteText, trim rawLine = p.text ∧ p.Denotes address.toNat value.toNat := by
  rw [(handleCommand_carries answers d rawLine).write_mem_iff]
  exact parseCommandLine_write_iff

/-- A line in the form that the documentation gives for a write. -/
def IsPlainWrite (line : Bytes) (address value : UInt16) : Prop :=
  ∃ spaces, spaces ≠ [] ∧ (∀ b ∈ spaces, b = (' ' : Byte)) ∧
    line = decimal address.toNat ++ (spaces ++ decimal value.toNat)

theorem WriteText.Plain.isPlainWrite {p : WriteText} {address value : UInt16} (h : p.Plain)
    (hdenotes : p.Denotes address.toNat value.toNat) : IsPlainWrite p.text address value := by
  obtain ⟨hsign, haddress, hjunk, hgap, hvalueSign, hvalue, hrest⟩ := h
  obtain ⟨hnumeral, _, _, _, hnumeral'⟩ := hdenotes
  rw [hsign] at hnumeral
  rw [hvalueSign] at hnumeral'
  rw [hnumeral.value_eq] at haddress
  rw [hnumeral'.value_eq] at hvalue
  refine ⟨(' ' : Byte) :: p.gap, List.cons_ne_nil _ _, ?_, ?_⟩
  · intro b hb
    rcases List.mem_cons.mp hb with rfl | hb
    · rfl
    · exact hgap b hb
  · simp [WriteText.text, WriteText.first, WriteText.second, hsign, haddress, hjunk, hvalueSign,
      hvalue, hrest]

theorem IsPlainWrite.plain {p : WriteText} {address value : UInt16}
    (h : IsPlainWrite p.text address value) {n m : Nat} (hdenotes : p.Denotes n m) : p.Plain := by
  obtain ⟨spaces, hne, hspaces, hline⟩ := h
  obtain ⟨b, spaces, rfl⟩ := List.exists_cons_of_ne_nil hne
  have hb : b = ' ' := hspaces b (by simp)
  subst hb
  have hdigits {c : Byte} (hc : isDigit c = false) : c ∉ decimal address.toNat := by
    intro hmem
    rw [decimal_digits _ _ hmem] at hc
    cases hc
  -- both texts are split at their first blank
  have hsplit : splitAtIndex ' ' p.text =
      some (decimal address.toNat, spaces ++ decimal value.toNat) :=
    (splitAtIndex_eq_some_iff (by decide)).mpr
      ⟨hdigits (by decide), hdigits (by decide), by rw [hline]; rfl⟩
  have hparts := Option.some.inj (hdenotes.split.symm.trans hsplit)
  have hfirst : p.first = decimal address.toNat := congrArg Prod.fst hparts
  have hsecond : p.second = spaces ++ decimal value.toNat := congrArg Prod.snd hparts
  obtain ⟨hsign, haddress, hjunk⟩ := hdenotes.address.of_decimal hfirst
  have hdecimal : Stops isSpace (decimal value.toNat) := by
    intro c hc
    exact isSpace_of_isDigit (decimal_digits _ c (List.mem_of_mem_head? hc))
  have hspaces' : Blank spaces := by
    intro c hc
    rw [hspaces c (by simp [hc])]
    decide
  obtain ⟨hgap, hnumeral⟩ :=
    append_blank_inj hdenotes.gap hspaces' hdenotes.value.stops_space hdecimal hsecond
  obtain ⟨hvalueSign, hvalue, hrest⟩ := hdenotes.value.of_decimal hnumeral
  refine ⟨hsign, ?_, hjunk, ?_, hvalueSign, ?_, hrest⟩
  · rw [haddress, numeralValue_decimal]
  · rw [hgap]
    exact fun c hc => hspaces c (by simp [hc])
  · rw [hvalue, numeralValue_decimal]

/-- A line writes only in the plain form, to a read-write register and with 16
bits, exactly if none of its readings as a write has a part that does not belong
there. -/
theorem writes_numerals_iff (rawLine : Bytes) :
    (∀ answers (d : Device) address value,
      .writeSingleRegister address value ∈ (d.handleCommand answers rawLine).log →
        IsPlainWrite (trim rawLine) address value ∧ IsReadWrite address ∧ value.toNat ≤ 65535) ↔
      ∀ (p : WriteText) (address value : UInt16), trim rawLine = p.text →
        p.Denotes address.toNat value.toNat → IsReadWrite address → p.Plain := by
  constructor
  · intro h p address value hline hdenotes hregister
    have hwrites := h { committed := true, written := true, now := 0 }
      { board := Board.boot fun _ => 0xFF } address value
      (writes_iff.mpr ⟨hregister, p, hline, hdenotes⟩)
    have hplain := hwrites.1
    rw [hline] at hplain
    exact hplain.plain hdenotes
  · intro h answers d address value hwrite
    obtain ⟨hregister, p, hline, hdenotes⟩ := writes_iff.mp hwrite
    have hplain := h p address value hline hdenotes hregister
    rw [hline]
    have hvalue := value.toNat_lt
    exact ⟨hplain.isPlainWrite hdenotes, hregister, by omega⟩

/-- `20102 2300V`. -/
def unitText : WriteText := ⟨[], ascii "20102", [], [], [], ascii "2300", ascii "V"⟩

theorem unitText_denotes : unitText.Denotes 20102 2300 := by
  refine ⟨⟨Or.inl rfl, List.all_eq_true.mp (by decide), by decide, stops_nil _, by decide, rfl⟩,
    by decide, by decide, blank_nil,
    ⟨Or.inl rfl, List.all_eq_true.mp (by decide), by decide, ?_, by decide, rfl⟩⟩
  intro b hb
  obtain rfl : ('V' : Byte) = b := by simpa [unitText, ascii] using hb
  rfl

/-- Behind a NUL no blank is found. -/
example : (parseCommandLine (ascii "20102" ++ 0 :: ascii " 2300")).toOption.isNone = true := by
  decide

/-- A unit after the value is no obstacle. -/
theorem malformed_line_writes :
    ¬∀ rawLine answers (d : Device) address value,
      .writeSingleRegister address value ∈ (d.handleCommand answers rawLine).log →
        IsPlainWrite (trim rawLine) address value ∧ IsReadWrite address ∧
          value.toNat ≤ 65535 := by
  intro h
  have hregister : IsReadWrite 20102 :=
    isReadWrite_iff.mpr ⟨⟨20102, .readWrite⟩, by decide, rfl⟩
  have hline : trim (ascii "20102 2300V") = unitText.text := by decide
  have hwrites := h (ascii "20102 2300V") { committed := true, written := true, now := 0 }
    { board := Board.boot fun _ => 0xFF } 20102 2300
    (writes_iff.mpr ⟨hregister, unitText, hline, unitText_denotes⟩)
  have hplain := hwrites.1
  rw [hline] at hplain
  exact absurd (hplain.plain unitText_denotes).rest (by decide)

end InverterMonitor.Firmware
