import InverterMonitor.Server.Monitor
import InverterMonitor.Firmware.Commands

/-!
# Relay commands on both sides of the connection

`parseCommand` switches a plug and forwards the line; `handleCommand` of the
firmware sets a relay.

* `relaySwitch_eq_some_iff`: the lines that switch a plug, as texts;
* `relay_agreement_iff`: the lines on which both sides do the same.
-/

namespace InverterMonitor.Wire
open Text Cxx Monitor Firmware

/-! ## The server's side -/

theorem relaySwitch_eq_some_iff {command : Bytes} {switch : RelaySwitch} :
    relaySwitch command = some switch ↔
      ∃ args n rest word after, FirstWord command (ascii "RELAY") args ∧ Reads 32 args n rest ∧
        FirstWord rest word after ∧ switch = ⟨n.toUInt8, if word ∈ offTexts then 0 else 1⟩ := by
  obtain ⟨trimmed, last, htrimmed, hlast, hcommand⟩ : ∃ trimmed last,
      (if command.getLast? = some newline then command.dropLast else command) = trimmed ∧
        Blank last ∧ command = trimmed ++ last := by
    by_cases h : command.getLast? = some newline
    · refine ⟨command.dropLast, [newline], if_pos h, fun b hb => ?_, ?_⟩
      · rw [List.mem_singleton.mp hb]
        decide
      · exact (List.dropLast_append_getLast? newline h).symm
    · exact ⟨command, [], if_neg h, blank_nil, (List.append_nil command).symm⟩
  unfold relaySwitch
  simp only [htrimmed]
  constructor
  · intro h
    obtain ⟨⟨token, args⟩, htoken, h⟩ := Option.bind_eq_some_iff.mp h
    simp only at h
    split at h
    · cases h
    · next hrelay =>
      rw [ne_eq, not_not] at hrelay
      obtain ⟨⟨n, rest⟩, hnumber, h⟩ := Option.bind_eq_some_iff.mp h
      obtain ⟨⟨word, after⟩, hword, h⟩ := Option.bind_eq_some_iff.mp h
      cases h
      refine ⟨args ++ last, n, rest ++ last, word, after ++ last, ?_, ?_, ?_, rfl⟩
      · rw [← nextWord_eq_some_iff, hcommand, nextWord_append_blank hlast, htoken, hrelay]
        rfl
      · rw [← extractUnsigned_eq_some_iff, extractUnsigned_append_blank hlast, hnumber]
        rfl
      · rw [← nextWord_eq_some_iff, nextWord_append_blank hlast, hword]
        rfl
  · rintro ⟨args, n, rest, word, after, hargs, hnumber, hword, rfl⟩
    rw [← nextWord_eq_some_iff, hcommand, nextWord_append_blank hlast] at hargs
    obtain ⟨⟨token, args'⟩, htoken, hpair⟩ := Option.map_eq_some_iff.mp hargs
    obtain ⟨rfl, rfl⟩ := Prod.mk.inj hpair
    rw [← extractUnsigned_eq_some_iff, extractUnsigned_append_blank hlast] at hnumber
    obtain ⟨⟨n', rest'⟩, hread, hpair⟩ := Option.map_eq_some_iff.mp hnumber
    obtain ⟨rfl, rfl⟩ := Prod.mk.inj hpair
    rw [← nextWord_eq_some_iff, nextWord_append_blank hlast] at hword
    obtain ⟨⟨word', after'⟩, hstate, hpair⟩ := Option.map_eq_some_iff.mp hword
    obtain ⟨rfl, rfl⟩ := Prod.mk.inj hpair
    simp [htoken, hread, hstate]

theorem relaySwitch_eq_none_iff {command : Bytes} :
    relaySwitch command = none ↔
      ∀ args n rest, FirstWord command (ascii "RELAY") args → Reads 32 args n rest →
        Blank rest := by
  rw [Option.eq_none_iff_forall_ne_some]
  constructor
  · intro h args n rest hargs hnumber
    by_contra hrest
    obtain ⟨⟨word, after⟩, hword⟩ : ∃ p, nextWord rest = some p := by
      rw [← Option.ne_none_iff_exists', ne_eq, nextWord_eq_none_iff]
      exact hrest
    exact h _ (relaySwitch_eq_some_iff.mpr
      ⟨args, n, rest, word, after, hargs, hnumber, nextWord_eq_some_iff.mp hword, rfl⟩)
  · intro h switch hswitch
    obtain ⟨args, n, rest, word, after, hargs, hnumber, hword, _⟩ :=
      relaySwitch_eq_some_iff.mp hswitch
    have hblank := nextWord_eq_none_iff.mpr (h args n rest hargs hnumber)
    rw [nextWord_eq_some_iff.mpr hword] at hblank
    cases hblank

/-! ## Agreement -/

/-- The plug that is switched and the relay that is set are the same, and get the
same state; or there is neither. -/
def Agrees (line : Bytes) : Prop :=
  ∀ (r : UInt8) (state : Bool),
    (∃ value, (parseCommand line).1 = some ⟨r, value⟩ ∧ (value ≠ 0 ↔ state = true)) ↔
      ∃ i : Fin 4, r.toNat = i + 1 ∧ relaySet line = some (i, state)

/-- `RELAY`, a blank, a relay number and a state; what follows the digits of the
number begins with an OFF text of the server's exactly when the state is off. -/
def Obeyed (line : Bytes) : Prop :=
  ∃ args, ∃ i : Fin 4, ∃ stateText state rest word after,
    FirstWord line (ascii "RELAY") ((' ' : Byte) :: args) ∧
    NumberAndText args (i + 1) stateText ∧ readState stateText = some state ∧
    Reads 32 args (i + 1) rest ∧ FirstWord rest word after ∧
    (word ∈ offTexts ↔ state = false)

/-- No `RELAY` with a number below `2 ^ 32` and a further word, and no bare relay
number with a value. -/
def Ignored (line : Bytes) : Prop :=
  (∀ args n rest, FirstWord line (ascii "RELAY") args → Reads 32 args n rest → Blank rest) ∧
    ∀ i active, ¬SetsByNumber line i active

theorem not_setsByNumber {line args : Bytes} {i : Fin 4} {active : Bool}
    (h : FirstWord line (ascii "RELAY") args) : ¬SetsByNumber line i active := by
  rintro ⟨valueText, value, rest, hnumber, _⟩
  obtain ⟨gap, b, rest', hgap, hb, hline⟩ := hnumber.starts
  obtain ⟨gap', hgap', _, _, hline'⟩ := h
  have hskip : skipSpaces line = b :: rest' := by
    rw [hline, skipSpaces_blank _ hgap, skipSpaces_cons _ (isSpace_of_numeral hb)]
  have hskip' : skipSpaces line = ascii "RELAY" ++ args := by
    rw [hline', skipSpaces_blank _ hgap']
    exact skipSpaces_cons _ (by decide)
  rw [hskip'] at hskip
  have hR : b = 'R' := (List.cons.inj hskip).1.symm
  rw [hR] at hb
  revert hb
  decide

/-- A line that names a relay for the firmware switches a plug, of the same number. -/
theorem relaySwitch_of_name {line args stateText : Bytes} {i : Fin 4}
    (hargs : FirstWord line (ascii "RELAY") ((' ' : Byte) :: args))
    (hnumber : NumberAndText args (i + 1) stateText) :
    ∃ rest word after, Reads 32 args (i + 1) rest ∧ FirstWord rest word after ∧
      relaySwitch line =
        some ⟨(i + 1 : Nat).toUInt8, if word ∈ offTexts then 0 else 1⟩ := by
  obtain ⟨junk, tail, hreads, _, htail, htext⟩ := hnumber
  have hrest : ¬Blank (junk ++ (' ' : Byte) :: tail) := by
    intro hblank
    rw [blank_append, blank_cons] at hblank
    exact htext (htail ▸ trim_eq_nil hblank.2.2)
  obtain ⟨⟨word, after⟩, hword⟩ : ∃ p, nextWord (junk ++ (' ' : Byte) :: tail) = some p := by
    rw [← Option.ne_none_iff_exists', ne_eq, nextWord_eq_none_iff]
    exact hrest
  have hword := nextWord_eq_some_iff.mp hword
  refine ⟨_, word, after, hreads, hword, relaySwitch_eq_some_iff.mpr
    ⟨_, _, _, word, after, hargs, hreads.space (by decide), hword, rfl⟩⟩

/-- Of one line, the two sides see the same number. -/
theorem reads_unique {args rest rest' : Bytes} {n n' : Nat} (h : Reads 32 args n rest)
    (h' : Reads 32 args n' rest') : n = n' ∧ rest = rest' := by
  rw [← extractUnsigned_eq_some_iff] at h h'
  rw [h] at h'
  cases h'
  exact ⟨rfl, rfl⟩

theorem relaySet_of_ignored {line : Bytes} (h : Ignored line) : relaySet line = none := by
  rw [Option.eq_none_iff_forall_ne_some]
  rintro ⟨i, active⟩ hset
  rcases relaySet_eq_some_iff.mp hset with ⟨args, stateText, hargs, hnumber, _⟩ | hnumber
  · obtain ⟨_, _, _, _, _, hswitch⟩ := relaySwitch_of_name hargs hnumber
    rw [relaySwitch_eq_none_iff.mpr h.1] at hswitch
    cases hswitch
  · exact h.2 i active hnumber

theorem relayNumber_toNat (i : Fin 4) : (i + 1 : Nat).toUInt8.toNat = i + 1 := by
  rw [Nat.toUInt8_eq, UInt8.toNat_ofNat', Nat.mod_eq_of_lt (by omega)]

/-- The two sides do the same with exactly the lines that both obey, with the same
reading of the state, and the lines that both ignore. -/
theorem relay_agreement_iff (line : Bytes) : Agrees line ↔ Obeyed line ∨ Ignored line := by
  constructor
  · intro hagrees
    cases hswitch : relaySwitch line with
    | none =>
      refine Or.inr ⟨relaySwitch_eq_none_iff.mp hswitch, fun i active hnumber => ?_⟩
      have hset := relaySet_eq_some_iff.mpr (Or.inr hnumber)
      obtain ⟨value, hcall, _⟩ := (hagrees (i + 1 : Nat).toUInt8 active).mpr
        ⟨i, relayNumber_toNat i, hset⟩
      rw [parseCommand, hswitch] at hcall
      cases hcall
    | some switch =>
      obtain ⟨args, n, rest, word, after, hargs, _⟩ := relaySwitch_eq_some_iff.mp hswitch
      obtain ⟨i, _, hset⟩ := (hagrees switch.relayIndex (decide (switch.value ≠ 0))).mp
        ⟨switch.value, hswitch, by simp⟩
      rcases relaySet_eq_some_iff.mp hset with ⟨args, stateText, hargs, hnumber, hstate⟩ | hnumber
      · obtain ⟨rest, word, after, hreads, hword, hsame⟩ := relaySwitch_of_name hargs hnumber
        rw [hsame] at hswitch
        cases hswitch
        refine Or.inl ⟨args, i, stateText, _, rest, word, after, hargs, hnumber, hstate, hreads,
          hword, ?_⟩
        by_cases hoff : word ∈ offTexts <;> simp [hoff]
      · exact absurd hnumber (not_setsByNumber hargs)
  · rintro (⟨args, i, stateText, state, rest, word, after, hargs, hnumber, hstate, hreads, hword,
      hoff⟩ | hignored)
    · obtain ⟨rest', word', after', hreads', hword', hswitch⟩ := relaySwitch_of_name hargs hnumber
      obtain ⟨_, rfl⟩ := reads_unique hreads hreads'
      rw [← nextWord_eq_some_iff] at hword hword'
      rw [hword] at hword'
      cases hword'
      have hset : relaySet line = some (i, state) :=
        relaySet_eq_some_iff.mpr (Or.inl ⟨args, stateText, hargs, hnumber, hstate⟩)
      have hvalue : ((if word ∈ offTexts then 0 else 1 : Int16) ≠ 0) ↔ state = true := by
        rw [← Bool.not_eq_false, ← hoff]
        by_cases hmem : word ∈ offTexts <;> simp [hmem]
      intro r state'
      rw [parseCommand, hswitch, hset]
      constructor
      · rintro ⟨value, hcall, hstate'⟩
        cases hcall
        refine ⟨i, relayNumber_toNat i, ?_⟩
        rw [Bool.eq_iff_iff.mpr (hvalue.symm.trans hstate')]
      · rintro ⟨j, hr, hpair⟩
        cases hpair
        have hr' : r = (i + 1 : Nat).toUInt8 := UInt8.toNat_inj.mp (hr.trans (relayNumber_toNat i).symm)
        exact ⟨_, by rw [hr'], hvalue⟩
    · intro r state
      rw [parseCommand, relaySwitch_eq_none_iff.mpr hignored.1, relaySet_of_ignored hignored]
      simp

/-- `off` in small letters: the plug is switched on, the relay is set off. -/
theorem relay_off_turns_plug_on :
    ¬Agrees (ascii "RELAY 1 off") ∧
      (parseCommand (ascii "RELAY 1 off")).1 = some ⟨1, 1⟩ ∧
      relaySet (ascii "RELAY 1 off") = some (0, false) := by
  have hswitch : (parseCommand (ascii "RELAY 1 off")).1 = some ⟨1, 1⟩ := by decide
  have hset : relaySet (ascii "RELAY 1 off") = some (0, false) := by decide
  refine ⟨fun hagrees => ?_, hswitch, hset⟩
  obtain ⟨i, _, hon⟩ := (hagrees 1 true).mp ⟨1, hswitch, by simp⟩
  rw [hset] at hon
  cases hon

end InverterMonitor.Wire
