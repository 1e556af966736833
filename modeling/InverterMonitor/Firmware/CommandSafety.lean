import InverterMonitor.Firmware.Device

/-!
# What a command line cannot do

Two properties of `handleCommand` over all lines and all devices.  Proved here:

* `handleCommand_inBounds_iff`: every index and every copied string fits, unless
  the line addresses relay 0;
* `rejected_changes_nothing`: after a validation error the device is as before
  and no register was written.
-/

namespace InverterMonitor.Firmware
open Text Cxx Runs

/-! ## Bounds -/

/-- An index is below the length of its array, and a string fits its buffer with the
terminator. -/
def Action.InBounds : Action → Prop
  | .index array i => i < array.length
  | .copy dest text => text.length < dest.size
  | _ => True

theorem TableReads.inBounds {looked : List Action} (h : TableReads looked) :
    ∀ action ∈ looked, action.InBounds := by
  intro action haction
  obtain ⟨array, i, rfl, _, hi⟩ := h action haction
  exact hi

theorem savedOr_inBounds (answers : Answers) (saved failed : Bytes) :
    ∀ action ∈ savedOr answers saved failed, action.InBounds := by
  intro action haction
  unfold savedOr at haction
  split at haction
  · rw [List.mem_singleton.mp haction]
    trivial
  · rw [List.mem_singleton.mp haction]
    trivial

/-- The index of the address of a relay. -/
theorem relayIndex_lt {address : UInt16} (h : address.toNat ≤ relayPinCount)
    (hne : address ≠ 0) : (address - 1).toUInt8.toNat < relayPinCount := by
  have hone : (1 : UInt16).toNat = 1 := rfl
  have hpos : address.toNat ≠ 0 := fun hzero => hne (UInt16.toNat_inj.mp hzero)
  unfold relayPinCount at h ⊢
  rw [UInt16.toNat_toUInt8, UInt16.toNat_sub, hone]
  omega

/-- What an accepted command indexes and copies, unless it is for relay 0. -/
theorem Command.actions_inBounds {answers : Answers} {d : Device} {command : Command}
    (h : command.Accepted)
    (hrelay : ∀ address value, command = .relayValue address value →
      (address - 1).toUInt8.toNat < relayPinCount) :
    ∀ action ∈ command.actions answers d, action.InBounds := by
  have hindex (relayIndex : Fin 4) : (relayIndex : Nat) < relayPinCount := relayIndex.isLt
  cases command with
  | wifi newSsid newPass =>
    have hssid : (cString newSsid).length < StringBuffer.wifiSSID.size :=
      Nat.lt_succ_of_le ((cString_length newSsid).trans h.1)
    have hpass : (cString newPass).length < StringBuffer.wifiPassword.size :=
      Nat.lt_succ_of_le ((cString_length newPass).trans h.2)
    cases hcommit : answers.committed <;>
      simpa [Command.actions, hcommit, Action.InBounds] using And.intro hssid hpass
  | host newHost newPort rawPort =>
    obtain ⟨_, hhost, hport, _⟩ := h
    have hhost' : (cString newHost).length < StringBuffer.monitorHost.size :=
      Nat.lt_succ_of_le ((cString_length newHost).trans hhost)
    have hport' : (cString newPort).length < StringBuffer.monitorPortString.size :=
      Nat.lt_succ_of_le ((cString_length newPort).trans hport)
    cases hcommit : answers.committed <;>
      simpa [Command.actions, hcommit, Action.InBounds] using And.intro hhost' hport'
  | sim | ctrlScanMs | monScanMs | regSpacingMs => exact savedOr_inBounds answers _ _
  | relay relayIndex active =>
    have hpins : (relayIndex : Nat) < DeviceArray.relayPins.length := hindex relayIndex
    have hstates : (relayIndex : Nat) < DeviceArray.relayStates.length := hindex relayIndex
    simpa [Command.actions, Action.InBounds] using And.intro hpins hstates
  | clearIp relayIndex =>
    simp only [Command.actions, List.mem_cons, forall_eq_or_imp]
    exact ⟨hindex relayIndex, savedOr_inBounds answers _ _⟩
  | setIp relayIndex ip =>
    simp only [Command.actions, List.cons_append, List.nil_append, List.mem_cons,
      forall_eq_or_imp]
    exact ⟨Nat.lt_succ_of_le ip.spec.2, hindex relayIndex, savedOr_inBounds answers _ _⟩
  | read reg =>
    cases hsimulated : d.board.memory.simulationMode <;> cases hresult : answers.readResult <;>
      simp [Command.actions, hsimulated, hresult, Action.InBounds]
  | otaUrl url =>
    cases hresult : answers.updateResult <;>
      simp [Command.actions, hresult, Action.InBounds]
  | relayValue address value =>
    have hlt := hrelay address value rfl
    have hset : setRelayState (address - 1).toUInt8 (value ≠ 0) =
        some (⟨(address - 1).toUInt8.toNat, hlt⟩, decide (value ≠ 0)) := dif_pos hlt
    simp only [Command.actions, hset, List.cons_append, List.nil_append, List.mem_cons,
      List.not_mem_nil, or_false, forall_eq_or_imp, forall_eq]
    exact ⟨hlt, hlt, hlt, trivial⟩
  | write reg value =>
    cases hwritten : answers.written <;> simp [Command.actions, hwritten, Action.InBounds]
  | empty =>
    intro action haction
    cases haction

/-- The number 0, a blank and a 16-bit number. -/
def AddressesRelayZero (line : Bytes) : Prop :=
  ∃ valueText value rest, NumberAndText line 0 valueText ∧ Reads 32 valueText value rest ∧
    value ≤ 0xFFFF

theorem addressesRelayZero_iff {rawLine : Bytes} :
    AddressesRelayZero rawLine ↔
      ∃ value, parseCommandLine rawLine = .ok (.relayValue 0 value) := by
  constructor
  · rintro ⟨valueText, value, rest, hnumber, hvalue, hrange⟩
    obtain ⟨hline, hnumber'⟩ := parseCommandLine_number (by decide) hnumber
    have hword : value.toUInt16.toNat = value := by
      rw [Nat.toUInt16_eq, UInt16.toNat_ofNat', Nat.mod_eq_of_lt (by omega)]
    refine ⟨value.toUInt16, ?_⟩
    rw [hline]
    exact parseWrite_relayValue.mpr ⟨Nat.zero_le _, valueText, rest, hnumber', by rwa [hword]⟩
  · rintro ⟨value, hparse⟩
    have hrange := value.toNat_lt
    obtain ⟨valueText, rest, hnumber, hvalue⟩ := (parseCommandLine_relayValue.mp hparse).2
    exact ⟨valueText, value.toNat, rest, hnumber, hvalue, by omega⟩

/-- All that a line makes the handler index and copy is in bounds exactly if the line does
not address relay 0. -/
theorem handleCommand_inBounds_iff (rawLine : Bytes) :
    (∀ answers (d : Device), ∀ action ∈ (d.handleCommand answers rawLine).log,
      action.InBounds) ↔ ¬AddressesRelayZero rawLine := by
  rw [addressesRelayZero_iff]
  constructor
  · rintro h ⟨value, hparse⟩
    have hlog := h { committed := true, written := true, now := 0 }
      { board := Board.boot fun _ => 0xFF }
    have hcarries := handleCommand_carries { committed := true, written := true, now := 0 }
      { board := Board.boot fun _ => 0xFF } rawLine
    rw [hparse] at hcarries
    generalize Device.handleCommand _ _ rawLine = x at hlog hcarries
    cases hcarries with
    | performed command hlooked =>
      have hindex : 255 < relayPinCount :=
        hlog (.index .relayStates 255) (by simp [Command.actions])
      exact absurd hindex (by decide)
  · intro h answers d action haction
    have hcarries := handleCommand_carries answers d rawLine
    have haccepts := parseCommandLine_accepts rawLine
    generalize d.handleCommand answers rawLine = x at haction hcarries
    generalize hparsed : parseCommandLine rawLine = parsed at h haccepts hcarries
    cases hcarries with
    | rejected message hlooked =>
      rcases List.mem_append.mp haction with hmem | hmem
      · exact hlooked.inBounds action hmem
      · rw [List.mem_singleton.mp hmem]
        trivial
    | performed command hlooked =>
      rcases List.mem_append.mp haction with hmem | hmem
      · exact hlooked.inBounds action hmem
      · refine Command.actions_inBounds (haccepts command rfl) ?_ action hmem
        rintro address value rfl
        refine relayIndex_lt (parseCommandLine_relayValue.mp hparsed).1 ?_
        rintro rfl
        exact h ⟨value, rfl⟩

/-- The index of relay 0 is that of relay 256. -/
theorem relayZero_outOfBounds :
    ¬∀ rawLine answers (d : Device), ∀ action ∈ (d.handleCommand answers rawLine).log,
      action.InBounds := by
  intro h
  have hindex := h (ascii "0 1") { committed := true, written := true, now := 0 }
    { board := Board.boot fun _ => 0xFF } (.index .relayStates 255) (List.mem_of_mem_head? rfl)
  exact absurd (show 255 < relayPinCount from hindex) (by decide)

/-! ## Rejections -/

/-- How the validation errors begin; the last is that of a read-only register. -/
def validationErrors : List Bytes :=
  [tcpCmd "invalid ", tcpCmd "WIFI SSID or password too long",
    tcpCmd "monitor host or port too long", tcpCmd "unknown register ", tcpCmd "register "]

def IsValidationError (message : Bytes) : Prop := ∃ start ∈ validationErrors, start <+: message

instance (message : Bytes) : Decidable (IsValidationError message) :=
  inferInstanceAs (Decidable (∃ start ∈ validationErrors, start <+: message))

/-- A text that differs from every validation error where both have a byte. -/
def StartsOther (start : Bytes) : Prop :=
  ∀ error ∈ validationErrors, ¬error <+: start ∧ ¬start <+: error

instance (start : Bytes) : Decidable (StartsOther start) :=
  inferInstanceAs (Decidable (∀ error ∈ validationErrors, ¬error <+: start ∧ ¬start <+: error))

theorem StartsOther.not_isValidationError {start : Bytes} (h : StartsOther start) (rest : Bytes) :
    ¬IsValidationError (start ++ rest) := by
  rintro ⟨error, hmem, hprefix⟩
  obtain ⟨hlonger, hshorter⟩ := h error hmem
  rcases List.prefix_or_prefix_of_prefix hprefix (List.prefix_append start rest) with hp | hp
  · exact hlonger hp
  · exact hshorter hp

theorem IsValidationError.of_printed {message : Bytes} (h : IsValidationError (printed message)) :
    IsValidationError message := by
  obtain ⟨start, hmem, hprefix⟩ := h
  exact ⟨start, hmem, hprefix.trans (List.take_prefix _ _)⟩

/-- Not a validation error. -/
def Action.Accepting : Action → Prop
  | .print message => ¬IsValidationError message
  | _ => True

theorem accepting_print {start : Bytes} (h : StartsOther start) (rest : Bytes) :
    (Action.print (start ++ rest)).Accepting := h.not_isValidationError rest

theorem accepting_printed {start : Bytes} (h : StartsOther start) (rest : Bytes) :
    (Action.print (printed (start ++ rest))).Accepting :=
  fun herror => h.not_isValidationError rest herror.of_printed

theorem savedOr_accepting (answers : Answers) {saved failed : Bytes}
    (hsaved : (Action.print saved).Accepting) (hfailed : (Action.print failed).Accepting) :
    ∀ action ∈ savedOr answers saved failed, action.Accepting := by
  intro action haction
  unfold savedOr at haction
  split at haction
  · rw [List.mem_singleton.mp haction]
    exact hsaved
  · rw [List.mem_singleton.mp haction]
    exact hfailed

theorem accepting_text {text : Bytes} (h : StartsOther text) : (Action.print text).Accepting := by
  have hprint := accepting_print h []
  rwa [List.append_nil] at hprint

theorem TableReads.accepting {looked : List Action} (h : TableReads looked) :
    ∀ action ∈ looked, action.Accepting := by
  intro action haction
  obtain ⟨array, i, rfl, _⟩ := h action haction
  trivial

/-- A command that is carried out answers with no validation error. -/
theorem Command.actions_accepting (answers : Answers) (d : Device) (command : Command) :
    ∀ action ∈ command.actions answers d, action.Accepting := by
  cases command with
  | empty =>
    intro action haction
    cases haction
  | wifi newSsid newPass =>
    simp only [Command.actions, List.cons_append, List.nil_append, List.mem_cons,
      forall_eq_or_imp]
    refine ⟨trivial, trivial, ?_⟩
    cases answers.committed with
    | true =>
      simp only [↓reduceIte, List.mem_cons, List.not_mem_nil, or_false, forall_eq_or_imp,
        forall_eq]
      exact ⟨accepting_text (by decide), trivial⟩
    | false =>
      simp only [Bool.false_eq_true, ↓reduceIte, List.mem_singleton, forall_eq]
      exact accepting_text (by decide)
  | host newHost newPort rawPort =>
    simp only [Command.actions, List.cons_append, List.nil_append, List.mem_cons,
      forall_eq_or_imp]
    refine ⟨trivial, trivial, ?_⟩
    cases answers.committed with
    | true =>
      simp only [↓reduceIte, List.mem_cons, List.not_mem_nil, or_false, forall_eq_or_imp,
        forall_eq, List.append_assoc]
      exact ⟨accepting_printed (by decide) _, trivial⟩
    | false =>
      simp only [Bool.false_eq_true, ↓reduceIte, List.mem_singleton, forall_eq]
      exact accepting_text (by decide)
  | sim enabled =>
    exact savedOr_accepting answers (accepting_print (by decide) _) (accepting_text (by decide))
  | ctrlScanMs rawValue =>
    exact savedOr_accepting answers (accepting_print (by decide) _) (accepting_text (by decide))
  | monScanMs rawValue =>
    exact savedOr_accepting answers (accepting_print (by decide) _) (accepting_text (by decide))
  | regSpacingMs rawValue =>
    exact savedOr_accepting answers (accepting_print (by decide) _) (accepting_text (by decide))
  | relay relayIndex active =>
    simp only [Command.actions, List.mem_cons, List.not_mem_nil, or_false, forall_eq_or_imp,
      forall_eq, List.append_assoc]
    exact ⟨trivial, trivial, accepting_print (by decide) _⟩
  | clearIp relayIndex =>
    simp only [Command.actions, List.mem_cons, forall_eq_or_imp, List.append_assoc]
    exact ⟨trivial, savedOr_accepting answers (accepting_print (by decide) _)
      (accepting_text (by decide))⟩
  | setIp relayIndex ip =>
    simp only [Command.actions, List.cons_append, List.nil_append, List.mem_cons,
      forall_eq_or_imp, List.append_assoc]
    exact ⟨trivial, trivial, savedOr_accepting answers (accepting_print (by decide) _)
      (accepting_text (by decide))⟩
  | read reg =>
    cases hsimulated : d.board.memory.simulationMode <;> cases hresult : answers.readResult <;>
      simp [Command.actions, hsimulated, hresult, Action.Accepting]
  | otaUrl url =>
    simp only [Command.actions, List.mem_cons, List.not_mem_nil, or_false, forall_eq_or_imp,
      forall_eq]
    refine ⟨accepting_printed (by decide) _, trivial, ?_⟩
    cases answers.updateResult with
    | failed error => exact accepting_printed (by decide) _
    | noUpdates => exact accepting_text (by decide)
    | ok => exact accepting_text (by decide)
  | relayValue address value =>
    intro action haction
    simp only [Command.actions, List.append_assoc] at haction
    rcases List.mem_append.mp haction with hset | hprint
    · split at hset
      · simp only [List.mem_cons, List.not_mem_nil, or_false] at hset
        rcases hset with rfl | rfl <;> trivial
      · cases hset
    · simp only [List.mem_cons, List.not_mem_nil, or_false] at hprint
      rcases hprint with rfl | rfl
      · trivial
      · exact accepting_print (by decide) _
  | write reg value =>
    simp only [Command.actions, List.mem_cons, List.not_mem_nil, or_false, forall_eq_or_imp,
      forall_eq, List.append_assoc]
    refine ⟨trivial, ?_⟩
    cases answers.written with
    | true => exact accepting_print (by decide) _
    | false => exact accepting_print (by decide) _

/-- A result that is no success is a validation error. -/
def Rejects {α : Type} (x : Except Bytes α) : Prop :=
  ∀ message, x = .error message → IsValidationError message

theorem rejects_ok {α : Type} (a : α) : Rejects (.ok a : Except Bytes α) := nofun

theorem rejects_error {α : Type} {message : Bytes} (h : IsValidationError message) :
    Rejects (.error message : Except Bytes α) := by
  rintro _ ⟨⟩
  exact h

theorem Rejects.bind {α β : Type} {x : Except Bytes α} {f : α → Except Bytes β}
    (hx : Rejects x) (hf : ∀ a, Rejects (f a)) : Rejects (x >>= f) := by
  cases x with
  | error message =>
    rintro _ ⟨⟩
    exact hx message rfl
  | ok a => exact hf a

theorem twoArguments_rejects {message : String} (h : IsValidationError (tcpCmd message))
    (remainder : Bytes) : Rejects (twoArguments message remainder) := by
  unfold twoArguments
  split
  · exact rejects_error h
  · split
    · exact rejects_error h
    · exact rejects_ok _

theorem parseInterval_rejects {name : String} (set : UInt32 → Command)
    (hformat : IsValidationError
      (tcpCmd ("invalid " ++ name ++ " format, expected '" ++ name ++ " [value]' ")))
    (hvalue : IsValidationError (tcpCmd ("invalid " ++ name ++ " value"))) (remainder : Bytes) :
    Rejects (parseInterval name set remainder) := by
  unfold parseInterval
  simp only
  split
  · exact rejects_error hformat
  · split
    · exact rejects_error hvalue
    · split
      · exact rejects_error hvalue
      · exact rejects_ok _

theorem parseRelayNumber_rejects (relayText : Bytes) : Rejects (parseRelayNumber relayText) := by
  unfold parseRelayNumber
  split
  · exact rejects_error (by decide)
  · split
    · exact rejects_ok _
    · exact rejects_error (by decide)

theorem parseAddress_rejects (addrText : Bytes) : Rejects (parseAddress addrText) := by
  unfold parseAddress
  split
  · exact rejects_error (by decide)
  · split
    · exact rejects_error (by decide)
    · exact rejects_ok _

theorem unknownRegister_isValidationError (address : UInt16) :
    IsValidationError (unknownRegister address) :=
  ⟨tcpCmd "unknown register ", by decide, List.prefix_append _ _⟩

theorem namedForms_reject {name : Bytes} {parse : Bytes → Except Bytes Command}
    (h : (name, parse) ∈ namedForms) (remainder : Bytes) : Rejects (parse remainder) := by
  simp only [namedForms, List.mem_cons, Prod.mk.injEq, List.not_mem_nil, or_false] at h
  rcases h with ⟨rfl, rfl⟩ | ⟨rfl, rfl⟩ | ⟨rfl, rfl⟩ | ⟨rfl, rfl⟩ | ⟨rfl, rfl⟩ | ⟨rfl, rfl⟩ |
    ⟨rfl, rfl⟩ | ⟨rfl, rfl⟩ | ⟨rfl, rfl⟩ | ⟨rfl, rfl⟩
  · refine (twoArguments_rejects (by decide) remainder).bind fun args => ?_
    simp only
    split
    · exact rejects_error (by decide)
    · exact rejects_ok _
  · refine (twoArguments_rejects (by decide) remainder).bind fun args => ?_
    simp only
    split
    · exact rejects_error (by decide)
    · split
      · exact rejects_error (by decide)
      · split
        · exact rejects_error (by decide)
        · exact rejects_ok _
  · unfold parseSim
    simp only
    split
    · exact rejects_error (by decide)
    · split
      · exact rejects_ok _
      · exact rejects_error (by decide)
  · exact parseInterval_rejects _ (by decide) (by decide) remainder
  · exact parseInterval_rejects _ (by decide) (by decide) remainder
  · exact parseInterval_rejects _ (by decide) (by decide) remainder
  · refine (twoArguments_rejects (by decide) remainder).bind fun args => ?_
    refine (parseRelayNumber_rejects args.1).bind fun relayIndex => ?_
    split
    · exact rejects_ok _
    · exact rejects_error (by decide)
  · unfold parseSetIp
    simp only
    split
    · exact rejects_error (by decide)
    · refine (parseRelayNumber_rejects _).bind fun relayIndex => ?_
      split
      · exact rejects_ok _
      · split
        · exact rejects_ok _
        · exact rejects_error (by decide)
  · unfold parseRead
    simp only
    split
    · exact rejects_error (by decide)
    · refine (parseAddress_rejects _).bind fun address => ?_
      split
      · exact rejects_ok _
      · exact rejects_error (unknownRegister_isValidationError address)
  · unfold parseOtaUrl
    split
    · exact rejects_error (by decide)
    · exact rejects_ok _

theorem parseWrite_rejects (line : Bytes) : Rejects (parseWrite line) := by
  refine (twoArguments_rejects (by decide) line).bind fun args => ?_
  refine (parseAddress_rejects args.1).bind fun address => ?_
  split
  · exact rejects_error (by decide)
  · split
    · exact rejects_error (by decide)
    · split
      · exact rejects_ok _
      · split
        · exact rejects_error (unknownRegister_isValidationError address)
        · split
          · refine rejects_error ⟨tcpCmd "register ", by decide, ?_⟩
            rw [List.append_assoc]
            exact List.prefix_append _ _
          · exact rejects_ok _

theorem parseCommandLine_rejects (rawLine : Bytes) : Rejects (parseCommandLine rawLine) := by
  unfold parseCommandLine
  simp only
  split
  · exact rejects_ok _
  · rcases parseNamed_cases (trim rawLine) namedForms with
      ⟨name, parse, remainder, hmem, _, hparse⟩ | hwrite
    · rw [hparse]
      exact namedForms_reject hmem remainder
    · rw [hwrite]
      exact parseWrite_rejects _

/-- A line is answered with a validation error exactly if it is not read as a command. -/
theorem validationError_iff (answers : Answers) (d : Device) (rawLine : Bytes) :
    (∃ message, .print message ∈ (d.handleCommand answers rawLine).log ∧
      IsValidationError message) ↔ ∃ message, parseCommandLine rawLine = .error message := by
  have hcarries := handleCommand_carries answers d rawLine
  have hrejects := parseCommandLine_rejects rawLine
  generalize parseCommandLine rawLine = parsed at hrejects hcarries ⊢
  generalize d.handleCommand answers rawLine = x at hcarries ⊢
  cases hcarries with
  | rejected message hlooked =>
    constructor
    · intro _
      exact ⟨message, rfl⟩
    · intro _
      exact ⟨message, by simp, hrejects message rfl⟩
  | performed command hlooked =>
    constructor
    · rintro ⟨message, hmem, herror⟩
      exfalso
      rcases List.mem_append.mp hmem with hmem | hmem
      · exact hlooked.accepting _ hmem herror
      · exact command.actions_accepting answers d _ hmem herror
    · rintro ⟨message, ⟨⟩⟩

/-- After a validation error the device is as before, and no register was written. -/
theorem rejected_changes_nothing (answers : Answers) (d : Device) (rawLine message : Bytes)
    (hprinted : .print message ∈ (d.handleCommand answers rawLine).log)
    (herror : IsValidationError message) :
    (d.handleCommand answers rawLine).state = d ∧
      ∀ address value, .writeSingleRegister address value ∉
        (d.handleCommand answers rawLine).log := by
  obtain ⟨_, hrejected⟩ :=
    (validationError_iff answers d rawLine).mp ⟨message, hprinted, herror⟩
  have hcarries := handleCommand_carries answers d rawLine
  rw [hrejected] at hcarries
  generalize d.handleCommand answers rawLine = x at hcarries ⊢
  cases hcarries with
  | rejected message' hlooked =>
    refine ⟨rfl, fun address value hmem => ?_⟩
    rcases List.mem_append.mp hmem with hmem | hmem
    · obtain ⟨_, _, heq, _⟩ := hlooked _ hmem
      cases heq
    · cases List.mem_singleton.mp hmem

/-- Register 15205 is read-only. -/
theorem rejected_changes_nothing_readOnly :
    (Device.handleCommand { board := Board.boot fun _ => 0xFF }
      { committed := true, written := true, now := 0 } (ascii "15205 1")).state =
        { board := Board.boot fun _ => 0xFF } :=
  (rejected_changes_nothing { committed := true, written := true, now := 0 }
    { board := Board.boot fun _ => 0xFF } (ascii "15205 1")
    (tcpCmd "register 15205 is read-only") (List.mem_of_mem_getLast? rfl) (by decide)).1

end InverterMonitor.Firmware
