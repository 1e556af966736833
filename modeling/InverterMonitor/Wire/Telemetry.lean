import InverterMonitor.Server.Loop
import InverterMonitor.Firmware.Telemetry
import Mathlib.Tactic.FinCases

/-!
# From the device to the server

The server's tables after a stream of reports:

* `handleLine_registerLine`, `handleLine_relayLine`: one line sets what it reports;
* `telemetry_lossless`: for every stream and every way to cut it into chunks, the
  tables hold the last report of every register and relay, and nothing else has
  changed.
-/

namespace InverterMonitor.Wire
open Text Cxx Registers Monitor Firmware Runs

/-! ## One line -/

theorem extractUnsigned_space {bits : Nat} {b : Byte} (s : Bytes) (h : isSpace b = true) :
    extractUnsigned bits (b :: s) = extractUnsigned bits s := by
  have hskip : skipSpaces (b :: s) = skipSpaces s := by simp [skipSpaces, h]
  rw [extractUnsigned, hskip, ← extractUnsigned]

/-- A printed number before a blank is extracted. -/
theorem extractUnsigned_field {n : Nat} (s : Bytes) (hn : n < 2 ^ 64) :
    extractUnsigned 64 (decimal n ++ (' ' : Byte) :: s) = some (n, (' ' : Byte) :: s) :=
  extractUnsigned_decimal hn (by simp only [stops_cons]; decide)

theorem extractUnsigned_last {n : Nat} (hn : n < 2 ^ 64) :
    extractUnsigned 64 (decimal n) = some (n, []) := by
  have h := extractUnsigned_decimal hn (stops_nil isDigit)
  rwa [List.append_nil] at h

theorem updateAddressValue_field (address : UInt16) {rawValue : Nat} {text rest : Bytes}
    (h : extractUnsigned 64 text = some (rawValue, rest)) (t : Tables) :
    updateAddressValue (decimal address.toNat ++ (' ' : Byte) :: text) t =
      if 0xFFFF < rawValue then none else some (t.recordValue address (Int16.ofNat rawValue)) := by
  have haddress : address.toNat < 2 ^ 64 := Nat.lt_trans address.toNat_lt (by decide)
  have hrange : ¬ 0xFFFF < address.toNat := by
    have := address.toNat_lt
    omega
  have hrepr : address.toNat.toUInt16 = address := by simp
  simp only [updateAddressValue, extractUnsigned_field _ haddress, Option.bind_eq_bind,
    Option.bind_some, extractUnsigned_space _ (show isSpace ' ' = true by decide), h, hrange,
    false_or, hrepr]
  rfl

theorem not_relayLine {address : UInt16} (text : Bytes) (t : Tables) :
    updateRelayStateWithIp (decimal address.toNat ++ text) t = none := by
  obtain ⟨b, s, h⟩ := List.exists_cons_of_ne_nil (decimal_ne_nil address.toNat)
  have hb : b ≠ 'R' := ne_of_isDigit (decimal_digits address.toNat b (by simp [h])) (by decide)
  simp [h, updateRelayStateWithIp, hb]

theorem handleLine_registerLine (address value : UInt16) (t : Tables) :
    (handleLine (registerLine address value) t).2 = t.recordValue address value.toInt16 := by
  have hvalue : value.toNat < 2 ^ 64 := Nat.lt_trans value.toNat_lt (by decide)
  have hrange : ¬ 0xFFFF < value.toNat := by
    have := value.toNat_lt
    omega
  have hrepr : Int16.ofNat value.toNat = value.toInt16 := by
    apply Int16.toBitVec_inj.mp
    simp
  have hupdate := updateAddressValue_field address (extractUnsigned_last hvalue) t
  rw [if_neg hrange, hrepr] at hupdate
  rw [handleLine, registerLine, not_relayLine, hupdate]

/-- The number under which a relay is reported. -/
def relayIndex (i : Fin 4) : UInt8 := (i + 1 : Nat).toUInt8

def stateValue (state : Bool) : Int16 := if state then 1 else 0

theorem ipText_isWord (ip : Option IpAddress) : isWord (ipText ip) := by
  cases ip with
  | none =>
    change isWord (ascii "no_ip")
    decide
  | some ip => exact ip.isWord

theorem handleLine_relayLine (i : Fin 4) (state : Bool) (ip : Option IpAddress) (t : Tables) :
    (handleLine (relayLine i state ip) t).2 =
      (t.recordValue (relayIndex i).toUInt16 (stateValue state)).recordIp (relayIndex i)
        (ipText ip) := by
  have hnumber : (i + 1 : Nat) < 2 ^ 64 := by omega
  have hstate : (if state then 1 else 0 : Nat) < 2 ^ 64 := by cases state <;> decide
  have hword : nextWord ((' ' : Byte) :: ipText ip) = some (ipText ip, []) := by
    have h := nextWord_append (ipText_isWord ip) (stops_nil _)
    rw [List.append_nil] at h
    rw [nextWord_space _ (by decide), h]
  have hbit : (if state then 1 else 0 : Nat) ≤ 1 := by cases state <;> decide
  have hrange : ¬((i + 1 : Nat) = 0 ∨ 4 < (i + 1 : Nat) ∨ 1 < (if state then 1 else 0 : Nat)) := by
    omega
  have hvalue : Int16.ofNat (if state then 1 else 0) = stateValue state := by cases state <;> rfl
  have hupdate : updateRelayStateWithIp (relayLine i state ip) t =
      some ((t.recordValue (relayIndex i).toUInt16 (stateValue state)).recordIp (relayIndex i)
        (ipText ip)) := by
    simp only [updateRelayStateWithIp, relayLine, ne_eq, not_true_eq_false, ↓reduceIte,
      extractUnsigned_field _ hnumber, Option.bind_eq_bind, Option.bind_some,
      extractUnsigned_space _ (show isSpace ' ' = true by decide),
      extractUnsigned_field _ hstate, hword, hrange, hvalue]
    rfl
  simp [handleLine, hupdate]

/-! ## One emission -/

/-- The value that an emission reports for a register address. -/
def registerValue (k : UInt16) : Emission → Option Int16
  | .registerResult reg _ value => if reg.address = k then some value.toInt16 else none
  | .relaysState _ _ => none

theorem relay_lt {n : Nat} (h : 1 ≤ n ∧ n ≤ 4) : n - 1 < 4 := by
  omega

/-- The relay reported under a number. -/
def relayOf (n : Nat) : Option (Fin 4) :=
  if h : 1 ≤ n ∧ n ≤ 4 then some ⟨n - 1, relay_lt h⟩ else none

def relayState (k : UInt16) : Emission → Option Int16
  | .registerResult _ _ _ => none
  | .relaysState states _ => (relayOf k.toNat).map fun i => stateValue (states i)

def relayIp (k : UInt8) : Emission → Option Bytes
  | .registerResult _ _ _ => none
  | .relaysState _ ips => (relayOf k.toNat).map fun i => ipText (ips i)

/-- A relay's entry after a report of its IP text, if there was one. -/
def withIp (ip : Option Bytes) (metadata : RelayMetadata) : RelayMetadata :=
  { metadata with ipAddress := ip.getD metadata.ipAddress }

@[simp] theorem withIp_none : withIp none = id := rfl

theorem handleLines_register (reg : RegItem) (hreg : reg ∈ controlRegisters ++ monitorRegisters)
    (value : UInt16) (t : Tables) :
    handleLines (Emission.registerResult reg hreg value).lines t =
      t.recordValue reg.address value.toInt16 :=
  handleLine_registerLine reg.address value t

theorem handleLines_relays (states : Fin 4 → Bool) (ips : Fin 4 → Option IpAddress) (t : Tables) :
    handleLines (Emission.relaysState states ips).lines t =
      (List.finRange 4).foldl (fun t i =>
        (t.recordValue (relayIndex i).toUInt16 (stateValue (states i))).recordIp (relayIndex i)
          (ipText (ips i))) t := by
  simp only [handleLines, Emission.lines, List.foldl_map, handleLine_relayLine]

theorem relayOf_cases (n : Nat) :
    (∃ i : Fin 4, n = i + 1 ∧ relayOf n = some i) ∨
      ((∀ i : Fin 4, n ≠ i + 1) ∧ relayOf n = none) := by
  by_cases h : 1 ≤ n ∧ n ≤ 4
  · exact Or.inl ⟨⟨n - 1, by omega⟩, by simp; omega, dif_pos h⟩
  · refine Or.inr ⟨fun i hi => h ?_, dif_neg h⟩
    omega

theorem relayIndex_toNat (i : Fin 4) : (relayIndex i).toNat = i + 1 := by
  fin_cases i <;> rfl

/-- The relay numbers, as keys of the tables. -/
theorem relayIndex_eq_iff (i : Fin 4) (k : UInt8) : relayIndex i = k ↔ k.toNat = i + 1 := by
  rw [← UInt8.toNat_inj, relayIndex_toNat, eq_comm]

theorem relayAddress_eq_iff (i : Fin 4) (k : UInt16) :
    (relayIndex i).toUInt16 = k ↔ k.toNat = i + 1 := by
  rw [← UInt16.toNat_inj, UInt8.toNat_toUInt16, relayIndex_toNat, eq_comm]

theorem relays_lastValues (states : Fin 4 → Bool) (ips : Fin 4 → Option IpAddress) (t : Tables)
    (k : UInt16) :
    (handleLines (Emission.relaysState states ips).lines t).lastValues[k]? =
      (relayState k (.relaysState states ips)).or t.lastValues[k]? := by
  have hlist : List.finRange 4 = [0, 1, 2, 3] := rfl
  rw [handleLines_relays, hlist]
  simp only [List.foldl_cons, List.foldl_nil, Tables.recordIp_lastValues,
    Tables.recordValue_lastValues, relayAddress_eq_iff, relayState]
  rcases relayOf_cases k.toNat with ⟨i, hi, hrelay⟩ | ⟨hother, hrelay⟩
  · rw [hrelay, hi]
    fin_cases i <;> simp
  · have hfirst := hother 0
    have hsecond := hother 1
    have hthird := hother 2
    have hfourth := hother 3
    rw [hrelay, if_neg hfourth, if_neg hthird, if_neg hsecond, if_neg hfirst]
    rfl

theorem relays_relays (states : Fin 4 → Bool) (ips : Fin 4 → Option IpAddress) (t : Tables)
    (k : UInt8) :
    (handleLines (Emission.relaysState states ips).lines t).relays[k]? =
      t.relays[k]?.map (withIp (relayIp k (.relaysState states ips))) := by
  have hlist : List.finRange 4 = [0, 1, 2, 3] := rfl
  rw [handleLines_relays, hlist]
  simp only [List.foldl_cons, List.foldl_nil, Tables.recordIp_relays,
    Tables.recordValue_relays, relayIndex_eq_iff, relayIp]
  cases t.relays[k]? with
  | none => rfl
  | some metadata =>
    rcases relayOf_cases k.toNat with ⟨i, hi, hrelay⟩ | ⟨hother, hrelay⟩
    · rw [hrelay, hi]
      fin_cases i <;> simp [withIp]
    · have hfirst := hother 0
      have hsecond := hother 1
      have hthird := hother 2
      have hfourth := hother 3
      simp only [Option.map_some, hrelay, if_neg hfourth, if_neg hthird, if_neg hsecond,
        if_neg hfirst, Option.map_none, withIp, Option.getD_none]

/-- No register has a relay's number. -/
theorem relayOf_register {reg : RegItem} (h : reg ∈ controlRegisters ++ monitorRegisters) :
    relayOf reg.address.toNat = none := by
  have hall : ∀ reg ∈ controlRegisters ++ monitorRegisters, relayOf reg.address.toNat = none := by
    decide
  exact hall reg h

/-- The value an emission writes under a key. -/
def writes (k : UInt16) (e : Emission) : Option Int16 := (registerValue k e).or (relayState k e)

theorem handleLines_lastValues (e : Emission) (t : Tables) (k : UInt16) :
    (handleLines e.lines t).lastValues[k]? = (writes k e).or t.lastValues[k]? := by
  cases e with
  | registerResult reg hreg value =>
    rw [handleLines_register, Tables.recordValue_lastValues]
    simp only [writes, registerValue, relayState, Option.or_none]
    split <;> simp
  | relaysState states ips => exact relays_lastValues states ips t k

theorem handleLines_metadata (e : Emission) (t : Tables) (k : UInt8) :
    (handleLines e.lines t).relays[k]? =
      t.relays[k]?.map (withIp (relayIp k e)) := by
  cases e with
  | registerResult reg hreg value =>
    rw [handleLines_register, Tables.recordValue_relays]
    simp [relayIp]
  | relaysState states ips => exact relays_relays states ips t k

/-! ## The stream -/

/-- The bytes of a sequence of emissions. -/
def stream (emissions : List Emission) : Bytes := emissions.flatMap Emission.text

/-- A byte of a report's text: neither a line break nor a carriage return. -/
def isLineByte (b : Byte) : Bool := (32 : Byte) ≤ b

theorem isLineByte_of_isDigit {b : Byte} (h : isDigit b = true) : isLineByte b = true := by
  simp only [isDigit, isLineByte, Bool.and_eq_true, decide_eq_true_eq] at h ⊢
  exact UInt8.le_trans (by decide) h.1

theorem decimal_isLineByte (n : Nat) : ∀ b ∈ decimal n, isLineByte b = true :=
  fun b hb => isLineByte_of_isDigit (decimal_digits n b hb)

theorem ipText_isLineByte (ip : Option IpAddress) : ∀ b ∈ ipText ip, isLineByte b = true := by
  intro b hb
  cases ip with
  | none =>
    have hall : (ascii "no_ip").all isLineByte = true := by decide
    exact List.all_eq_true.mp hall b hb
  | some ip =>
    rcases ip.bytes b hb with hdigit | rfl
    · exact isLineByte_of_isDigit hdigit
    · decide

theorem emission_line_clean (e : Emission) :
    ∀ line ∈ e.lines, line ≠ [] ∧ ∀ b ∈ line, isLineByte b = true := by
  have hspace : isLineByte ' ' = true := by decide
  have hletter : isLineByte 'R' = true := by decide
  intro line hline
  cases e with
  | registerResult reg hreg value =>
    rw [List.mem_singleton.mp hline]
    refine ⟨by simp [registerLine], fun b hb => ?_⟩
    simp only [registerLine, List.mem_append, List.mem_cons] at hb
    rcases hb with hb | rfl | hb
    · exact decimal_isLineByte _ b hb
    · exact hspace
    · exact decimal_isLineByte _ b hb
  | relaysState states ips =>
    obtain ⟨i, _, rfl⟩ := List.mem_map.mp hline
    refine ⟨by simp [relayLine], fun b hb => ?_⟩
    simp only [relayLine, List.mem_append, List.mem_cons] at hb
    rcases hb with rfl | hb | rfl | hb | rfl | hb
    · exact hletter
    · exact decimal_isLineByte _ b hb
    · exact hspace
    · exact decimal_isLineByte _ b hb
    · exact hspace
    · exact ipText_isLineByte _ b hb

/-- The line splitter recovers the reported lines. -/
theorem splitLines_stream (emissions : List Emission) :
    splitLines (stream emissions) = (emissions.flatMap Emission.lines, []) := by
  have htext : stream emissions =
      (emissions.flatMap Emission.lines).flatMap fun line => line ++ [newline] := by
    rw [List.flatMap_assoc]
    exact List.flatMap_congr fun e _ => e.text_eq
  rw [htext]
  apply splitLines_flatMap
  intro line hline hmem
  obtain ⟨e, _, he⟩ := List.mem_flatMap.mp hline
  have hbyte := (emission_line_clean e line he).2 newline hmem
  revert hbyte
  decide

/-- No reported line is changed or left out before it is parsed. -/
theorem handedLines_stream (emissions : List Emission) :
    handedLines (emissions.flatMap Emission.lines) = emissions.flatMap Emission.lines := by
  have hstrip : ∀ line ∈ emissions.flatMap Emission.lines, stripCarriageReturn line = line := by
    intro line hline
    obtain ⟨e, _, he⟩ := List.mem_flatMap.mp hline
    apply if_neg
    intro hlast
    have hbyte := (emission_line_clean e line he).2 _ (List.mem_of_getLast? hlast)
    revert hbyte
    decide
  rw [handedLines, List.map_congr_left hstrip, List.map_id', List.filter_eq_self]
  intro line hline
  obtain ⟨e, _, he⟩ := List.mem_flatMap.mp hline
  exact decide_eq_true (emission_line_clean e line he).1

/-- The loop after the chunks that one client has sent. -/
def receiveAll (loop : Loop) (fd : Nat) (chunks : List Bytes) : Loop :=
  chunks.foldl (fun loop chunk => (loop.receive fd chunk).2) loop

/-- The tables after the chunks do not depend on the cuts. -/
theorem receiveAll_tables (loop : Loop) (fd : Nat) (chunks : List Bytes)
    (h : newline ∉ loop.pending fd) :
    (receiveAll loop fd chunks).tables =
      handleLines (handedLines (splitLines (loop.pending fd ++ chunks.flatten)).1) loop.tables := by
  induction chunks generalizing loop with
  | nil =>
    rw [List.flatten_nil, List.append_nil, splitLines_unfinished h]
    rfl
  | cons chunk chunks ih =>
    have hpending : (loop.receive fd chunk).2.pending fd =
        (splitLines (loop.pending fd ++ chunk)).2 := by
      rw [Loop.pending_receive, if_pos rfl]
    have hrest := ih (loop.receive fd chunk).2 (hpending ▸ newline_not_mem_rest _)
    rw [List.flatten_cons, ← List.append_assoc, splitLines_append, handedLines_append,
      handleLines_append, ← hpending]
    exact hrest

theorem handleLines_stream (emissions : List Emission) (t : Tables) :
    handleLines (emissions.flatMap Emission.lines) t =
      emissions.foldl (fun t e => handleLines e.lines t) t := by
  induction emissions generalizing t with
  | nil => rfl
  | cons e emissions ih => rw [List.flatMap_cons, handleLines_append, ih, List.foldl_cons]

/-- The loop's tables after a stream of reports on a connection. -/
theorem receiveAll_stream {loop : Loop} {fd : Nat} {chunks : List Bytes} {emissions : List Emission}
    (hfresh : loop.pending fd = []) (hchunks : chunks.flatten = stream emissions) :
    (receiveAll loop fd chunks).tables =
      emissions.foldl (fun t e => handleLines e.lines t) loop.tables := by
  rw [receiveAll_tables loop fd chunks (by simp [hfresh]), hfresh, hchunks, List.nil_append,
    splitLines_stream, handedLines_stream, handleLines_stream]

/-! ## The last reports -/

theorem stream_lastValues (emissions : List Emission) (t : Tables) (k : UInt16) :
    (emissions.foldl (fun t e => handleLines e.lines t) t).lastValues[k]? =
      (last (writes k) emissions).or t.lastValues[k]? := by
  induction emissions generalizing t with
  | nil => rfl
  | cons e emissions ih =>
    rw [List.foldl_cons, ih, handleLines_lastValues, last_cons, Option.or_assoc]

theorem stream_relays (emissions : List Emission) (t : Tables) (k : UInt8) :
    (emissions.foldl (fun t e => handleLines e.lines t) t).relays[k]? =
      t.relays[k]?.map (withIp (last (relayIp k) emissions)) := by
  induction emissions generalizing t with
  | nil => simp
  | cons e emissions ih =>
    rw [List.foldl_cons, ih, handleLines_metadata, last_cons, Option.map_map]
    congr 1
    funext metadata
    cases last (relayIp k) emissions <;> rfl

/-- Registers and relays are reported under different keys. -/
theorem reported_once (k : UInt16) :
    (∀ e, registerValue k e = none) ∨ (∀ e, relayState k e = none) := by
  cases hrelay : relayOf k.toNat with
  | none =>
    refine Or.inr fun e => ?_
    cases e with
    | registerResult reg hreg value => rfl
    | relaysState states ips => simp [relayState, hrelay]
  | some i =>
    refine Or.inl fun e => ?_
    cases e with
    | registerResult reg hreg value =>
      apply if_neg
      rintro rfl
      rw [relayOf_register hreg] at hrelay
      cases hrelay
    | relaysState states ips => rfl

theorem last_writes (k : UInt16) (emissions : List Emission) :
    last (writes k) emissions =
      (last (registerValue k) emissions).or (last (relayState k) emissions) := by
  rcases reported_once k with hnone | hnone
  · have hwrites : writes k = relayState k := by
      funext e
      rw [writes, hnone, Option.none_or]
    rw [hwrites, last_eq_none fun e _ => hnone e, Option.none_or]
  · have hwrites : writes k = registerValue k := by
      funext e
      rw [writes, hnone, Option.or_none]
    have hrelay : last (relayState k) emissions = none := last_eq_none fun e _ => hnone e
    rw [hwrites, hrelay, Option.or_none]

theorem relayIp_number {k : UInt8} {e : Emission} {ip : Bytes} (h : relayIp k e = some ip) :
    1 ≤ k ∧ k ≤ 4 := by
  cases e with
  | registerResult reg hreg value => cases h
  | relaysState states ips =>
    obtain ⟨i, hi, _⟩ := Option.map_eq_some_iff.mp h
    rcases relayOf_cases k.toNat with ⟨j, hj, _⟩ | ⟨_, hnone⟩
    · rw [UInt8.le_iff_toNat_le, UInt8.le_iff_toNat_le, hj]
      change 1 ≤ (j : Nat) + 1 ∧ (j : Nat) + 1 ≤ 4
      omega
    · rw [hnone] at hi
      cases hi

/-- For every sequence of reports on a connection, cut into chunks in any way,
the tables end with the last report of every register and relay, and keep what
was not reported. -/
theorem telemetry_lossless (emissions : List Emission) (loop : Loop) (fd : Nat)
    (hfresh : loop.pending fd = []) (chunks : List Bytes)
    (hchunks : chunks.flatten = stream emissions) :
    let t := loop.tables
    let final := (receiveAll (loop.accept fd) fd chunks).tables
    (∀ k value, last (registerValue k) emissions = some value →
      final.lastValues[k]? = some value) ∧
    (∀ k state, last (relayState k) emissions = some state →
      final.lastValues[k]? = some state) ∧
    (∀ k, last (registerValue k) emissions = none → last (relayState k) emissions = none →
      final.lastValues[k]? = t.lastValues[k]?) ∧
    (∀ k ip, last (relayIp k) emissions = some ip →
      (final.relays[k]?).map (·.ipAddress) = some ip) ∧
    (∀ k, final.relays[k]? = t.relays[k]?.map (withIp (last (relayIp k) emissions))) := by
  intro t final
  have hpending : (loop.accept fd).pending fd = [] := hfresh
  have hfinal : final = emissions.foldl (fun t e => handleLines e.lines t) t :=
    receiveAll_stream hpending hchunks
  have hvalues : ∀ k, final.lastValues[k]? = (last (writes k) emissions).or t.lastValues[k]? := by
    intro k
    rw [hfinal, stream_lastValues]
  have hrelays : ∀ k, final.relays[k]? = t.relays[k]?.map (withIp (last (relayIp k) emissions)) := by
    intro k
    rw [hfinal, stream_relays]
  refine ⟨fun k value hvalue => ?_, fun k state hstate => ?_, fun k hregister hrelay => ?_,
    fun k ip hip => ?_, hrelays⟩
  · rw [hvalues, last_writes, hvalue, Option.some_or, Option.some_or]
  · rw [hvalues, last_writes]
    rcases reported_once k with hnone | hnone
    · rw [last_eq_none fun e _ => hnone e, Option.none_or, hstate, Option.some_or]
    · rw [last_eq_none fun e _ => hnone e] at hstate
      cases hstate
  · rw [hvalues, last_writes, hregister, hrelay, Option.none_or, Option.none_or]
  · obtain ⟨e, _, he⟩ := last_mem hip
    obtain ⟨metadata, hmetadata⟩ : ∃ metadata, t.relays[k]? = some metadata := by
      rw [← Option.isSome_iff_exists, ← Std.ExtTreeMap.mem_iff_isSome_getElem?, t.complete]
      exact relayIp_number he
    rw [hrelays, hmetadata, hip]
    rfl

/-- A discharge current of -6 A, cut in the middle of its address, while the line of another
client is unfinished. -/
theorem negative_current_arrives :
    (receiveAll (({ clients := [3], partialLines := Std.ExtTreeMap.insert ∅ 3 (ascii "2520") } :
      Loop).accept 5) 5
      [ascii "252", ascii "74 65530\n"]).tables.lastValues[(25274 : UInt16)]? = some (-6) :=
  (telemetry_lossless [.registerResult ⟨25274, .readOnly⟩ (by decide) 65530]
    { clients := [3], partialLines := Std.ExtTreeMap.insert ∅ 3 (ascii "2520") } 5 (by decide)
    [ascii "252", ascii "74 65530\n"] (by decide)).1 25274 (-6) (by decide)

end InverterMonitor.Wire
