import InverterMonitor.Runs.Buffers
import InverterMonitor.Runs.History
import InverterMonitor.Text.Bytes

/-!
# The Modbus simulator

`main.cpp` of `simulator_modbus`: frames are taken off a receive buffer, checked
and answered from a register map.  The values of `generateMonitorValue`, which
depend on time and chance, are a parameter.

* `validCrc_appendCrc`: a checksum that is appended is valid;
* `Serves`: what a register server replies after some requests;
* `frameTurn_request`: a turn answers a request as the server does;
* `simulator_serves`: however a sequence of requests is cut into chunks, those
  to the slave are answered in order and the others are not.
-/

namespace InverterMonitor.Modbus
open Text Runs

/-! ## Checksums -/

/-- A step of the inner loop of `computeCrc`. -/
def shiftCrc (crc : UInt16) : UInt16 :=
  if crc &&& 0x0001 ≠ 0 then (crc >>> 1) ^^^ 0xA001 else crc >>> 1

def computeCrc (data : Bytes) : UInt16 :=
  data.foldl (fun crc b => shiftCrc^[8] (crc ^^^ b.toUInt16)) 0xFFFF

def lowByte (word : UInt16) : Byte := (word &&& 0xFF).toUInt8

def highByte (word : UInt16) : Byte := ((word >>> 8) &&& 0xFF).toUInt8

/-- `high << 8 | low` -/
def word (high low : Byte) : UInt16 := (high.toUInt16 <<< 8) ||| low.toUInt16

def appendCrc (frame : Bytes) : Bytes :=
  frame ++ [lowByte (computeCrc frame), highByte (computeCrc frame)]

def validCrc (frame : Bytes) (length : Nat) : Bool :=
  if length < 3 then false
  else computeCrc (frame.take (length - 2)) ==
    word (frame.getD (length - 1) 0) (frame.getD (length - 2) 0)

/-! ## Registers -/

structure RegisterInfo where
  value : UInt16
  writable : Bool
  deriving DecidableEq, Repr

abbrev Registers := UInt16 → Option RegisterInfo

def registerTable : List (UInt16 × RegisterInfo) :=
  [(20101, ⟨0, true⟩), (20102, ⟨2300, true⟩), (20103, ⟨5000, true⟩), (20104, ⟨0, true⟩),
    (20108, ⟨0, true⟩), (20109, ⟨1, true⟩), (20111, ⟨0, true⟩), (20112, ⟨0, true⟩),
    (20113, ⟨100, true⟩), (20118, ⟨270, true⟩), (20119, ⟨270, true⟩), (10103, ⟨270, true⟩),
    (10104, ⟨282, true⟩), (10105, ⟨170, true⟩), (10107, ⟨300, true⟩), (20125, ⟨600, true⟩),
    (20127, ⟨170, true⟩), (20128, ⟨300, true⟩), (20132, ⟨600, true⟩), (20142, ⟨0, true⟩),
    (20143, ⟨0, true⟩), (20144, ⟨0, true⟩), (15205, ⟨2200, false⟩), (15206, ⟨265, false⟩),
    (15207, ⟨150, false⟩), (15208, ⟨500, false⟩), (25212, ⟨800, false⟩), (25274, ⟨15, false⟩)]

def makeRegisterMap : Registers := fun address =>
  (registerTable.find? (·.1 = address)).map (·.2)

/-- The registers, and how often `generateMonitorValue` was called. -/
structure Simulator where
  registers : Registers := makeRegisterMap
  calls : Nat := 0

/-! ## Requests -/

section

variable (generateMonitorValue : Nat → UInt16 → UInt16)

/-- The value that a read reports, and the number of calls. -/
def readValue (it : RegisterInfo) (addressValue : UInt16) (calls : Nat) : UInt16 × Nat :=
  if it.writable then (it.value, calls) else (generateMonitorValue calls addressValue, calls + 1)

/-- The loop over the registers of a read, from `offset` on; `none` where one is missing. -/
def readPayload (registers : Registers) (startAddress : UInt16) :
    Nat → Nat → Nat → Option Bytes × Nat
  | _, 0, calls => (some [], calls)
  | offset, left + 1, calls =>
    match registers (startAddress + offset.toUInt16) with
    | none => (none, calls)
    | some it =>
      let (value, calls) := readValue generateMonitorValue it (startAddress + offset.toUInt16) calls
      let (payload, calls) := readPayload registers startAddress (offset + 1) left calls
      (payload.map fun payload => highByte value :: lowByte value :: payload, calls)

/-- The response to a read, without the checksum. -/
def readHoldingRegisters (address : Byte) (startAddress quantity : UInt16) (s : Simulator) :
    Bytes × Simulator :=
  if quantity = 0 ∨ 125 < quantity then ([address, 0x83, 0x03], s)
  else
    match readPayload generateMonitorValue s.registers startAddress 0 quantity.toNat s.calls with
    | (none, calls) => ([address, 0x83, 0x02], { s with calls := calls })
    | (some payload, calls) =>
      ([address, 0x03, (quantity * 2).toUInt8] ++ payload, { s with calls := calls })

/-- The response to a write, without the checksum. -/
def writeSingleRegister (address : Byte) (startAddress value : UInt16) (echo : Bytes)
    (s : Simulator) : Bytes × Simulator :=
  match s.registers startAddress with
  | none => ([address, 0x86, 0x02], s)
  | some it =>
    if !it.writable then ([address, 0x86, 0x03], s)
    else
      ([address, 0x06] ++ echo,
        { s with
          registers := Function.update s.registers startAddress (some { it with value := value }) })

/-- A turn of the loop over the receive buffer. -/
def frameTurn (slaveId : Byte) (s : Simulator) (rxBuffer : Bytes) :
    Option (List Bytes × Simulator × Bytes) :=
  match rxBuffer with
  | address :: function :: b2 :: b3 :: b4 :: b5 :: b6 :: b7 :: rest =>
    let next := function :: b2 :: b3 :: b4 :: b5 :: b6 :: b7 :: rest
    if function ≠ 0x03 ∧ function ≠ 0x06 then some ([], s, next)
    else if !validCrc (address :: next) 8 then some ([], s, next)
    else if address ≠ slaveId then some ([], s, rest)
    else
      let (response, s) :=
        if function = 0x03 then
          readHoldingRegisters generateMonitorValue address (word b2 b3) (word b4 b5) s
        else writeSingleRegister address (word b2 b3) (word b4 b5) [b2, b3, b4, b5] s
      some ([appendCrc response], s, rest)
  | _ => none

end

/-! ## Words and bytes -/

theorem highByte_toNat (w : UInt16) : (highByte w).toNat = w.toNat / 256 := by
  have h := w.toNat_lt
  have h255 : (0xFF : UInt16).toNat = 2 ^ 8 - 1 := rfl
  have h8 : (8 : UInt16).toNat % 16 = 8 := rfl
  unfold highByte
  rw [UInt16.toNat_toUInt8, UInt16.toNat_and, UInt16.toNat_shiftRight, h255,
    Nat.and_two_pow_sub_one_eq_mod, h8, Nat.shiftRight_eq_div_pow]
  omega

theorem lowByte_toNat (w : UInt16) : (lowByte w).toNat = w.toNat % 256 := by
  have h255 : (0xFF : UInt16).toNat = 2 ^ 8 - 1 := rfl
  unfold lowByte
  rw [UInt16.toNat_toUInt8, UInt16.toNat_and, h255, Nat.and_two_pow_sub_one_eq_mod]
  omega

theorem word_toNat (high low : Byte) : (word high low).toNat = high.toNat * 256 + low.toNat := by
  have hhigh := high.toNat_lt
  have hlow := low.toNat_lt
  have h8 : (8 : UInt16).toNat % 16 = 8 := rfl
  unfold word
  rw [UInt16.toNat_or, UInt16.toNat_shiftLeft, h8, UInt8.toNat_toUInt16, UInt8.toNat_toUInt16,
    Nat.mod_eq_of_lt (by rw [Nat.shiftLeft_eq]; omega), ← Nat.shiftLeft_add_eq_or_of_lt hlow,
    Nat.shiftLeft_eq]

theorem word_bytes (w : UInt16) : word (highByte w) (lowByte w) = w := by
  apply UInt16.toNat_inj.mp
  rw [word_toNat, highByte_toNat, lowByte_toNat]
  omega

theorem bytes_word (high low : Byte) : highByte (word high low) = high ∧ lowByte (word high low) = low := by
  have hlow := low.toNat_lt
  constructor
  · apply UInt8.toNat_inj.mp
    rw [highByte_toNat, word_toNat]
    omega
  · apply UInt8.toNat_inj.mp
    rw [lowByte_toNat, word_toNat]
    omega

theorem appendCrc_length (frame : Bytes) : (appendCrc frame).length = frame.length + 2 := by
  simp [appendCrc]

/-- A checksum that is appended is valid. -/
theorem validCrc_appendCrc {frame : Bytes} (h : frame ≠ []) :
    validCrc (appendCrc frame) (appendCrc frame).length = true := by
  have hlength := List.length_pos_iff.mpr h
  have hlow : (appendCrc frame).getD frame.length 0 = lowByte (computeCrc frame) := by
    simp [appendCrc]
  have hhigh : (appendCrc frame).getD (frame.length + 1) 0 = highByte (computeCrc frame) := by
    simp [appendCrc]
  have htake : (appendCrc frame).take frame.length = frame := by simp [appendCrc]
  unfold validCrc
  rw [appendCrc_length, if_neg (by omega), Nat.add_sub_cancel,
    show frame.length + 2 - 1 = frame.length + 1 by omega, hlow, hhigh, htake, word_bytes]
  exact beq_self_eq_true _

/-- The checksum of a frame at the front of a buffer. -/
theorem validCrc_eight (a b c d e f g h : Byte) (rest : Bytes) :
    validCrc (a :: b :: c :: d :: e :: f :: g :: h :: rest) 8 =
      (computeCrc [a, b, c, d, e, f] == word h g) := rfl

section

variable (generateMonitorValue : Nat → UInt16 → UInt16) (slaveId : Byte)

theorem frameTurn_shrinks {s t : Simulator} {buffer rest : Bytes} {emitted : List Bytes}
    (h : frameTurn generateMonitorValue slaveId s buffer = some (emitted, t, rest)) :
    rest.length < buffer.length := by
  unfold frameTurn at h
  split at h
  · simp only at h
    split at h
    · cases h
      simp
    · split at h
      · cases h
        simp
      · split at h
        · cases h
          simp only [List.length_cons]
          omega
        · cases h
          simp only [List.length_cons]
          omega
  · cases h

theorem frameTurn_stable {s t : Simulator} {buffer rest : Bytes} {emitted : List Bytes}
    (later : Bytes) (h : frameTurn generateMonitorValue slaveId s buffer = some (emitted, t, rest)) :
    frameTurn generateMonitorValue slaveId s (buffer ++ later) =
      some (emitted, t, rest ++ later) := by
  unfold frameTurn at h ⊢
  split at h
  · simp only [List.cons_append, validCrc_eight] at h ⊢
    split at h
    · next hfunction =>
      cases h
      rw [if_pos hfunction]
      rfl
    · next hfunction =>
      rw [if_neg hfunction]
      split at h
      · next hcrc =>
        cases h
        rw [if_pos hcrc]
        rfl
      · next hcrc =>
        rw [if_neg hcrc]
        split at h
        · next haddress =>
          cases h
          rw [if_pos haddress]
        · next haddress =>
          cases h
          rw [if_neg haddress]
  · cases h

/-- The loop over the receive buffer. -/
def server : Consumer Simulator Byte Bytes where
  turn := frameTurn generateMonitorValue slaveId
  shrinks := frameTurn_shrinks generateMonitorValue slaveId
  stable := frameTurn_stable generateMonitorValue slaveId

end

/-! ## A register server -/

inductive Request
  | read (startAddress quantity : UInt16)
  | write (address value : UInt16)

inductive Reply
  | exception (code : Byte)
  | values (words : List UInt16)
  | written

/-- The registers of a read. -/
def address (startAddress : UInt16) (offset : Nat) : UInt16 := startAddress + offset.toUInt16

def Request.Refused : Request → Prop
  | .read startAddress quantity =>
    quantity = 0 ∨ 125 < quantity ∨ 2 ^ 16 < startAddress.toNat + quantity.toNat ∨
      ∃ offset < quantity.toNat, makeRegisterMap (address startAddress offset) = none
  | .write address _ => ∀ info, makeRegisterMap address = some info → info.writable = false

/-- The value that a request writes to a register. -/
def Request.writtenTo (register : UInt16) : Request → Option UInt16
  | .read _ _ => none
  | .write address value =>
    if address = register ∧ (makeRegisterMap register).any (·.writable) then some value else none

/-- The registers after some requests: the last value written, or that of the table. -/
def registersAfter (history : List Request) : Registers := fun register =>
  (makeRegisterMap register).map fun info =>
    { info with value := (last (Request.writtenTo register) history).getD info.value }

/-- The exception code of a refusal. -/
def Request.exceptionCode : Request → Byte
  | .read _ quantity => if quantity = 0 ∨ 125 < quantity then 0x03 else 0x02
  | .write address _ => if makeRegisterMap address = none then 0x02 else 0x03

/-- What the server replies to a request after a history of requests; of a register
that cannot be written it may report any value. -/
inductive Serves (history : List Request) : Request → Reply → Prop
  | refused {request : Request} (h : request.Refused) :
      Serves history request (.exception request.exceptionCode)
  | values {startAddress quantity : UInt16} {words : List UInt16}
      (h : ¬(Request.read startAddress quantity).Refused) (hlength : words.length = quantity.toNat)
      (hvalues : ∀ offset < quantity.toNat, ∀ info,
        registersAfter history (address startAddress offset) = some info → info.writable = true →
          words[offset]? = some info.value) :
      Serves history (.read startAddress quantity) (.values words)
  | written {address value : UInt16} (h : ¬(Request.write address value).Refused) :
      Serves history (.write address value) .written

/-! ## Frames -/

/-- A frame of 8 bytes with a valid checksum that reads or writes. -/
structure IsRequest (frame : Bytes) : Prop where
  length : frame.length = 8
  crc : validCrc frame 8 = true
  function : frame.getD 1 0 = 0x03 ∨ frame.getD 1 0 = 0x06

/-- The request of a frame. -/
def requestOf (frame : Bytes) : Request :=
  if frame.getD 1 0 = 0x03 then
    .read (word (frame.getD 2 0) (frame.getD 3 0)) (word (frame.getD 4 0) (frame.getD 5 0))
  else .write (word (frame.getD 2 0) (frame.getD 3 0)) (word (frame.getD 4 0) (frame.getD 5 0))

def wordBytes (words : List UInt16) : Bytes := words.flatMap fun w => [highByte w, lowByte w]

/-- A reply as a frame, without the checksum. -/
def encode (slaveId : Byte) : Request → Reply → Bytes
  | .read _ _, .exception code => [slaveId, 0x83, code]
  | .write _ _, .exception code => [slaveId, 0x86, code]
  | .read _ quantity, .values words => [slaveId, 0x03, (quantity * 2).toUInt8] ++ wordBytes words
  | .write address value, _ =>
    [slaveId, 0x06, highByte address, lowByte address, highByte value, lowByte value]
  | .read _ _, .written => []

/-- The length of a response with its checksum. -/
def responseLength : Request → Reply → Nat
  | _, .exception _ => 5
  | .read _ quantity, _ => 5 + 2 * quantity.toNat
  | .write _ _, _ => 8

/-- A frame that answers a request as the server does. -/
def IsResponse (slaveId : Byte) (history : List Request) (request : Request) (response : Bytes) :
    Prop :=
  ∃ reply, Serves history request reply ∧ response = appendCrc (encode slaveId request reply) ∧
    validCrc response response.length = true ∧ response.length = responseLength request reply

/-- The frames to the slave are answered in order, after the requests before them, and
the others are not answered. -/
inductive Answers (slaveId : Byte) : List Request → List Bytes → List Bytes → Prop
  | done {history : List Request} : Answers slaveId history [] []
  | other {history : List Request} {frame : Bytes} {frames responses : List Bytes}
      (hother : frame.head? ≠ some slaveId) (h : Answers slaveId history frames responses) :
      Answers slaveId history (frame :: frames) responses
  | answered {history : List Request} {frame response : Bytes} {frames responses : List Bytes}
      (hslave : frame.head? = some slaveId)
      (hresponse : IsResponse slaveId history (requestOf frame) response)
      (h : Answers slaveId (history ++ [requestOf frame]) frames responses) :
      Answers slaveId history (frame :: frames) (response :: responses)

/-! ## The handlers answer as the server does -/

theorem registersAfter_eq_none {history : List Request} {register : UInt16} :
    registersAfter history register = none ↔ makeRegisterMap register = none := by
  simp [registersAfter]

theorem registersAfter_writable {history : List Request} {register : UInt16} {info : RegisterInfo}
    (h : registersAfter history register = some info) :
    ∃ original, makeRegisterMap register = some original ∧ info.writable = original.writable := by
  obtain ⟨original, horiginal, rfl⟩ := Option.map_eq_some_iff.mp h
  exact ⟨original, horiginal, rfl⟩

/-- A request that writes nothing leaves the registers. -/
theorem registersAfter_same {history : List Request} {request : Request}
    (h : ∀ register, request.writtenTo register = none) :
    registersAfter (history ++ [request]) = registersAfter history := by
  funext register
  unfold registersAfter
  rw [last_concat, h register, Option.none_or]

theorem refused_writtenTo {request : Request} (h : request.Refused) (register : UInt16) :
    request.writtenTo register = none := by
  cases request with
  | read => rfl
  | write address value =>
    refine if_neg ?_
    rintro ⟨rfl, hwritable⟩
    cases hinfo : makeRegisterMap address with
    | none =>
      rw [hinfo] at hwritable
      cases hwritable
    | some info =>
      rw [hinfo, Option.any_some, h info hinfo] at hwritable
      cases hwritable

/-- A write that is not refused. -/
theorem registersAfter_write {history : List Request} {register value : UInt16}
    {info : RegisterInfo} (h : registersAfter history register = some info)
    (hwritable : info.writable = true) :
    registersAfter (history ++ [.write register value]) =
      Function.update (registersAfter history) register (some { info with value := value }) := by
  obtain ⟨original, horiginal, rfl⟩ := Option.map_eq_some_iff.mp h
  funext other
  by_cases hother : other = register
  · subst hother
    have hwritten : (Request.write other value).writtenTo other = some value :=
      if_pos ⟨rfl, by rwa [horiginal, Option.any_some]⟩
    simp only [Function.update_self, registersAfter, horiginal, Option.map_some, last_concat,
      hwritten, Option.some_or, Option.getD_some]
  · have hwritten : (Request.write register value).writtenTo other = none :=
      if_neg fun hwrite => hother hwrite.1.symm
    rw [Function.update_of_ne hother]
    simp only [registersAfter, last_concat, hwritten, Option.none_or]

section

variable {generateMonitorValue : Nat → UInt16 → UInt16}

theorem readValue_writable {it : RegisterInfo} (h : it.writable = true) (register : UInt16)
    (calls : Nat) : (readValue generateMonitorValue it register calls).1 = it.value := by
  rw [readValue, if_pos h]

/-- The loop reads every register, or meets one that is missing. -/
theorem readPayload_spec (registers : Registers) (startAddress : UInt16)
    (offset left calls : Nat) :
    (∃ words, (readPayload generateMonitorValue registers startAddress offset left calls).1 =
        some (wordBytes words) ∧ words.length = left ∧
      ∀ i < left, ∃ info, registers (address startAddress (offset + i)) = some info ∧
        (info.writable = true → words[i]? = some info.value)) ∨
      (readPayload generateMonitorValue registers startAddress offset left calls).1 = none ∧
        ∃ i < left, registers (address startAddress (offset + i)) = none := by
  induction left generalizing offset calls with
  | zero => exact Or.inl ⟨[], rfl, rfl, fun i hi => absurd hi (Nat.not_lt_zero i)⟩
  | succ left ih =>
    unfold readPayload
    cases hfound : registers (startAddress + offset.toUInt16) with
    | none => exact Or.inr ⟨rfl, 0, Nat.succ_pos _, hfound⟩
    | some it =>
      simp only
      rcases ih (offset + 1)
          (readValue generateMonitorValue it (startAddress + offset.toUInt16) calls).2 with
        ⟨words, hpayload, hlength, hwords⟩ | ⟨hpayload, i, hi, hmissing⟩
      · refine Or.inl ⟨(readValue generateMonitorValue it (startAddress + offset.toUInt16) calls).1 ::
          words, ?_, by simp [hlength], ?_⟩
        · rw [hpayload]
          rfl
        · intro i hi
          cases i with
          | zero => exact ⟨it, hfound, fun hwritable => by simp [readValue_writable hwritable]⟩
          | succ i =>
            obtain ⟨info, hinfo, hvalue⟩ := hwords i (by omega)
            rw [Nat.add_right_comm] at hinfo
            exact ⟨info, hinfo, by simpa using hvalue⟩
      · refine Or.inr ⟨?_, i + 1, by omega, ?_⟩
        · rw [hpayload]
          rfl
        · rwa [Nat.add_right_comm] at hmissing

/-- A range of registers that wraps holds the last address, which is no register. -/
theorem wraps_missing {startAddress : UInt16} {count : Nat}
    (h : 2 ^ 16 < startAddress.toNat + count) :
    ∃ offset < count, makeRegisterMap (address startAddress offset) = none := by
  have hstart := startAddress.toNat_lt
  have hlast : address startAddress (65535 - startAddress.toNat) = 65535 := by
    apply UInt16.toNat_inj.mp
    have htop : (65535 : UInt16).toNat = 65535 := rfl
    rw [address, UInt16.toNat_add, Nat.toUInt16_eq, UInt16.toNat_ofNat', htop]
    omega
  refine ⟨65535 - startAddress.toNat, by omega, ?_⟩
  rw [hlast]
  decide

theorem readHoldingRegisters_serves {history : List Request} {s : Simulator}
    (hs : s.registers = registersAfter history) (slaveId : Byte) (startAddress quantity : UInt16) :
    (readHoldingRegisters generateMonitorValue slaveId startAddress quantity s).2.registers =
        s.registers ∧
      ∃ reply, Serves history (.read startAddress quantity) reply ∧
        (readHoldingRegisters generateMonitorValue slaveId startAddress quantity s).1 =
          encode slaveId (.read startAddress quantity) reply := by
  unfold readHoldingRegisters
  by_cases hquantity : quantity = 0 ∨ 125 < quantity
  · rw [if_pos hquantity]
    have hrefused : (Request.read startAddress quantity).Refused :=
      hquantity.imp_right Or.inl
    refine ⟨rfl, _, .refused hrefused, ?_⟩
    simp only [Request.exceptionCode, if_pos hquantity, encode]
  · rw [if_neg hquantity]
    have hspec := @readPayload_spec generateMonitorValue s.registers startAddress 0
      quantity.toNat s.calls
    generalize readPayload generateMonitorValue s.registers startAddress 0 quantity.toNat s.calls =
      result at hspec ⊢
    obtain ⟨payload, calls⟩ := result
    simp only [Nat.zero_add] at hspec
    rcases hspec with ⟨words, rfl, hlength, hwords⟩ | ⟨rfl, i, hi, hmissing⟩
    · have hpresent : ∀ offset < quantity.toNat,
          makeRegisterMap (address startAddress offset) ≠ none := by
        intro offset hoffset hnone
        obtain ⟨info, hinfo, _⟩ := hwords offset hoffset
        rw [hs, registersAfter_eq_none.mpr hnone] at hinfo
        cases hinfo
      have haccepted : ¬(Request.read startAddress quantity).Refused := by
        rintro (hzero | hlarge | hwraps | ⟨offset, hoffset, hnone⟩)
        · exact hquantity (Or.inl hzero)
        · exact hquantity (Or.inr hlarge)
        · obtain ⟨offset, hoffset, hnone⟩ := wraps_missing hwraps
          exact hpresent offset hoffset hnone
        · exact hpresent offset hoffset hnone
      refine ⟨rfl, .values words, .values haccepted hlength ?_, rfl⟩
      intro offset hoffset info hinfo hwritable
      obtain ⟨info', hinfo', hvalue⟩ := hwords offset hoffset
      rw [hs, hinfo] at hinfo'
      cases hinfo'
      exact hvalue hwritable
    · rw [hs, registersAfter_eq_none] at hmissing
      have hrefused : (Request.read startAddress quantity).Refused :=
        Or.inr (Or.inr (Or.inr ⟨i, hi, hmissing⟩))
      refine ⟨rfl, _, .refused hrefused, ?_⟩
      simp only [Request.exceptionCode, if_neg hquantity, encode]

theorem writeSingleRegister_serves {history : List Request} {s : Simulator}
    (hs : s.registers = registersAfter history) (slaveId b2 b3 b4 b5 : Byte) :
    (writeSingleRegister slaveId (word b2 b3) (word b4 b5) [b2, b3, b4, b5] s).2.registers =
        registersAfter (history ++ [.write (word b2 b3) (word b4 b5)]) ∧
      ∃ reply, Serves history (.write (word b2 b3) (word b4 b5)) reply ∧
        (writeSingleRegister slaveId (word b2 b3) (word b4 b5) [b2, b3, b4, b5] s).1 =
          encode slaveId (.write (word b2 b3) (word b4 b5)) reply := by
  obtain ⟨hb2, hb3⟩ := bytes_word b2 b3
  obtain ⟨hb4, hb5⟩ := bytes_word b4 b5
  generalize word b2 b3 = register at hb2 hb3 ⊢
  generalize word b4 b5 = value at hb4 hb5 ⊢
  subst hb2 hb3 hb4 hb5
  unfold writeSingleRegister
  cases hfound : s.registers register with
  | none =>
    rw [hs, registersAfter_eq_none] at hfound
    have hrefused : (Request.write register value).Refused := by
      intro info hinfo
      rw [hfound] at hinfo
      cases hinfo
    refine ⟨?_, _, .refused hrefused, ?_⟩
    · rw [registersAfter_same (refused_writtenTo hrefused)]
      exact hs
    · simp only [Request.exceptionCode, if_pos hfound, encode]
  | some it =>
    rw [hs] at hfound
    obtain ⟨original, horiginal, hsame⟩ := registersAfter_writable hfound
    cases hwritable : it.writable with
    | false =>
      have hrefused : (Request.write register value).Refused := by
        intro info hinfo
        rw [horiginal] at hinfo
        cases hinfo
        rw [← hsame, hwritable]
      refine ⟨?_, _, .refused hrefused, ?_⟩
      · rw [registersAfter_same (refused_writtenTo hrefused)]
        simp [hwritable, hs]
      · simp [Request.exceptionCode, horiginal, encode, hwritable]
    | true =>
      have haccepted : ¬(Request.write register value).Refused := by
        intro hrefused
        have hfalse := hrefused original horiginal
        rw [← hsame, hwritable] at hfalse
        cases hfalse
      refine ⟨?_, .written, .written haccepted, ?_⟩
      · rw [registersAfter_write hfound hwritable, ← hs]
        simp [hwritable]
      · simp [hwritable, encode]

theorem wordBytes_length (words : List UInt16) : (wordBytes words).length = 2 * words.length := by
  induction words with
  | nil => rfl
  | cons w words ih =>
    have hcons : wordBytes (w :: words) = highByte w :: lowByte w :: wordBytes words := rfl
    rw [hcons, List.length_cons, List.length_cons, ih, List.length_cons]
    omega

/-- A reply in a frame is a response. -/
theorem Serves.isResponse {history : List Request} {request : Request} {reply : Reply}
    (h : Serves history request reply) (slaveId : Byte) :
    IsResponse slaveId history request (appendCrc (encode slaveId request reply)) := by
  have hlength : (encode slaveId request reply).length + 2 = responseLength request reply ∧
      encode slaveId request reply ≠ [] := by
    cases h with
    | refused => cases request <;> exact ⟨rfl, List.cons_ne_nil _ _⟩
    | values _ hwords =>
      refine ⟨?_, List.cons_ne_nil _ _⟩
      simp only [encode, responseLength, List.length_append, wordBytes_length, hwords,
        List.length_cons, List.length_nil]
      omega
    | written => exact ⟨rfl, List.cons_ne_nil _ _⟩
  exact ⟨reply, h, rfl, validCrc_appendCrc hlength.2,
    (appendCrc_length _).trans hlength.1⟩

theorem IsRequest.bytes {frame : Bytes} (h : IsRequest frame) :
    ∃ a f b2 b3 b4 b5 b6 b7, frame = [a, f, b2, b3, b4, b5, b6, b7] := by
  have hlength := h.length
  obtain ⟨a, frame, rfl⟩ := List.exists_cons_of_length_eq_add_one hlength
  obtain ⟨f, frame, rfl⟩ := List.exists_cons_of_length_eq_add_one (Nat.succ.inj hlength)
  obtain ⟨b2, frame, rfl⟩ := List.exists_cons_of_length_eq_add_one
    (Nat.succ.inj (Nat.succ.inj hlength))
  simp only [List.length_cons, Nat.reduceEqDiff] at hlength
  obtain ⟨b3, frame, rfl⟩ := List.exists_cons_of_length_eq_add_one hlength
  obtain ⟨b4, frame, rfl⟩ := List.exists_cons_of_length_eq_add_one (Nat.succ.inj hlength)
  simp only [List.length_cons, Nat.reduceEqDiff] at hlength
  obtain ⟨b5, b6, b7, rfl⟩ := List.length_eq_three.mp hlength
  exact ⟨a, f, b2, b3, b4, b5, b6, b7, rfl⟩

/-- A turn answers a request to the slave, and passes over a request to another one. -/
theorem frameTurn_request {history : List Request} {s : Simulator}
    (hs : s.registers = registersAfter history) (slaveId : Byte) {frame : Bytes}
    (hframe : IsRequest frame) (later : Bytes) :
    (frame.head? ≠ some slaveId ∧
      frameTurn generateMonitorValue slaveId s (frame ++ later) = some ([], s, later)) ∨
    (frame.head? = some slaveId ∧ ∃ response t,
      frameTurn generateMonitorValue slaveId s (frame ++ later) = some ([response], t, later) ∧
        IsResponse slaveId history (requestOf frame) response ∧
        t.registers = registersAfter (history ++ [requestOf frame])) := by
  have hcrc := hframe.crc
  have hfunction := hframe.function
  obtain ⟨a, f, b2, b3, b4, b5, b6, b7, rfl⟩ := hframe.bytes
  simp only [List.getD_cons_succ, List.getD_cons_zero] at hfunction
  have hknown : ¬(f ≠ 0x03 ∧ f ≠ 0x06) := by
    rintro ⟨hread, hwrite⟩
    exact hfunction.elim hread hwrite
  rw [validCrc_eight] at hcrc
  simp only [List.cons_append, List.nil_append, frameTurn, if_neg hknown, validCrc_eight, hcrc,
    Bool.not_true, Bool.false_eq_true, ↓reduceIte]
  by_cases haddress : a = slaveId
  · refine Or.inr ⟨congrArg some haddress, ?_⟩
    subst haddress
    simp only [ne_eq, not_true_eq_false, ↓reduceIte]
    by_cases hread : f = 0x03
    · subst hread
      obtain ⟨hregisters, reply, hserves, hresponse⟩ := @readHoldingRegisters_serves
        generateMonitorValue history s hs a (word b2 b3) (word b4 b5)
      have hrequest : requestOf [a, 0x03, b2, b3, b4, b5, b6, b7] =
        .read (word b2 b3) (word b4 b5) := rfl
      rw [hrequest, registersAfter_same fun register => rfl]
      refine ⟨_, _, rfl, ?_, hregisters.trans hs⟩
      rw [if_pos rfl, hresponse]
      exact hserves.isResponse a
    · obtain rfl : f = 0x06 := hfunction.resolve_left hread
      obtain ⟨hregisters, reply, hserves, hresponse⟩ := writeSingleRegister_serves hs a b2 b3 b4 b5
      have hrequest : requestOf [a, 0x06, b2, b3, b4, b5, b6, b7] =
        .write (word b2 b3) (word b4 b5) := rfl
      rw [hrequest, if_neg hread]
      refine ⟨_, _, rfl, ?_, hregisters⟩
      rw [hresponse]
      exact hserves.isResponse a
  · refine Or.inl ⟨fun heq => haddress (Option.some.inj heq), ?_⟩
    rw [if_pos haddress]

/-- The requests that are for the slave. -/
def requestsTo (slaveId : Byte) (frames : List Bytes) : List Request :=
  (frames.filter fun frame => frame.head? = some slaveId).map requestOf

/-- The run lemma: the loop over some requests. -/
theorem drain_frames {history : List Request} {s : Simulator}
    (hs : s.registers = registersAfter history) (slaveId : Byte) {frames : List Bytes}
    (hframes : ∀ frame ∈ frames, IsRequest frame) :
    ((server generateMonitorValue slaveId).drain s frames.flatten).rest = [] ∧
      Answers slaveId history frames
        ((server generateMonitorValue slaveId).drain s frames.flatten).emitted ∧
      ((server generateMonitorValue slaveId).drain s frames.flatten).state.registers =
        registersAfter (history ++ requestsTo slaveId frames) := by
  induction frames generalizing history s with
  | nil =>
    rw [List.flatten_nil, Consumer.drain_wait (Consumer.turn_nil s)]
    exact ⟨rfl, .done, by simpa [requestsTo] using hs⟩
  | cons frame frames ih =>
    have hrest : ∀ frame ∈ frames, IsRequest frame := fun f hf => hframes f (by simp [hf])
    rw [List.flatten_cons]
    rcases @frameTurn_request generateMonitorValue history s hs slaveId frame
        (hframes frame (by simp)) frames.flatten with
      ⟨hother, hturn⟩ | ⟨hslave, response, t, hturn, hresponse, ht⟩
    · rw [@Consumer.drain_turn _ _ _ (server generateMonitorValue slaveId) _ _ _ _ _ hturn]
      obtain ⟨hbuffer, hanswers, hregisters⟩ := ih hs hrest
      refine ⟨hbuffer, .other hother hanswers, ?_⟩
      rwa [requestsTo, List.filter_cons_of_neg (by simpa using hother), ← requestsTo]
    · rw [@Consumer.drain_turn _ _ _ (server generateMonitorValue slaveId) _ _ _ _ _ hturn]
      obtain ⟨hbuffer, hanswers, hregisters⟩ := ih ht hrest
      refine ⟨hbuffer, .answered hslave hresponse hanswers, ?_⟩
      rwa [requestsTo, List.filter_cons_of_pos (by simpa using hslave), List.map_cons,
        ← requestsTo, List.append_cons]

end

/-- However a sequence of requests is cut into chunks, those to the slave are
answered in order as a register server answers them, and the others are not; and
a refused request is answered with an exception and leaves the registers. -/
theorem simulator_serves (generateMonitorValue : Nat → UInt16 → UInt16) (slaveId : Byte)
    (frames chunks : List Bytes) (hframes : ∀ frame ∈ frames, IsRequest frame)
    (hchunks : chunks.flatten = frames.flatten) :
    ((server generateMonitorValue slaveId).receiveAll {} chunks).rest = [] ∧
      Answers slaveId [] frames ((server generateMonitorValue slaveId).receiveAll {} chunks).emitted ∧
      ((server generateMonitorValue slaveId).receiveAll {} chunks).state.registers =
        registersAfter (requestsTo slaveId frames) ∧
      ∀ history (request : Request), request.Refused →
        (∀ reply, Serves history request reply → reply = .exception request.exceptionCode) ∧
          registersAfter (history ++ [request]) = registersAfter history := by
  have hstart : ({} : Simulator).registers = registersAfter [] := by
    funext register
    unfold registersAfter
    simp
  rw [Consumer.receiveAll_flatten, hchunks]
  obtain ⟨hbuffer, hanswers, hregisters⟩ :=
    @drain_frames generateMonitorValue [] {} hstart slaveId frames hframes
  refine ⟨hbuffer, hanswers, hregisters, fun history request hrefused => ⟨?_, ?_⟩⟩
  · intro reply hserves
    cases hserves with
    | refused => rfl
    | values haccepted => exact absurd hrefused haccepted
    | written haccepted => exact absurd hrefused haccepted
  · exact registersAfter_same (refused_writtenTo hrefused)

theorem isRequest_appendCrc {a f b2 b3 b4 b5 : Byte} (h : f = 0x03 ∨ f = 0x06) :
    IsRequest (appendCrc [a, f, b2, b3, b4, b5]) :=
  ⟨rfl, validCrc_appendCrc (List.cons_ne_nil _ _), h⟩

/-- A write of register 20102 and a read of it, cut inside the first frame. -/
theorem simulator_serves_written :
    Answers 4 []
      [appendCrc [0x04, 0x06, 0x4E, 0x86, 0x09, 0x60],
        appendCrc [0x04, 0x03, 0x4E, 0x86, 0x00, 0x01]]
      ((server (fun _ _ => 0) 4).receiveAll {}
        [[0x04, 0x06, 0x4E], [0x86, 0x09, 0x60, 0x79, 0x26] ++
          appendCrc [0x04, 0x03, 0x4E, 0x86, 0x00, 0x01]]).emitted :=
  (simulator_serves (fun _ _ => 0) 4
    [appendCrc [0x04, 0x06, 0x4E, 0x86, 0x09, 0x60],
      appendCrc [0x04, 0x03, 0x4E, 0x86, 0x00, 0x01]]
    [[0x04, 0x06, 0x4E], [0x86, 0x09, 0x60, 0x79, 0x26] ++
      appendCrc [0x04, 0x03, 0x4E, 0x86, 0x00, 0x01]]
    (by
      intro frame hframe
      rcases List.mem_cons.mp hframe with rfl | hframe
      · exact isRequest_appendCrc (Or.inr rfl)
      · rw [List.mem_singleton.mp hframe]
        exact isRequest_appendCrc (Or.inl rfl))
    (by decide +kernel)).2.1

end InverterMonitor.Modbus
