import InverterMonitor.Cxx.Conversions

/-!
# What the inverter firmware reports

The register tables of `inverter.ino`, the IP texts its relays can have, and the
lines that `printRegisterResult` and `printRelaysState` write to the monitor
connection.
-/

namespace InverterMonitor.Firmware
open Text Cxx

/-! ## Registers -/

inductive AccessType
  | readOnly
  | readWrite
  deriving DecidableEq, Repr

structure RegItem where
  address : UInt16
  access : AccessType
  deriving DecidableEq, Repr

def controlRegisters : List RegItem :=
  [20101, 20102, 20103, 20104, 20108, 20109, 20111, 20112, 20113, 20118, 20119, 10103, 10104,
    10105, 10107, 20125, 20127, 20128, 20132, 20142, 20143, 20144].map (⟨·, .readWrite⟩)

def monitorRegisters : List RegItem :=
  [15205, 15206, 15207, 15208, 25212, 25274].map (⟨·, .readOnly⟩)

def findRegister (address : UInt16) : Option RegItem :=
  (controlRegisters ++ monitorRegisters).find? (·.address = address)

/-! ## IP texts -/

def relayIpAddressMaxLen : Nat := 15

/-- The character loop of `parseIpAddress`: the finished parts, the value of the
part being read, and whether it has a digit. -/
def ipParts : Bytes → List Nat → Nat → Bool → Option (List Nat × Nat × Bool)
  | [], parts, value, hasDigit => some (parts, value, hasDigit)
  | c :: s, parts, value, hasDigit =>
    if isDigit c then
      let value := value * 10 + digitValue c
      if 255 < value then none else ipParts s parts value true
    else if c = '.' then
      if hasDigit = false ∨ 3 ≤ parts.length then none else ipParts s (parts ++ [value]) 0 false
    else none

/-- `"%u.%u.%u.%u"` -/
def dotted : List Nat → Bytes
  | [] => []
  | [n] => decimal n
  | n :: m :: parts => decimal n ++ ('.' : Byte) :: dotted (m :: parts)

/-- The text that is stored for a relay, `none` for a text that is no address. -/
def parseIpAddress (ipText : Bytes) : Option Bytes :=
  if ipText = [] ∨ relayIpAddressMaxLen < ipText.length then none
  else do
    let (parts, value, hasDigit) ← ipParts ipText [] 0 false
    if hasDigit = false ∨ parts.length ≠ 3 then none
    else
      let dest := dotted (parts ++ [value])
      if dest.length ≤ relayIpAddressMaxLen then some dest else none

/-- A text that `SETIP` has stored. -/
structure IpAddress where
  text : Bytes
  stored : ∃ ipText, parseIpAddress ipText = some text

theorem dotted_ne_nil {parts : List Nat} (h : parts ≠ []) : dotted parts ≠ [] := by
  cases parts with
  | nil => exact absurd rfl h
  | cons n parts =>
    cases parts with
    | nil => exact decimal_ne_nil n
    | cons m parts => simp [dotted]

theorem dotted_bytes (parts : List Nat) : ∀ b ∈ dotted parts, isDigit b = true ∨ b = '.' := by
  induction parts with
  | nil => simp [dotted]
  | cons n parts ih =>
    cases parts with
    | nil => exact fun b hb => Or.inl (decimal_digits n b hb)
    | cons m parts =>
      intro b hb
      rw [dotted] at hb
      rcases List.mem_append.mp hb with hb | hb
      · exact Or.inl (decimal_digits n b hb)
      · rcases List.mem_cons.mp hb with rfl | hb
        · exact Or.inr rfl
        · exact ih b hb

theorem parseIpAddress_some {ipText text : Bytes} (h : parseIpAddress ipText = some text) :
    (∃ parts, parts ≠ [] ∧ text = dotted parts) ∧ text.length ≤ relayIpAddressMaxLen := by
  simp only [parseIpAddress] at h
  split at h
  · cases h
  · obtain ⟨⟨parts, value, hasDigit⟩, _, h⟩ := Option.bind_eq_some_iff.mp h
    simp only at h
    split at h
    · cases h
    · split at h
      · next hlen =>
        cases h
        exact ⟨⟨parts ++ [value], by simp, rfl⟩, hlen⟩
      · cases h

namespace IpAddress

theorem spec (ip : IpAddress) :
    (∃ parts, parts ≠ [] ∧ ip.text = dotted parts) ∧ ip.text.length ≤ relayIpAddressMaxLen := by
  obtain ⟨ipText, h⟩ := ip.stored
  exact parseIpAddress_some h

theorem bytes (ip : IpAddress) : ∀ b ∈ ip.text, isDigit b = true ∨ b = '.' := by
  obtain ⟨⟨parts, _, h⟩, _⟩ := ip.spec
  rw [h]
  exact dotted_bytes parts

theorem isWord (ip : IpAddress) : isWord ip.text := by
  obtain ⟨⟨parts, hne, h⟩, _⟩ := ip.spec
  refine ⟨h ▸ dotted_ne_nil hne, fun b hb => ?_⟩
  rcases ip.bytes b hb with hd | rfl
  · exact isSpace_of_isDigit hd
  · decide

end IpAddress

/-! ## Reports -/

/-- What `snprintf` leaves in a buffer of 32 bytes, of which all is sent. -/
def snprintf (text : Bytes) : Bytes := text.take 31

/-- `"%u %u\n"` -/
def registerLine (address value : UInt16) : Bytes :=
  decimal address.toNat ++ (' ' : Byte) :: decimal value.toNat

/-- The text for a relay without an address is `no_ip`. -/
def ipText : Option IpAddress → Bytes
  | some ip => ip.text
  | none => ascii "no_ip"

/-- `"R%u %u %s\n"` -/
def relayLine (i : Fin 4) (state : Bool) (ip : Option IpAddress) : Bytes :=
  ('R' : Byte) :: (decimal (i + 1) ++ (' ' : Byte) ::
    (decimal (if state then 1 else 0) ++ (' ' : Byte) :: ipText ip))

/-- A call of one of the two reporting functions, with what it reads. -/
inductive Emission
  | registerResult (reg : RegItem) (hreg : reg ∈ controlRegisters ++ monitorRegisters)
      (value : UInt16)
  | relaysState (states : Fin 4 → Bool) (ips : Fin 4 → Option IpAddress)

namespace Emission

def lines : Emission → List Bytes
  | registerResult reg _ value => [registerLine reg.address value]
  | relaysState states ips => (List.finRange 4).map fun i => relayLine i (states i) (ips i)

/-- The bytes written to the monitor connection. -/
def text (e : Emission) : Bytes := e.lines.flatMap fun line => snprintf (line ++ ascii "\n")

end Emission

theorem length_decimal_le {n k : Nat} (hk : 0 < k) (hn : n < 10 ^ k) : (decimal n).length ≤ k := by
  rw [decimal, List.length_map]
  exact (Nat.length_toDigits_le_iff (by omega) hk).mpr hn

theorem length_registerLine (address value : UInt16) : (registerLine address value).length ≤ 11 := by
  have haddress := length_decimal_le (n := address.toNat) (k := 5) (by omega)
    (Nat.lt_trans address.toNat_lt (by decide))
  have hvalue := length_decimal_le (n := value.toNat) (k := 5) (by omega)
    (Nat.lt_trans value.toNat_lt (by decide))
  simp only [registerLine, List.length_append, List.length_cons]
  omega

theorem length_ipText (ip : Option IpAddress) : (ipText ip).length ≤ 15 := by
  cases ip with
  | none => decide
  | some ip => exact ip.spec.2

theorem length_relayLine (i : Fin 4) (state : Bool) (ip : Option IpAddress) :
    (relayLine i state ip).length ≤ 20 := by
  have hindex := length_decimal_le (n := i + 1) (k := 1) (by omega) (by omega)
  have hstate := length_decimal_le (n := if state then 1 else 0) (k := 1) (by omega)
    (by cases state <;> decide)
  have hip := length_ipText ip
  simp only [relayLine, List.length_cons, List.length_append]
  omega

/-- No line is cut off by the buffer. -/
theorem Emission.text_eq (e : Emission) : e.text = e.lines.flatMap fun line => line ++ ascii "\n" := by
  have hlen : ∀ line ∈ e.lines, line.length ≤ 20 := by
    intro line hline
    cases e with
    | registerResult reg hreg value =>
      rw [List.mem_singleton.mp hline]
      exact le_trans (length_registerLine _ _) (by omega)
    | relaysState states ips =>
      obtain ⟨i, _, rfl⟩ := List.mem_map.mp hline
      exact length_relayLine _ _ _
  unfold Emission.text
  rw [List.flatMap_def, List.flatMap_def]
  congr 1
  refine List.map_congr_left fun line hline => ?_
  have hnewline : (ascii "\n").length = 1 := by decide
  rw [snprintf, List.take_of_length_le]
  rw [List.length_append, hnewline]
  have := hlen line hline
  omega

end InverterMonitor.Firmware
