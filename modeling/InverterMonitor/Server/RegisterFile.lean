import InverterMonitor.Cxx.BoundedDoubles
import InverterMonitor.Format.JsonGrammar
import InverterMonitor.Server.EscapedTexts
import InverterMonitor.Server.Monitor

/-!
# The register file

`saveRegisterValues` of `registers.hpp`, after any lines from the devices.

* `isFinite_getScaledRegisterValue`: the printed values are finite;
* `shows_handleLines`: a relay shows the address of its last report;
* `registersFileText_isJson_iff`: the file is JSON exactly when the escaper knows all
  control bytes of these addresses.
-/

namespace InverterMonitor.Monitor
open Text Cxx Registers JsonGrammar

/-! ## The writer -/

/-- The text between the quotes of a name. -/
def registerName (relays : RelayTable) (address : UInt16) : Bytes :=
  match getRelayMetadata relays address with
  | some relayInfo =>
    jsonEscape relayInfo.name ++
      (if relayInfo.ipAddress = [] then []
      else ascii " (" ++ (jsonEscape relayInfo.ipAddress ++ ascii ")"))
  | none =>
    match registerMetadata[address]? with
    | some metadata => jsonEscape metadata.name
    | none => []

def registerEntry (relays : RelayTable) (entry : UInt16 × Int16) : Bytes :=
  ascii "  \x7b\"address\":" ++ decimal entry.1.toNat ++
  ascii ",\"name\":\"" ++ registerName relays entry.1 ++ ascii "\"" ++
  ascii ",\"value\":" ++ formatGeneral 6 (getScaledRegisterValue relays entry.1 entry.2) ++
  ascii "\x7d"

/-- The text `saveRegisterValues` writes. -/
def registersFileText (t : Tables) : Bytes :=
  ascii "[\n" ++ (ascii ",\n").intercalate (t.lastValues.toList.map (registerEntry t.relays)) ++
  ascii "\n]\n"

/-! ## The tables -/

theorem mem_of_getElem?_ofList {κ ν : Type} [Ord κ] [Std.TransOrd κ] [Std.LawfulEqOrd κ] [BEq κ]
    [LawfulBEq κ] {entries : List (κ × ν)}
    (hdistinct : entries.Pairwise fun a b => ¬compare a.1 b.1 = .eq) {k : κ} {v : ν}
    (h : (Std.ExtTreeMap.ofList entries compare)[k]? = some v) : (k, v) ∈ entries := by
  have hmem : k ∈ Std.ExtTreeMap.ofList entries compare := by
    rw [Std.ExtTreeMap.mem_iff_isSome_getElem?, h]
    rfl
  rw [Std.ExtTreeMap.mem_ofList] at hmem
  obtain ⟨⟨k', v'⟩, hentry, rfl⟩ := List.mem_map.mp (List.contains_iff_mem.mp hmem)
  rw [Std.ExtTreeMap.getElem?_ofList_of_mem Std.ReflCmp.compare_self hdistinct hentry] at h
  rw [← Option.some.inj h]
  exact hentry

theorem below_multipliers : Below 0 (1.0 : Float) ∧ Below 0 (0.1 : Float) ∧ Below 0 (0.01 : Float) := by
  refine ⟨⟨?_, ?_⟩, ⟨?_, ?_⟩, ?_, ?_⟩ <;> decide +kernel

/-- What the table of the source says of a register. -/
theorem registerMetadata_entry {address : UInt16} {metadata : RegisterMetadata}
    (h : registerMetadata[address]? = some metadata) :
    Clean metadata.name ∧ Below 0 metadata.multiplier := by
  have hdistinct : registerEntries.Pairwise fun a b => ¬compare a.1 b.1 = .eq := by decide +kernel
  have hnames : ∀ entry ∈ registerEntries, ∀ b ∈ entry.2.name, 32 ≤ b := by decide +kernel
  have hmultipliers : ∀ entry ∈ registerEntries, entry.2.multiplier = 1.0 ∨
      entry.2.multiplier = 0.1 ∨ entry.2.multiplier = 0.01 := by decide +kernel
  have hmem := mem_of_getElem?_ofList hdistinct h
  refine ⟨clean_of_all (hnames _ hmem), ?_⟩
  rcases hmultipliers _ hmem with heq | heq | heq <;> rw [heq]
  · exact below_multipliers.1
  · exact below_multipliers.2.1
  · exact below_multipliers.2.2

theorem relayMetadata_entry {k : UInt8} {metadata : RelayMetadata}
    (h : relayMetadata[k]? = some metadata) : Clean metadata.name ∧ metadata.ipAddress = [] := by
  have hdistinct : relayEntries.Pairwise fun a b => ¬compare a.1 b.1 = .eq := by decide
  have hall : ∀ entry ∈ relayEntries,
      (∀ b ∈ entry.2.name, 32 ≤ b) ∧ entry.2.ipAddress = [] := by decide +kernel
  obtain ⟨hname, hip⟩ := hall _ (mem_of_getElem?_ofList hdistinct h)
  exact ⟨clean_of_all hname, hip⟩

/-! ## The values -/

theorem below_doubleOfInt16 (value : Int16) : Below 319 (doubleOfInt16 value) := by
  have hsmall : value.toInt.natAbs < 2 ^ 53 := by
    have := value.toInt_lt
    have := value.le_toInt
    omega
  unfold doubleOfInt16
  split
  · exact (below_ofNat hsmall).neg (by decide) (by decide)
  · exact (below_ofNat hsmall).mono (by decide)

theorem isFinite_getScaledRegisterValue (relays : RelayTable) (address : UInt16) (value : Int16) :
    isFinite (getScaledRegisterValue relays address value) = true := by
  have hvalue := below_doubleOfInt16 value
  unfold getScaledRegisterValue
  split
  · exact hvalue.isFinite
  · split
    · next metadata h =>
      exact (hvalue.mul (registerMetadata_entry h).2 (by decide) (by decide)).isFinite
    · exact (hvalue.mul below_multipliers.1 (by decide) (by decide)).isFinite

/-! ## Reports of the relays -/

structure RelayReport where
  relayIndex : UInt8
  value : Int16
  ipAddress : Bytes
  deriving DecidableEq

/-- The report of a line that `updateRelayStateWithIp` accepts. -/
def relayReport (line : Bytes) : Option RelayReport :=
  match line with
  | [] => none
  | b :: s =>
    if b ≠ 'R' then none
    else do
      let (relayNumber, s) ← extractUnsigned 64 s
      let (stateValue, s) ← extractUnsigned 64 s
      let (ipAddress, _) ← nextWord s
      if relayNumber = 0 ∨ 4 < relayNumber ∨ 1 < stateValue then none
      else return ⟨relayNumber.toUInt8, Int16.ofNat stateValue, ipAddress⟩

def Tables.record (t : Tables) (report : RelayReport) : Tables :=
  (t.recordValue report.relayIndex.toUInt16 report.value).recordIp report.relayIndex report.ipAddress

theorem updateRelayStateWithIp_eq (line : Bytes) (t : Tables) :
    updateRelayStateWithIp line t = (relayReport line).map t.record := by
  cases line with
  | nil => rfl
  | cons b s =>
    unfold updateRelayStateWithIp relayReport
    by_cases hb : b ≠ 'R'
    · simp only [if_pos hb, Option.map_none]
    · simp only [if_neg hb]
      cases extractUnsigned 64 s with
      | none => rfl
      | some number =>
        simp only [Option.bind_eq_bind, Option.bind_some]
        cases extractUnsigned 64 number.2 with
        | none => rfl
        | some state =>
          simp only [Option.bind_some]
          cases nextWord state.2 with
          | none => rfl
          | some word =>
            simp only [Option.bind_some]
            split <;> rfl

/-- The address in the last report of a relay. -/
def lastIp (lines : List Bytes) (k : UInt8) : Option Bytes :=
  ((lines.filterMap relayReport).filter (·.relayIndex = k)).getLast?.map RelayReport.ipAddress

theorem lastIp_unreported (lines : List Bytes) {line : Bytes} (h : relayReport line = none)
    (k : UInt8) : lastIp (lines ++ [line]) k = lastIp lines k := by
  simp [lastIp, h]

theorem lastIp_reported (lines : List Bytes) {line : Bytes} {report : RelayReport}
    (h : relayReport line = some report) (k : UInt8) :
    lastIp (lines ++ [line]) k =
      if report.relayIndex = k then some report.ipAddress else lastIp lines k := by
  have hlast : [line].filterMap relayReport = [report] := by simp [h]
  unfold lastIp
  rw [List.filterMap_append, List.filter_append, hlast]
  by_cases hk : report.relayIndex = k <;> simp [hk]

theorem relayReport_index {line : Bytes} {report : RelayReport} (h : relayReport line = some report) :
    1 ≤ report.relayIndex ∧ report.relayIndex ≤ 4 := by
  cases line with
  | nil => cases h
  | cons b s =>
    unfold relayReport at h
    by_cases hb : b ≠ 'R'
    · simp only [if_pos hb] at h
      cases h
    · simp only [if_neg hb, Option.bind_eq_bind, Option.bind_eq_some_iff] at h
      obtain ⟨number, -, state, -, word, -, h⟩ := h
      split at h
      · cases h
      · next hrange =>
        cases h
        have hindex : number.1.toUInt8.toNat = number.1 := by
          rw [Nat.toUInt8, UInt8.toNat_ofNat']
          omega
        rw [UInt8.le_iff_toNat_le, UInt8.le_iff_toNat_le, hindex]
        exact ⟨by change 1 ≤ number.1; omega, by change number.1 ≤ 4; omega⟩

/-- A relay shows the address of its last report, and has a value once it was reported. -/
structure Shows (lines : List Bytes) (t : Tables) : Prop where
  relays : ∀ k : UInt8, t.relays[k]? = (relayMetadata[k]?).map fun metadata =>
    { metadata with ipAddress := (lastIp lines k).getD metadata.ipAddress }
  reported : ∀ k : UInt8, lastIp lines k ≠ none → k.toUInt16 ∈ t.lastValues

theorem Tables.mem_recordValue (t : Tables) (address k : UInt16) (value : Int16) :
    k ∈ (t.recordValue address value).lastValues ↔ address = k ∨ k ∈ t.lastValues := by
  rw [Std.ExtTreeMap.mem_iff_isSome_getElem?, t.recordValue_lastValues,
    Std.ExtTreeMap.mem_iff_isSome_getElem?]
  split
  · next h => simp [h]
  · next h => simp [h]

theorem shows_nil : Shows [] {} := by
  refine ⟨fun k => ?_, fun k h => absurd rfl h⟩
  exact Option.map_id'.symm

theorem Shows.handleLine {lines : List Bytes} {t : Tables} (h : Shows lines t) (line : Bytes) :
    Shows (lines ++ [line]) (handleLine line t).2 := by
  unfold Monitor.handleLine
  rw [updateRelayStateWithIp_eq]
  cases hreport : relayReport line with
  | some report =>
    simp only [Option.map_some]
    refine ⟨fun k => ?_, fun k hk => ?_⟩
    · rw [Tables.record, Tables.recordIp_relays, Tables.recordValue_relays, h.relays,
        lastIp_reported lines hreport, Option.map_map]
      congr 1
      funext metadata
      split
      · rfl
      · rfl
    · rw [Tables.record, Tables.recordIp_lastValues, Tables.mem_recordValue]
      rw [lastIp_reported lines hreport] at hk
      split at hk
      · next heq => exact Or.inl (by rw [heq])
      · exact Or.inr (h.reported k hk)
  | none =>
    have hsame : Shows (lines ++ [line]) t := by
      refine ⟨fun k => ?_, fun k hk => ?_⟩
      · rw [lastIp_unreported lines hreport]
        exact h.relays k
      · rw [lastIp_unreported lines hreport] at hk
        exact h.reported k hk
    simp only [Option.map_none]
    cases hvalue : updateAddressValue line t with
    | none => exact hsame
    | some t' =>
      simp only [updateAddressValue, Option.bind_eq_bind, Option.bind_eq_some_iff] at hvalue
      obtain ⟨address, -, value, -, hvalue⟩ := hvalue
      split at hvalue
      · cases hvalue
      · cases hvalue
        refine ⟨fun k => ?_, fun k hk => ?_⟩
        · rw [Tables.recordValue_relays]
          exact hsame.relays k
        · rw [Tables.mem_recordValue]
          exact Or.inr (hsame.reported k hk)

theorem shows_handleLines (lines : List Bytes) : Shows lines (handleLines lines {}) := by
  induction lines using List.reverseRecOn with
  | nil => exact shows_nil
  | append_singleton lines line ih =>
    rw [handleLines_append]
    exact ih.handleLine line

/-! ## The file as JSON -/

/-- The names and addresses of the relays can be printed. -/
def Printable (relays : RelayTable) : Prop :=
  ∀ (k : UInt8) (relayInfo : RelayMetadata), relays[k]? = some relayInfo →
    Clean relayInfo.name ∧ Clean relayInfo.ipAddress

theorem isChars_registerName {relays : RelayTable} (h : Printable relays) (address : UInt16) :
    IsChars (registerName relays address) := by
  have hopen : Unescaped (ascii " (") := by unfold Unescaped; decide +kernel
  have hclose : Unescaped (ascii ")") := by unfold Unescaped; decide +kernel
  unfold registerName
  split
  · next relayInfo hrelay =>
    obtain ⟨hname, hip⟩ := h _ _ hrelay
    refine (isChars_jsonEscape hname).append ?_
    split
    · exact .nil
    · exact (isChars_unescaped hopen).append ((isChars_jsonEscape hip).append
        (isChars_unescaped hclose))
  · split
    · next metadata hregister => exact isChars_jsonEscape (registerMetadata_entry hregister).1
    · exact .nil

theorem derives_registerEntry {relays : RelayTable} (h : Printable relays)
    (entry : UInt16 × Int16) : Derives .items (registerEntry relays entry) := by
  have hkeys : Unescaped (ascii "address") ∧ Unescaped (ascii "name") ∧
      Unescaped (ascii "value") := by
    unfold Unescaped
    decide +kernel
  have haddress : Derives .members (ascii "\"address\":" ++ decimal entry.1.toNat) :=
    derives_member hkeys.1 (.number (isNumber_decimal _))
  have hname : Derives .members
      (ascii "\"name\":\"" ++ (registerName relays entry.1 ++ ascii "\"")) :=
    derives_member hkeys.2.1 (.string (.intro (isChars_registerName h entry.1)))
  have hvalue : Derives .members (ascii "\"value\":" ++
      formatGeneral 6 (getScaledRegisterValue relays entry.1 entry.2)) :=
    derives_member hkeys.2.2 (.number (isNumber_formatGeneral 6
      (isFinite_getScaledRegisterValue relays entry.1 entry.2)))
  have hclosed : ClosedBy .members (ascii "\x7d") _ :=
    ClosedBy.cons haddress (ClosedBy.cons hname (.intro hvalue) Shape.noConfusion) Shape.noConfusion
  have hspaces : IsWs (ascii "  ") := by
    unfold IsWs
    decide +kernel
  have hitem := hclosed.object.lone_item.ws_left hspaces Shape.noConfusion
  simp only [List.append_assoc] at hitem
  simp only [registerEntry, List.append_assoc]
  exact hitem

theorem isJson_registersFileText {t : Tables} (h : Printable t.relays) :
    IsJson (registersFileText t) := by
  have hbreak : IsWs (ascii "\n") := by
    unfold IsWs
    decide +kernel
  have hitems : ∀ v ∈ t.lastValues.toList.map (registerEntry t.relays), Derives .items v := by
    intro v hv
    obtain ⟨entry, -, rfl⟩ := List.mem_map.mp hv
    exact derives_registerEntry h entry
  have hvalue : Derives .value (('[' : Byte) :: ((ascii "\n" ++
      ((ascii ",\n").intercalate (t.lastValues.toList.map (registerEntry t.relays)) ++ ascii "\n")) ++
        ascii "]")) := by
    by_cases hne : t.lastValues.toList.map (registerEntry t.relays) = []
    · rw [hne]
      exact .emptyArray (hbreak.append hbreak)
    · have hlist := items_intercalate hitems hne hbreak
      exact .array ((hlist.ws_right hbreak Shape.noConfusion).ws_left hbreak Shape.noConfusion)
  have hjson := IsJson.intro isWs_nil hvalue hbreak
  rw [List.nil_append] at hjson
  unfold registersFileText
  simp only [List.append_assoc, List.cons_append] at hjson ⊢
  exact hjson

theorem Shows.printable {lines : List Bytes} {t : Tables} (h : Shows lines t)
    (hclean : ∀ (k : UInt8) (ip : Bytes), lastIp lines k = some ip → Clean ip) :
    Printable t.relays := by
  intro k relayInfo hrelay
  rw [h.relays] at hrelay
  obtain ⟨metadata, hmetadata, rfl⟩ := Option.map_eq_some_iff.mp hrelay
  obtain ⟨hname, hempty⟩ := relayMetadata_entry hmetadata
  refine ⟨hname, ?_⟩
  cases hlast : lastIp lines k with
  | none =>
    simp only [Option.getD_none, hempty]
    exact clean_of_all (by simp)
  | some ip => exact hclean k ip hlast

theorem lastIp_index {lines : List Bytes} {k : UInt8} {ip : Bytes} (h : lastIp lines k = some ip) :
    1 ≤ k ∧ k ≤ 4 := by
  obtain ⟨report, hreport, -⟩ := Option.map_eq_some_iff.mp h
  obtain ⟨hmem, hindex⟩ := List.mem_filter.mp (List.mem_of_getLast? hreport)
  obtain ⟨line, -, hline⟩ := List.mem_filterMap.mp hmem
  rw [← of_decide_eq_true hindex]
  exact relayReport_index hline

/-- An address that was reported is printed. -/
theorem Shows.clean {lines : List Bytes} {t : Tables} (h : Shows lines t)
    (hplain : Plain (registersFileText t)) {k : UInt8} {ip : Bytes}
    (hlast : lastIp lines k = some ip) : Clean ip := by
  have hmem : k.toUInt16 ∈ t.lastValues := h.reported k (by simp [hlast])
  obtain ⟨value, hvalue⟩ := Std.ExtTreeMap.mem_iff_isSome_getElem?.mp hmem |> Option.isSome_iff_exists.mp
  have hentry := List.mem_map_of_mem (f := registerEntry t.relays)
    (Std.ExtTreeMap.mem_toList_iff_getElem?_eq_some.mpr hvalue)
  simp only [registersFileText, plain_append] at hplain
  have hplain := plain_of_mem_intercalate hplain.1.2 hentry
  simp only [registerEntry, plain_append] at hplain
  have hname := hplain.1.1.1.1.2
  have hlow : k.toUInt16.toUInt8 = k := by simp
  obtain ⟨metadata, hmetadata⟩ := Option.isSome_iff_exists.mp
    (Std.ExtTreeMap.mem_iff_isSome_getElem?.mp ((mem_relayMetadata k).mpr (lastIp_index hlast)))
  have hrelay : getRelayMetadata t.relays k.toUInt16 = some { metadata with ipAddress := ip } := by
    rw [getRelayMetadata, hlow, h.relays, hmetadata, hlast]
    rfl
  rw [registerName, hrelay] at hname
  simp only [plain_append] at hname
  by_cases hempty : ip = []
  · rw [hempty]
    exact clean_of_all (by simp)
  · rw [if_neg hempty, plain_append, plain_append] at hname
    exact plain_jsonEscape_iff.mp hname.2.2.1

/-- The file after any lines from the devices. -/
theorem registersFileText_isJson_iff (lines : List Bytes) :
    IsJson (registersFileText (handleLines lines {})) ↔
      ∀ (k : UInt8) (ip : Bytes), lastIp lines k = some ip → Clean ip := by
  have hshows := shows_handleLines lines
  constructor
  · exact fun hjson k ip hlast => hshows.clean hjson.plain hlast
  · exact fun hclean => isJson_registersFileText (hshows.printable hclean)

end InverterMonitor.Monitor
