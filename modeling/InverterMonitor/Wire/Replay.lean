import InverterMonitor.Wire.Telemetry
import InverterMonitor.Wire.RelayCommands

/-!
# Commands, reports and the relay replay

A `RELAY` command switches the plug at once and travels to the firmware; the
firmware's reports travel back; every five minutes the server switches the plugs
to the last report.  Commands, deliveries, reports and replays happen in any order.

* `System.Tracked`: the server's entry of a relay is its last received report, and
  a plug is what the last command or replay made of it (`run_tracked`);
* `replay_keeps_iff`: the replays of a run undo no command exactly when each of
  them finds up-to-date reports;
* `replay_undoes_on`: a run in which one does not.
-/

namespace InverterMonitor.Wire
open Text Cxx Monitor Firmware Runs

/-! ## The three parties -/

/-- `RELAY n ON` or `RELAY n OFF`. -/
def relayCommand (i : Fin 4) (on : Bool) : Bytes :=
  ascii "RELAY " ++ (decimal (i + 1) ++ (' ' : Byte) :: if on then ascii "ON" else ascii "OFF")

/-- A line of `printRelaysState`. -/
structure RelayReport where
  relay : Fin 4
  state : Bool
  ip : Option IpAddress

def RelayReport.line (report : RelayReport) : Bytes :=
  relayLine report.relay report.state report.ip

def printRelaysState (relays : Relays) : List RelayReport :=
  (List.finRange 4).map fun i => ⟨i, relays.states i, relays.ips i⟩

structure System where
  plugs : Plugs := fun _ => none
  tables : Tables := {}
  /-- Commands that the firmware has not read. -/
  commands : List Bytes := []
  /-- What the firmware has read of a line. -/
  commandLine : Bytes := []
  relays : Relays := {}
  /-- Reports that the server has not read. -/
  reports : List RelayReport := []

namespace System

/-- `parseCommand` on the server. -/
def command (s : System) (line : Bytes) : System :=
  let (switch, outgoing) := parseCommand line
  { s with
    plugs := match switch with
      | some switch => executeRelaySwitch s.plugs switch
      | none => s.plugs
    commands := s.commands ++ [outgoing] }

/-- The firmware reads a command. -/
def deliver (s : System) (outgoing : Bytes) (commands : List Bytes) : System :=
  let (commandLine, relays) := processTcpCommands outgoing s.commandLine s.relays
  { s with commands := commands, commandLine := commandLine, relays := relays }

def report (s : System) : System := { s with reports := s.reports ++ printRelaysState s.relays }

/-- The server reads a report. -/
def receive (s : System) (report : RelayReport) (reports : List RelayReport) : System :=
  { s with tables := (handleLine report.line s.tables).2, reports := reports }

def replayed (s : System) : System := { s with plugs := replay s.tables.lastValues s.plugs }

end System

inductive Event
  | commanded (relay : Fin 4) (on : Bool)
  | delivered
  | printed
  | received (report : RelayReport)
  | replayed (plugs : Plugs)

/-- The steps; the messages of each direction arrive in order. -/
inductive SystemStep : System → System → List Event → Prop
  | command (s : System) (i : Fin 4) (on : Bool) :
      SystemStep s (s.command (relayCommand i on)) [.commanded i on]
  | deliver (s : System) {outgoing : Bytes} {commands : List Bytes}
      (h : s.commands = outgoing :: commands) :
      SystemStep s (s.deliver outgoing commands) [.delivered]
  | print (s : System) : SystemStep s s.report [.printed]
  | receive (s : System) (report : RelayReport) {reports : List RelayReport}
      (h : s.reports = report :: reports) :
      SystemStep s (s.receive report reports) [.received report]
  | replay (s : System) : SystemStep s s.replayed [.replayed s.replayed.plugs]

/-! ## What one step does -/

theorem relaySwitch_relayCommand (i : Fin 4) (on : Bool) :
    relaySwitch (relayCommand i on) = some ⟨relayIndex i, stateValue on⟩ := by
  have hall : ∀ (i : Fin 4) (on : Bool),
      relaySwitch (relayCommand i on) = some ⟨relayIndex i, stateValue on⟩ := by decide
  exact hall i on

theorem decide_stateValue (on : Bool) : decide (stateValue on ≠ 0) = on := by
  cases on <;> decide

theorem replayed_plugs (s : System) (i : Fin 4) :
    s.replayed.plugs (relayIndex i) =
      (s.tables.lastValues[(relayIndex i).toUInt16]?.map (decide <| · ≠ 0)).or
        (s.plugs (relayIndex i)) := by
  have hmem : relayIndex i ∈ relayIndices := by
    fin_cases i <;> decide
  change replayRelays s.tables.lastValues s.plugs relayIndices (relayIndex i) = _
  rw [replayRelays_apply, if_pos hmem]

theorem command_plugs (s : System) (i j : Fin 4) (on : Bool) :
    (s.command (relayCommand i on)).plugs (relayIndex j) =
      if i = j then some on else s.plugs (relayIndex j) := by
  have hindex : relayIndex j = relayIndex i ↔ i = j := by
    rw [relayIndex_eq_iff, relayIndex_toNat, Fin.ext_iff]
    omega
  simp only [System.command, parseCommand, relaySwitch_relayCommand, executeRelaySwitch,
    Function.update_apply, hindex, decide_stateValue]

theorem receive_lastValues (s : System) (report : RelayReport) (reports : List RelayReport)
    (i : Fin 4) :
    (s.receive report reports).tables.lastValues[(relayIndex i).toUInt16]? =
      if report.relay = i then some (stateValue report.state)
      else s.tables.lastValues[(relayIndex i).toUInt16]? := by
  have hindex : (relayIndex report.relay).toUInt16 = (relayIndex i).toUInt16 ↔
      report.relay = i := by
    rw [relayAddress_eq_iff, UInt8.toNat_toUInt16, relayIndex_toNat, Fin.ext_iff]
    omega
  simp only [System.receive, RelayReport.line, handleLine_relayLine, Tables.recordIp_lastValues,
    Tables.recordValue_lastValues, hindex]

/-! ## Histories -/

/-- The state that an event commands for a relay. -/
def commandOf (i : Fin 4) : Event → Option Bool
  | .commanded j on => if j = i then some on else none
  | _ => none

/-- The state that an event reports for a relay. -/
def reportOf (i : Fin 4) : Event → Option Bool
  | .received report => if report.relay = i then some report.state else none
  | _ => none

/-- What an event makes of a relay's plug. -/
def plugOf (i : Fin 4) : Event → Option Bool → Option Bool
  | .commanded j on, was => if j = i then some on else was
  | .replayed plugs, _ => plugs (relayIndex i)
  | _, was => was

/-- The plug of a relay after a history from the start. -/
def plugAfter (history : List Event) (i : Fin 4) : Option Bool := follow (plugOf i) history none

/-- A replay switches the plugs to the last received reports. -/
def FollowsReports (before : List Event) (event : Event) : Prop :=
  ∀ plugs, event = .replayed plugs → ∀ i,
    plugs (relayIndex i) = (last (reportOf i) before).or (plugAfter before i)

structure System.Tracked (s : System) (history : List Event) : Prop where
  values : ∀ i : Fin 4, s.tables.lastValues[(relayIndex i).toUInt16]? =
    (last (reportOf i) history).map stateValue
  plugs : ∀ i : Fin 4, s.plugs (relayIndex i) = plugAfter history i
  lawful : Lawful FollowsReports history

namespace System.Tracked

theorem start : System.Tracked {} [] := by
  refine ⟨fun i => ?_, fun i => rfl, Lawful.nil⟩
  simp

/-- One event, whose effects on the entries and the plugs are those it records. -/
theorem event {s s' : System} {history : List Event} {event : Event}
    (h : s.Tracked history)
    (hvalues : ∀ i : Fin 4, s'.tables.lastValues[(relayIndex i).toUInt16]? =
      ((reportOf i event).map stateValue).or s.tables.lastValues[(relayIndex i).toUInt16]?)
    (hplugs : ∀ i : Fin 4, s'.plugs (relayIndex i) = plugOf i event (s.plugs (relayIndex i)))
    (hlaw : FollowsReports history event) : s'.Tracked (history ++ [event]) := by
  refine ⟨fun i => ?_, fun i => ?_, h.lawful.concat hlaw⟩
  · rw [hvalues, h.values, last_concat]
    cases reportOf i event <;> rfl
  · rw [hplugs, h.plugs, plugAfter, plugAfter, follow_append]
    rfl

end System.Tracked

/-- The step lemma. -/
theorem SystemStep.tracked {s s' : System} {history events : List Event}
    (hstep : SystemStep s s' events) (h : s.Tracked history) :
    s'.Tracked (history ++ events) := by
  cases hstep with
  | command i on =>
    refine h.event (fun j => ?_) (fun j => command_plugs s i j on) (by simp [FollowsReports])
    rfl
  | deliver hcommands =>
    exact h.event (fun j => rfl) (fun j => rfl) (by simp [FollowsReports])
  | print => exact h.event (fun j => rfl) (fun j => rfl) (by simp [FollowsReports])
  | receive report hreports =>
    refine h.event (fun j => ?_) (fun j => rfl) (by simp [FollowsReports])
    rw [receive_lastValues]
    by_cases hj : report.relay = j <;> simp [reportOf, hj]
  | replay =>
    refine h.event (fun j => rfl) (fun j => rfl) ?_
    rintro plugs ⟨rfl⟩ i
    rw [replayed_plugs, h.values, h.plugs, Option.map_map]
    have hstate : (fun value : Int16 => decide (value ≠ 0)) ∘ stateValue = id :=
      funext decide_stateValue
    rw [hstate, Option.map_id, id]

theorem run_tracked {s : System} {history : List Event} (h : Run SystemStep {} s history) :
    s.Tracked history :=
  h.invariant System.Tracked.start fun _ _ _ _ htracked hstep => hstep.tracked htracked

/-! ## Replays and commands -/

/-- After a replay the plug of every commanded relay is in the state of the last command. -/
def KeepsCommands (before : List Event) (event : Event) : Prop :=
  ∀ plugs, event = .replayed plugs → ∀ i on,
    last (commandOf i) before = some on → plugs (relayIndex i) = some on

/-- At a replay the last received report of every commanded relay, if there is one,
shows the state of the last command. -/
def ReportsCurrent (before : List Event) (event : Event) : Prop :=
  ∀ plugs, event = .replayed plugs → ∀ i on state,
    last (commandOf i) before = some on → last (reportOf i) before = some state → state = on

/-- While the reports are current at every replay, the plugs are in the commanded states. -/
theorem plugAfter_commanded {history : List Event} (hlaw : Lawful FollowsReports history)
    (hcurrent : Lawful ReportsCurrent history) {i : Fin 4} {on : Bool}
    (hon : last (commandOf i) history = some on) : plugAfter history i = some on := by
  induction history using List.reverseRecOn with
  | nil => cases hon
  | append_singleton history event ih =>
    have hbefore := ih hlaw.of_append hcurrent.of_append
    rw [last_concat] at hon
    rw [plugAfter, follow_append, ← plugAfter, follow_cons, follow_nil]
    cases event with
    | commanded j on' =>
      by_cases hj : j = i
      · simpa [commandOf, plugOf, hj] using hon
      · simp only [commandOf, hj, ↓reduceIte, Option.none_or] at hon
        simpa [plugOf, hj] using hbefore hon
    | replayed plugs =>
      have hon : last (commandOf i) history = some on := hon
      change plugs (relayIndex i) = some on
      rw [hlaw.at_end plugs rfl i]
      cases hreport : last (reportOf i) history with
      | none => rw [Option.none_or, hbefore hon]
      | some state => rw [Option.some_or, hcurrent.at_end plugs rfl i on state hon hreport]
    | delivered => exact hbefore hon
    | printed => exact hbefore hon
    | received report => exact hbefore hon

/-- In a run no replay undoes a command exactly when at every replay the received
reports are current. -/
theorem replay_keeps_iff {s : System} {history : List Event} (h : Run SystemStep {} s history) :
    Lawful KeepsCommands history ↔ Lawful ReportsCurrent history := by
  have hlaw := (run_tracked h).lawful
  constructor
  · intro hkeeps before event after heq plugs hevent i on state hon hreport
    have hkept := hkeeps before event after heq plugs hevent i on hon
    rw [hlaw before event after heq plugs hevent i, hreport, Option.some_or] at hkept
    exact Option.some.inj hkept
  · intro hcurrent before event after heq plugs hevent i on hon
    have hbefore : plugAfter before i = some on :=
      plugAfter_commanded (heq ▸ hlaw).of_append (heq ▸ hcurrent).of_append hon
    rw [hlaw before event after heq plugs hevent i]
    cases hreport : last (reportOf i) before with
    | none => rw [Option.none_or, hbefore]
    | some state =>
      rw [Option.some_or, hcurrent before event after heq plugs hevent i on state hon hreport]

/-- Relay 1 is switched on, reports this, and is still on after a replay. -/
theorem replay_keeps_on :
    ∃ s history, Run SystemStep {} s history ∧ last (commandOf 0) history = some true ∧
      Lawful KeepsCommands history := by
  have hcommand := Run.start.next (SystemStep.command {} 0 true)
  have hdeliver := hcommand.next (.deliver _ rfl)
  have hprint := hdeliver.next (.print _)
  have hreceive := hprint.next (.receive _ ⟨0, true, none⟩ rfl)
  have hreplay := hreceive.next (.replay _)
  refine ⟨_, _, hreplay, rfl, (replay_keeps_iff hreplay).mpr ?_⟩
  have hothers : Lawful ReportsCurrent
      [.commanded 0 true, .delivered, .printed, .received ⟨0, true, none⟩] :=
    (((Lawful.nil.concat (by simp [ReportsCurrent])).concat (by simp [ReportsCurrent])).concat
      (by simp [ReportsCurrent])).concat (by simp [ReportsCurrent])
  refine hothers.concat fun plugs _ i on state hon hreport => ?_
  by_cases hi : i = 0
  · subst hi
    cases hon
    cases hreport
    rfl
  · simp [last_cons, commandOf, Ne.symm hi] at hon

/-- A report that is older than the last command makes the replay undo it. -/
theorem replay_undoes_on :
    ∃ s before plugs, Run SystemStep {} s (before ++ [.replayed plugs]) ∧
      last (commandOf 0) before = some true ∧ plugs (relayIndex 0) = some false ∧
      ¬Lawful KeepsCommands (before ++ [.replayed plugs]) := by
  have hprint := Run.start.next (SystemStep.print {})
  have hreceive := hprint.next (.receive _ ⟨0, false, none⟩ rfl)
  have hcommand := hreceive.next (.command _ 0 true)
  have hreplay := hcommand.next (.replay _)
  have hlaw := (run_tracked hreplay).lawful.at_end _ rfl 0
  refine ⟨_, _, _, hreplay, rfl, hlaw, fun hkeeps => ?_⟩
  have hkept := hkeeps.at_end _ rfl 0 true rfl
  rw [hlaw] at hkept
  cases hkept

end InverterMonitor.Wire
