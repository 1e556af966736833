import InverterMonitor.Firmware.Commands
import InverterMonitor.Runs.History
import InverterMonitor.Text.Lines

/-!
# The TCP command clients of the devices

`processTcpCommands` of `inverter.ino` and `temperature.ino` reads a client byte
by byte and keeps the unfinished line in a global string, which outlives the
connection.  A client is connected again by `loop`, `connectToMonitorServer` or
`connectToWiFi`, between any two bytes.  Proved here:

* `processTcpCommands_readBytes`: the loop of the inverter makes these rounds;
* `Tracked`: what the buffer holds is determined by the bytes of the connection;
* `handled_lines_own`: where every connection finds an empty buffer and no line
  outgrows it, the lines handed over are the lines of the open connection;
* `connection_continues_line`: after a connection that finds a line begun, a line
  can be handed over that is not its own, and `handled_line_of_another_connection`
  is a run with one.
-/

namespace InverterMonitor.Firmware
open Text Cxx Runs

/-! ## Reading -/

/-- One round of the loop: the line that is handed to `handleCommand`, and the buffer. -/
def readByte (c : Byte) (commandLine : Bytes) : Option Bytes × Bytes :=
  if c = '\r' then (none, commandLine)
  else if c = '\n' then (some commandLine, [])
  else if commandLine.length < maxCommandLineLength then (none, commandLine ++ [c])
  else (none, commandLine)

/-- The rounds for the available bytes. -/
def readBytes : Bytes → Bytes → List Bytes × Bytes
  | [], commandLine => ([], commandLine)
  | c :: input, commandLine =>
    ((readByte c commandLine).1.toList ++ (readBytes input (readByte c commandLine).2).1,
      (readBytes input (readByte c commandLine).2).2)

theorem processTcpCommands_readBytes (input commandLine : Bytes) (relays : Relays) :
    processTcpCommands input commandLine relays =
      ((readBytes input commandLine).2,
        (readBytes input commandLine).1.foldl (fun relays line => handleCommand line relays)
          relays) := by
  induction input generalizing commandLine relays with
  | nil => rfl
  | cons c input ih =>
    simp only [processTcpCommands, readBytes, readByte]
    split
    · exact ih commandLine relays
    · split
      · exact ih [] (handleCommand commandLine relays)
      · split
        · exact ih (commandLine ++ [c]) relays
        · exact ih commandLine relays

/-- A line without its carriage returns. -/
def dropReturns (line : Bytes) : Bytes := line.filter (· ≠ carriageReturn)

/-- The byte is kept, or need not be. -/
def Fits (c : Byte) (commandLine : Bytes) : Prop :=
  c = carriageReturn ∨ c = newline ∨ commandLine.length < maxCommandLineLength

instance (c : Byte) (commandLine : Bytes) : Decidable (Fits c commandLine) := by
  unfold Fits
  infer_instance

theorem readByte_newline (commandLine : Bytes) :
    readByte newline commandLine = (some commandLine, []) := rfl

/-- A byte that fits extends the line by itself, or by nothing. -/
theorem readByte_fits {c : Byte} {unfinished : Bytes} (hc : c ≠ newline)
    (hfits : Fits c (dropReturns unfinished)) :
    readByte c (dropReturns unfinished) = (none, dropReturns (unfinished ++ [c])) := by
  unfold dropReturns at *
  by_cases hreturn : c = carriageReturn
  · subst hreturn
    simp [readByte, show (carriageReturn : Byte) = '\r' from rfl]
  · have hroom := (hfits.resolve_left hreturn).resolve_left hc
    have hkept : [c].filter (· ≠ carriageReturn) = [c] := by simp [hreturn]
    have hreturn' : c ≠ '\r' := hreturn
    have hc' : c ≠ '\n' := hc
    rw [List.filter_append, hkept, readByte, if_neg hreturn', if_neg hc', if_pos hroom]

/-! ## Connections -/

/-- A client: what it has received and not read, and the line that is being read. -/
structure TcpClient where
  connected : Bool := false
  available : Bytes := []
  commandLine : Bytes := []

inductive ClientEvent
  | connected
  | disconnected
  | received (chunk : Bytes)
  | read (c : Byte)
  | handled (line : Bytes)

/-- The steps of a client.  What was not read of a connection is lost with it. -/
inductive ClientStep : TcpClient → TcpClient → List ClientEvent → Prop
  | connect (client : TcpClient) (hclosed : client.connected = false) :
      ClientStep client { client with connected := true, available := [] } [.connected]
  | disconnect (client : TcpClient) (hopen : client.connected = true) :
      ClientStep client { client with connected := false, available := [] } [.disconnected]
  | receive (client : TcpClient) (hopen : client.connected = true) (chunk : Bytes) :
      ClientStep client { client with available := client.available ++ chunk } [.received chunk]
  | read (client : TcpClient) (hopen : client.connected = true) {c : Byte} {rest : Bytes}
      (havailable : client.available = c :: rest) :
      ClientStep client
        { client with available := rest, commandLine := (readByte c client.commandLine).2 }
        (.read c :: (readByte c client.commandLine).1.toList.map .handled)

namespace ClientEvent

/-- The bytes received on the connection that is open after the event. -/
def stream : ClientEvent → Bytes → Bytes
  | .connected, _ => []
  | .received chunk, was => was ++ chunk
  | _, was => was

/-- The bytes read on it. -/
def bytesRead : ClientEvent → Bytes → Bytes
  | .connected, _ => []
  | .read c, was => was ++ [c]
  | _, was => was

/-- The number of lines handed over on it. -/
def handledCount : ClientEvent → Nat → Nat
  | .connected, _ => 0
  | .handled _, n => n + 1
  | _, n => n

end ClientEvent

section After

variable (history : List ClientEvent)

def streamAfter : Bytes := follow ClientEvent.stream history []

def bytesReadAfter : Bytes := follow ClientEvent.bytesRead history []

def handledCountAfter : Nat := follow ClientEvent.handledCount history 0

@[simp] theorem streamAfter_concat (event : ClientEvent) :
    streamAfter (history ++ [event]) = event.stream (streamAfter history) :=
  follow_append _ history [event] []

@[simp] theorem bytesReadAfter_concat (event : ClientEvent) :
    bytesReadAfter (history ++ [event]) = event.bytesRead (bytesReadAfter history) :=
  follow_append _ history [event] []

@[simp] theorem handledCountAfter_concat (event : ClientEvent) :
    handledCountAfter (history ++ [event]) = event.handledCount (handledCountAfter history) :=
  follow_append _ history [event] 0

end After

/-- A line that is handed over is, without its carriage returns, the next
complete line of the open connection. -/
def OwnLine (before : List ClientEvent) : ClientEvent → Prop
  | .handled line => ∃ own,
      (splitLines (streamAfter before)).1[handledCountAfter before]? = some own ∧
        line = dropReturns own
  | _ => True

/-- A step in which a new connection finds an empty buffer and a byte that is read fits. -/
def CleanStep (client client' : TcpClient) (events : List ClientEvent) : Prop :=
  ClientStep client client' events ∧ (.connected ∈ events → client.commandLine = []) ∧
    ∀ c, .read c ∈ events → Fits c client.commandLine

/-! ## The buffer of a connection -/

structure Tracked (client : TcpClient) (history : List ClientEvent) : Prop where
  /-- What is available follows the bytes read. -/
  stream : client.connected = true →
    bytesReadAfter history ++ client.available = streamAfter history
  handled : handledCountAfter history = (splitLines (bytesReadAfter history)).1.length
  commandLine : client.commandLine = dropReturns (splitLines (bytesReadAfter history)).2

theorem splitLines_concat_newline (s : Bytes) :
    splitLines (s ++ [newline]) = ((splitLines s).1 ++ [(splitLines s).2], []) := by
  rw [splitLines_append, splitLines_line [] (newline_not_mem_rest s)]
  rfl

theorem splitLines_concat {c : Byte} (s : Bytes) (hc : c ≠ newline) :
    splitLines (s ++ [c]) = ((splitLines s).1, (splitLines s).2 ++ [c]) := by
  have hnot : newline ∉ (splitLines s).2 ++ [c] := by
    simp [newline_not_mem_rest, Ne.symm hc]
  rw [splitLines_append, splitLines_unfinished hnot, List.append_nil]

/-- Lines that are complete stay where they are. -/
theorem getElem?_splitLines_prefix {s t : Bytes} (h : s <+: t) {n : Nat} {line : Bytes}
    (hline : (splitLines s).1[n]? = some line) : (splitLines t).1[n]? = some line := by
  obtain ⟨rest, rfl⟩ := h
  rw [splitLines_append]
  exact List.getElem?_append_left (List.getElem?_eq_some_iff.mp hline).1 ▸ hline

namespace Tracked

variable {client : TcpClient} {history : List ClientEvent}

theorem fresh : Tracked {} [] := ⟨nofun, rfl, rfl⟩

/-- A byte that does not end the line. -/
theorem read {c : Byte} {rest : Bytes} (h : Tracked client history)
    (hopen : client.connected = true) (havailable : client.available = c :: rest)
    (hc : c ≠ newline) (hfits : Fits c client.commandLine) :
    readByte c client.commandLine =
        (none, dropReturns (splitLines (bytesReadAfter (history ++ [.read c]))).2) ∧
      Tracked { client with
        available := rest, commandLine := (readByte c client.commandLine).2 }
        (history ++ [.read c]) := by
  have hread : bytesReadAfter (history ++ [.read c]) = bytesReadAfter history ++ [c] :=
    bytesReadAfter_concat history (.read c)
  have hbuffer : readByte c client.commandLine =
      (none, dropReturns (splitLines (bytesReadAfter (history ++ [.read c]))).2) := by
    rw [h.commandLine] at hfits ⊢
    rw [readByte_fits hc hfits, hread, splitLines_concat _ hc]
  refine ⟨hbuffer, fun _ => ?_, ?_, ?_⟩
  · have hstream := h.stream hopen
    rw [havailable] at hstream
    rw [hread, List.append_assoc, streamAfter_concat]
    exact hstream
  · rw [hread, splitLines_concat _ hc, handledCountAfter_concat]
    exact h.handled
  · rw [hbuffer]

/-- The byte that ends the line: what is handed over is the next line of the connection. -/
theorem read_newline {rest : Bytes} (h : Tracked client history)
    (hopen : client.connected = true) (havailable : client.available = newline :: rest) :
    OwnLine (history ++ [.read newline]) (.handled client.commandLine) ∧
      Tracked { client with available := rest, commandLine := [] }
        (history ++ [.read newline] ++ [.handled client.commandLine]) := by
  have hstream : bytesReadAfter history ++ [newline] ++ rest = streamAfter history := by
    have hstream := h.stream hopen
    rw [havailable] at hstream
    simpa using hstream
  have hlines := splitLines_concat_newline (bytesReadAfter history)
  refine ⟨⟨(splitLines (bytesReadAfter history)).2, ?_, h.commandLine⟩, fun _ => ?_, ?_, ?_⟩
  · have hread : bytesReadAfter history ++ [newline] <+: streamAfter history := ⟨rest, hstream⟩
    have hcount : handledCountAfter (history ++ [.read newline]) =
        (splitLines (bytesReadAfter history)).1.length :=
      (handledCountAfter_concat history (.read newline)).trans h.handled
    rw [streamAfter_concat, hcount]
    apply getElem?_splitLines_prefix hread
    rw [hlines]
    exact List.getElem?_concat_length
  · simp only [bytesReadAfter_concat, streamAfter_concat, ClientEvent.bytesRead,
      ClientEvent.stream]
    exact hstream
  · simp only [bytesReadAfter_concat, handledCountAfter_concat, ClientEvent.bytesRead,
      ClientEvent.handledCount, hlines, h.handled, List.length_append, List.length_singleton]
  · simp only [bytesReadAfter_concat, ClientEvent.bytesRead, hlines]
    rfl

end Tracked

/-- The step lemma. -/
theorem CleanStep.tracked {client client' : TcpClient} {history events : List ClientEvent}
    (hstep : CleanStep client client' events) (h : Tracked client history)
    (hlawful : Lawful OwnLine history) :
    Tracked client' (history ++ events) ∧ Lawful OwnLine (history ++ events) := by
  obtain ⟨hstep, hconnect, hread⟩ := hstep
  cases hstep with
  | connect hclosed =>
    have hempty : client.commandLine = [] := hconnect (by simp)
    refine ⟨⟨fun _ => ?_, ?_, ?_⟩, hlawful.concat trivial⟩
    · simp [ClientEvent.bytesRead, ClientEvent.stream]
    · simp [ClientEvent.bytesRead, ClientEvent.handledCount]
    · simp [ClientEvent.bytesRead, hempty, dropReturns]
  | disconnect hopen =>
    refine ⟨⟨nofun, ?_, ?_⟩, hlawful.concat trivial⟩
    · simpa [ClientEvent.bytesRead, ClientEvent.handledCount] using h.handled
    · simpa [ClientEvent.bytesRead] using h.commandLine
  | receive hopen chunk =>
    refine ⟨⟨fun _ => ?_, ?_, ?_⟩, hlawful.concat trivial⟩
    · simp [ClientEvent.bytesRead, ClientEvent.stream, ← h.stream hopen]
    · simpa [ClientEvent.bytesRead, ClientEvent.handledCount] using h.handled
    · simpa [ClientEvent.bytesRead] using h.commandLine
  | @read hopen c rest havailable =>
    by_cases hc : c = newline
    · subst hc
      obtain ⟨hown, htracked⟩ := h.read_newline hopen havailable
      let events : List ClientEvent := [.read newline, .handled client.commandLine]
      have hsplit : history ++ events =
          history ++ [ClientEvent.read newline] ++ [ClientEvent.handled client.commandLine] :=
        List.append_cons ..
      rw [readByte_newline]
      change Tracked _ (history ++ events) ∧ Lawful OwnLine (history ++ events)
      have hread : Lawful OwnLine (history ++ [ClientEvent.read newline]) :=
        hlawful.concat trivial
      rw [hsplit]
      exact ⟨htracked, hread.concat hown⟩
    · obtain ⟨hbuffer, htracked⟩ := h.read hopen havailable hc (hread c (by simp))
      rw [hbuffer] at htracked ⊢
      exact ⟨htracked, hlawful.concat trivial⟩

/-- In every run whose connections find an empty buffer and whose lines fit, each
line handed over is, without its carriage returns, the next line of the open
connection. -/
theorem handled_lines_own {client : TcpClient} {history : List ClientEvent}
    (h : Run CleanStep {} client history) : Lawful OwnLine history := by
  refine (h.invariant (P := fun client history => Tracked client history ∧ Lawful OwnLine history)
    ⟨Tracked.fresh, Lawful.nil⟩ ?_).2
  rintro client client' history events ⟨htracked, hlawful⟩ hstep
  exact hstep.tracked htracked hlawful

/-! ## Runs that read a chunk -/

/-- The events of reading a chunk. -/
def readEvents : Bytes → Bytes → List ClientEvent
  | [], _ => []
  | c :: input, commandLine =>
    .read c :: (readByte c commandLine).1.toList.map .handled ++
      readEvents input (readByte c commandLine).2

theorem readByte_length (c : Byte) (commandLine : Bytes) :
    (readByte c commandLine).2.length ≤ commandLine.length + 1 := by
  unfold readByte
  split
  · exact Nat.le_succ _
  · split
    · exact Nat.zero_le _
    · split
      · exact Nat.le_of_eq (List.length_append ..)
      · exact Nat.le_succ _

/-- A chunk that fits into the buffer is read to its end, by steps that may ask
that every byte fits. -/
theorem run_readBytes {step : TcpClient → TcpClient → List ClientEvent → Prop}
    (hstep : ∀ client client' events, ClientStep client client' events → .connected ∉ events →
      (∀ c, .read c ∈ events → Fits c client.commandLine) → step client client' events)
    {start client : TcpClient} {history : List ClientEvent} (chunk : Bytes)
    (hopen : client.connected = true) (havailable : client.available = chunk)
    (hlength : client.commandLine.length + chunk.length ≤ maxCommandLineLength)
    (h : Run step start client history) :
    Run step start
      { client with available := [], commandLine := (readBytes chunk client.commandLine).2 }
      (history ++ readEvents chunk client.commandLine) := by
  induction chunk generalizing client history with
  | nil =>
    obtain ⟨_, available, _⟩ := client
    cases havailable
    rw [readEvents, List.append_nil]
    exact h
  | cons c chunk ih =>
    rw [List.length_cons] at hlength
    have hread := hstep _ _ _ (.read client hopen havailable) (by simp) (by
      intro c' hc'
      exact Or.inr (Or.inr (by omega)))
    have hbuffer := readByte_length c client.commandLine
    let read : TcpClient :=
      { client with available := chunk, commandLine := (readByte c client.commandLine).2 }
    have hfits : read.commandLine.length + chunk.length ≤ maxCommandLineLength := by
      show (readByte c client.commandLine).2.length + chunk.length ≤ _
      omega
    have hrest := @ih read _ hopen rfl hfits (h.next hread)
    rwa [List.append_assoc] at hrest

theorem handled_lines_own_reconnected :
    Lawful OwnLine
      (([.connected, .received (ascii "SIM ON\r\n")] ++ readEvents (ascii "SIM ON\r\n") []) ++
        [.disconnected, .connected, .received (ascii "20101 1\n")] ++
        readEvents (ascii "20101 1\n") []) := by
  have hstart : Run CleanStep {} {} [] := .start
  have hclean : ∀ client client' events, ClientStep client client' events →
      .connected ∉ events → (∀ c, .read c ∈ events → Fits c client.commandLine) →
      CleanStep client client' events :=
    fun _ _ _ hstep hconnect hread => ⟨hstep, fun h => absurd h hconnect, hread⟩
  have hfirst := (hstart.next ⟨.connect {} rfl, fun _ => rfl, by simp⟩).next
    ⟨.receive _ rfl (ascii "SIM ON\r\n"), by simp, by simp⟩
  have hread := run_readBytes hclean (ascii "SIM ON\r\n") rfl rfl (by decide) hfirst
  have hsecond := ((hread.next ⟨.disconnect _ rfl, by simp, by simp⟩).next
    ⟨.connect _ rfl, fun _ => rfl, by simp⟩).next
    ⟨.receive _ rfl (ascii "20101 1\n"), by simp, by simp⟩
  have hrun := run_readBytes hclean (ascii "20101 1\n") rfl rfl (by decide) hsecond
  exact handled_lines_own hrun

/-- After a connection that finds something in the buffer, an empty line is handed
over as the text found there. -/
theorem connection_continues_line {client : TcpClient} {history : List ClientEvent}
    (h : Run ClientStep {} client history) (hclosed : client.connected = false)
    (hbuffer : client.commandLine ≠ []) :
    ∃ client' after, Run ClientStep {} client' (history ++ .connected :: after) ∧
      ¬Lawful OwnLine (history ++ .connected :: after) := by
  have hconnect := h.next (.connect client hclosed)
  have hreceive := hconnect.next (.receive _ rfl [newline])
  have hread := hreceive.next (.read _ rfl rfl)
  have hsplit : history ++ [ClientEvent.connected] ++ [ClientEvent.received [newline]] ++
      (ClientEvent.read newline :: (readByte newline client.commandLine).1.toList.map .handled) =
      history ++ ClientEvent.connected ::
        [.received [newline], .read newline, .handled client.commandLine] := by
    rw [readByte_newline, List.append_assoc, List.append_assoc]
    rfl
  have hrun := hsplit ▸ hread
  refine ⟨_, _, hrun, fun hlawful => ?_⟩
  let before : List ClientEvent := history ++ [ClientEvent.connected] ++
    [ClientEvent.received [newline]] ++ [ClientEvent.read newline]
  obtain ⟨own, hline, hown⟩ := hlawful before (.handled client.commandLine) [] (by
    simp only [before, List.append_assoc, List.cons_append, List.nil_append])
  have hstream : streamAfter before = [newline] := by
    rw [streamAfter_concat, streamAfter_concat, streamAfter_concat]
    rfl
  have hcount : handledCountAfter before = 0 := by
    rw [handledCountAfter_concat, handledCountAfter_concat, handledCountAfter_concat]
    rfl
  rw [hstream, hcount] at hline
  cases hline
  exact hbuffer hown

/-- The unfinished line of a broken connection is put before the first line of
the next one. -/
theorem handled_line_of_another_connection :
    ∃ client history, Run ClientStep {} client history ∧ ¬Lawful OwnLine history := by
  have hstart : Run ClientStep {} {} [] := .start
  have hstep : ∀ client client' events, ClientStep client client' events →
      .connected ∉ events → (∀ c, .read c ∈ events → Fits c client.commandLine) →
      ClientStep client client' events := fun _ _ _ hstep _ _ => hstep
  have hfirst := (hstart.next (.connect {} rfl)).next (.receive _ rfl (ascii "20"))
  have hread := run_readBytes hstep (ascii "20") rfl rfl (by decide) hfirst
  have hsecond := ((hread.next (.disconnect _ rfl)).next (.connect _ rfl)).next
    (.receive _ rfl (ascii "101 0\n"))
  have hrun := run_readBytes hstep (ascii "101 0\n") rfl rfl (by decide) hsecond
  refine ⟨_, _, hrun, fun hlawful => ?_⟩
  obtain ⟨own, hline, hown⟩ := hlawful
    [.connected, .received (ascii "20"), .read '2', .read '0', .disconnected, .connected,
      .received (ascii "101 0\n"), .read '1', .read '0', .read '1', .read ' ', .read '0',
      .read newline] (.handled (ascii "20101 0")) [] rfl
  cases hline
  revert hown
  decide

end InverterMonitor.Firmware
