import InverterMonitor.Firmware.CommandClients
import InverterMonitor.Server.Loop

/-!
# Commands for many devices

`parseCommand` broadcasts a command to every client; the bytes travel in any pieces, and each
device reads them byte by byte.  Connections open, break and are dropped in between.

* `readByte_buffered`: what one byte makes of a line, however long;
* `NetworkStep.delivered`: one step, seen from one connection;
* `commands_delivered`: a device handles the commands of the server in the order in which they
  were sent, each once and none left out, up to what is still on its way, the first one behind
  what an earlier connection has left in its buffer;
* `commands_drained`: what is on its way can be delivered and read.
-/

namespace InverterMonitor.Wire
open Text Monitor Firmware Runs

/-! ## Lines in a buffer -/

/-- A line in the buffer of a device: without carriage returns, and cut at the buffer's end. -/
def bufferedLine (line : Bytes) : Bytes := (dropReturns line).take maxCommandLineLength

theorem dropReturns_concat (line : Bytes) {c : Byte} (h : c ≠ carriageReturn) :
    dropReturns (line ++ [c]) = dropReturns line ++ [c] := by
  have hkept : [c].filter (· ≠ carriageReturn) = [c] := by simp [h]
  rw [dropReturns, List.filter_append, hkept, dropReturns]

theorem bufferedLine_return (line : Bytes) :
    bufferedLine (line ++ [carriageReturn]) = bufferedLine line := by
  simp [bufferedLine, dropReturns]

/-- A byte that does not end the line. -/
theorem readByte_buffered {c : Byte} (line : Bytes) (hc : c ≠ newline) :
    readByte c (bufferedLine line) = (none, bufferedLine (line ++ [c])) := by
  by_cases hreturn : c = carriageReturn
  · subst hreturn
    rw [bufferedLine_return]
    rfl
  · have hreturn' : c ≠ '\r' := hreturn
    have hc' : c ≠ '\n' := hc
    have hlength : (bufferedLine line).length =
        min maxCommandLineLength (dropReturns line).length := List.length_take
    rw [readByte, if_neg hreturn', if_neg hc', hlength, bufferedLine, bufferedLine,
      dropReturns_concat line hreturn]
    split
    · next hroom =>
      have hfits : (dropReturns line).length < maxCommandLineLength := by omega
      have hlonger : (dropReturns line ++ [c]).length ≤ maxCommandLineLength := by
        rw [List.length_append]
        exact hfits
      rw [List.take_of_length_le hfits.le, List.take_of_length_le hlonger]
    · next hfull =>
      have hlong : maxCommandLineLength ≤ (dropReturns line).length := by omega
      rw [List.take_append_of_le_length hlong]

/-- A line begun, as a device may keep it from an earlier connection. -/
def Begun (line : Bytes) : Prop := newline ∉ line ∧ bufferedLine line = line

instance (line : Bytes) : Decidable (Begun line) := by
  unfold Begun
  infer_instance

/-! ## The network -/

/-- A connection, from the server's `send` to the device's buffer. -/
structure Link where
  inFlight : Bytes := []
  client : TcpClient := {}

namespace Link

/-- The first bytes on their way arrive; `rest` stays. -/
def deliver (link : Link) (chunk rest : Bytes) : Link where
  inFlight := rest
  client := { link.client with available := link.client.available ++ chunk }

/-- The device reads a byte. -/
def read (link : Link) (c : Byte) (rest : Bytes) : Link :=
  { link with
    client := { link.client with
      available := rest
      commandLine := (readByte c link.client.commandLine).2 } }

/-- The connection breaks. -/
def lose (link : Link) : Link where
  client := { commandLine := link.client.commandLine }

end Link

structure Network where
  loop : Loop := {}
  links : Nat → Link := fun _ => {}

namespace Network

def setLink (s : Network) (fd : Nat) (link : Link) : Network :=
  { s with links := Function.update s.links fd link }

@[simp] theorem setLink_self (s : Network) (fd : Nat) (link : Link) :
    (s.setLink fd link).links fd = link := Function.update_self ..

theorem setLink_other (s : Network) {fd other : Nat} (link : Link) (h : other ≠ fd) :
    (s.setLink fd link).links other = s.links other := Function.update_of_ne h ..

/-- The device finds the line `unread` in its buffer. -/
def accept (s : Network) (fd : Nat) (unread : Bytes) : Network :=
  { s with loop := s.loop.accept fd }.setLink fd
    { client := { connected := true, commandLine := unread } }

/-- `parseCommand`, for the clients. -/
def command (s : Network) (line : Bytes) (fails : Nat → Bool) : Network where
  loop := s.loop.broadcastToClients fails
  links fd :=
    if fd ∈ s.loop.clients ∧ fails fd = false then
      { s.links fd with inFlight := (s.links fd).inFlight ++ outgoing line }
    else s.links fd

end Network

inductive NetworkEvent
  | accepted (fd : Nat) (unread : Bytes)
  | sent (command : Bytes) (fds : List Nat)
  | handled (fd : Nat) (line : Bytes)

/-- Bytes of a connection are delivered, or the device reads one of them. -/
inductive LinkStep (fd : Nat) (s : Network) : Network → List NetworkEvent → Prop
  | deliver (hopen : (s.links fd).client.connected = true) {chunk rest : Bytes}
      (h : (s.links fd).inFlight = chunk ++ rest) :
      LinkStep fd s (s.setLink fd ((s.links fd).deliver chunk rest)) []
  | read (hopen : (s.links fd).client.connected = true) {c : Byte} {rest : Bytes}
      (h : (s.links fd).client.available = c :: rest) :
      LinkStep fd s (s.setLink fd ((s.links fd).read c rest))
        ((readByte c (s.links fd).client.commandLine).1.toList.map (.handled fd))

/-- The steps.  What a broken connection has not handed over is lost. -/
inductive NetworkStep : Network → Network → List NetworkEvent → Prop
  | accept (s : Network) {fd : Nat} (hfd : fd ∉ s.loop.clients) {unread : Bytes}
      (hunread : Begun unread) : NetworkStep s (s.accept fd unread) [.accepted fd unread]
  | receive (s : Network) {fd : Nat} (hfd : fd ∈ s.loop.clients) (chunk : Bytes) :
      NetworkStep s { s with loop := (s.loop.receive fd chunk).2 } []
  | stale (s : Network) {fd : Nat} (hfd : fd ∈ s.loop.clients) :
      NetworkStep s { s with loop := s.loop.removeClient fd } []
  | command (s : Network) (line : Bytes) (fails : Nat → Bool) :
      NetworkStep s (s.command line fails) [.sent line (s.loop.clients.filter fun fd => !fails fd)]
  | link (s s' : Network) {fd : Nat} {events : List NetworkEvent} (h : LinkStep fd s s' events) :
      NetworkStep s s' events
  | lose (s : Network) (fd : Nat) : NetworkStep s (s.setLink fd (s.links fd).lose) []

/-! ## One connection -/

namespace NetworkEvent

/-- The bytes sent on the last connection with the number. -/
def sentOn (fd : Nat) : NetworkEvent → Bytes → Bytes
  | .accepted other _, was => if other = fd then [] else was
  | .sent line fds, was => if fd ∈ fds then was ++ outgoing line else was
  | .handled _ _, was => was

/-- The commands of the server since that connection was accepted. -/
def commandsOn (fd : Nat) : NetworkEvent → List Bytes → List Bytes
  | .accepted other _, was => if other = fd then [] else was
  | .sent line _, was => was ++ [line]
  | .handled _ _, was => was

/-- The line that the device had begun when it was accepted. -/
def unreadOn (fd : Nat) : NetworkEvent → Bytes → Bytes
  | .accepted other unread, was => if other = fd then unread else was
  | _, was => was

/-- The lines that the device has handled on it. -/
def handledOn (fd : Nat) : NetworkEvent → List Bytes → List Bytes
  | .accepted other _, was => if other = fd then [] else was
  | .handled other line, was => if other = fd then was ++ [line] else was
  | .sent _ _, was => was

/-- The event belongs to another connection. -/
def Elsewhere (fd : Nat) : NetworkEvent → Prop
  | .accepted other _ => other ≠ fd
  | .sent _ _ => False
  | .handled other _ => other ≠ fd

end NetworkEvent

section After

variable (fd : Nat) (history : List NetworkEvent)

def sentAfter : Bytes := follow (NetworkEvent.sentOn fd) history []

def commandsAfter : List Bytes := follow (NetworkEvent.commandsOn fd) history []

def unreadAfter : Bytes := follow (NetworkEvent.unreadOn fd) history []

def handledAfter : List Bytes := follow (NetworkEvent.handledOn fd) history []

variable (device : Nat) (line : Bytes)

@[simp] theorem sentAfter_handled :
    sentAfter fd (history ++ [.handled device line]) = sentAfter fd history := follow_append ..

@[simp] theorem commandsAfter_handled :
    commandsAfter fd (history ++ [.handled device line]) = commandsAfter fd history :=
  follow_append ..

@[simp] theorem unreadAfter_handled :
    unreadAfter fd (history ++ [.handled device line]) = unreadAfter fd history := follow_append ..

@[simp] theorem handledAfter_handled :
    handledAfter fd (history ++ [.handled fd line]) = handledAfter fd history ++ [line] :=
  (follow_append ..).trans (if_pos rfl)

end After

/-- What has been read of a connection, and where the rest is. -/
structure Delivered (s : Network) (history : List NetworkEvent) (fd : Nat) (read : Bytes) :
    Prop where
  handled : handledAfter fd history =
    (splitLines (unreadAfter fd history ++ read)).1.map bufferedLine
  commandLine : (s.links fd).client.commandLine =
    bufferedLine (splitLines (unreadAfter fd history ++ read)).2
  order : read <+: sentAfter fd history
  stream : (s.links fd).client.connected = true →
    read ++ ((s.links fd).client.available ++ (s.links fd).inFlight) = sentAfter fd history
  complete : fd ∈ s.loop.clients →
    sentAfter fd history = (commandsAfter fd history).flatMap outgoing

namespace Delivered

variable {s s' : Network} {history events : List NetworkEvent} {fd : Nat} {read : Bytes}

/-- Nothing happens on this connection, unless it is dropped. -/
theorem other (h : Delivered s history fd read) (hlink : s'.links fd = s.links fd)
    (hclients : fd ∈ s'.loop.clients → fd ∈ s.loop.clients)
    (hevents : ∀ event ∈ events, NetworkEvent.Elsewhere fd event) :
    Delivered s' (history ++ events) fd read := by
  have hsame : ∀ {V : Type} (update : NetworkEvent → V → V) (value : V),
      (∀ other unread value, other ≠ fd → update (.accepted other unread) value = value) →
      (∀ other line value, other ≠ fd → update (.handled other line) value = value) →
      follow update (history ++ events) value = follow update history value := by
    intro V update value haccepted hhandled
    rw [follow_append]
    refine follow_unchanged fun event hevent => ?_
    have helsewhere := hevents event hevent
    cases event with
    | accepted other unread => exact haccepted other unread _ helsewhere
    | sent line fds => exact helsewhere.elim
    | handled other line => exact hhandled other line _ helsewhere
  have hsent : sentAfter fd (history ++ events) = sentAfter fd history :=
    hsame _ _ (fun _ _ _ h => if_neg h) fun _ _ _ _ => rfl
  have hcommands : commandsAfter fd (history ++ events) = commandsAfter fd history :=
    hsame _ _ (fun _ _ _ h => if_neg h) fun _ _ _ _ => rfl
  have hunread : unreadAfter fd (history ++ events) = unreadAfter fd history :=
    hsame _ _ (fun _ _ _ h => if_neg h) fun _ _ _ _ => rfl
  have hhandled : handledAfter fd (history ++ events) = handledAfter fd history :=
    hsame _ _ (fun _ _ _ h => if_neg h) fun _ _ _ h => if_neg h
  constructor
  · rw [hhandled, hunread]
    exact h.handled
  · rw [hlink, hunread]
    exact h.commandLine
  · rw [hsent]
    exact h.order
  · rw [hlink, hsent]
    exact h.stream
  · rw [hsent, hcommands]
    exact fun hopen => h.complete (hclients hopen)

/-- A connection is accepted. -/
theorem accepted {unread : Bytes} (hunread : Begun unread) :
    Delivered (s.accept fd unread) (history ++ [.accepted fd unread]) fd [] := by
  have hlink : (s.accept fd unread).links fd =
      { client := { connected := true, commandLine := unread } } := Function.update_self _ _ _
  have hlines : splitLines (unreadAfter fd (history ++ [.accepted fd unread]) ++ []) =
      ([], unread) := by
    rw [unreadAfter, follow_append, List.append_nil]
    simp [NetworkEvent.unreadOn, splitLines_unfinished hunread.1]
  constructor
  · rw [hlines, handledAfter, follow_append]
    exact if_pos rfl
  · rw [hlines, hlink]
    exact hunread.2.symm
  · exact List.nil_prefix
  · intro _
    rw [hlink, sentAfter, follow_append]
    exact (if_pos rfl).symm
  · intro _
    rw [sentAfter, commandsAfter, follow_append, follow_append]
    simp [NetworkEvent.sentOn, NetworkEvent.commandsOn]

/-- A command is sent to the client, or the client is dropped. -/
theorem sent (h : Delivered s history fd read) (line : Bytes) (fails : Nat → Bool) :
    Delivered (s.command line fails)
      (history ++ [.sent line (s.loop.clients.filter fun fd => !fails fd)]) fd read := by
  have hunread : unreadAfter fd (history ++
      [.sent line (s.loop.clients.filter fun fd => !fails fd)]) = unreadAfter fd history :=
    follow_append ..
  have hhandled : handledAfter fd (history ++
      [.sent line (s.loop.clients.filter fun fd => !fails fd)]) = handledAfter fd history :=
    follow_append ..
  have hreached : fd ∈ s.loop.clients.filter (fun fd => !fails fd) ↔
      fd ∈ s.loop.clients ∧ fails fd = false := by
    rw [List.mem_filter, Bool.not_eq_true']
  have hclient : ((s.command line fails).links fd).client = (s.links fd).client := by
    unfold Network.command
    dsimp only
    split <;> rfl
  have hsent : sentAfter fd (history ++
      [.sent line (s.loop.clients.filter fun fd => !fails fd)]) =
        if fd ∈ s.loop.clients ∧ fails fd = false then sentAfter fd history ++ outgoing line
        else sentAfter fd history := by
    rw [sentAfter, follow_append]
    change (if fd ∈ s.loop.clients.filter _ then _ else _) = _
    simp only [hreached]
    rfl
  have hflight : ((s.command line fails).links fd).inFlight =
      if fd ∈ s.loop.clients ∧ fails fd = false then (s.links fd).inFlight ++ outgoing line
      else (s.links fd).inFlight := by
    unfold Network.command
    dsimp only
    split <;> rfl
  constructor
  · rw [hhandled, hunread]
    exact h.handled
  · rw [hclient, hunread]
    exact h.commandLine
  · rw [hsent]
    split
    · exact h.order.trans (List.prefix_append _ _)
    · exact h.order
  · intro hopen
    rw [hclient] at hopen ⊢
    rw [hflight, hsent]
    split
    · rw [← h.stream hopen, List.append_assoc, List.append_assoc]
    · exact h.stream hopen
  · intro hmem
    have hmem' := hreached.mp hmem
    rw [hsent, if_pos hmem', h.complete hmem'.1, commandsAfter, commandsAfter, follow_append]
    change _ = (follow _ history [] ++ [line]).flatMap outgoing
    rw [List.flatMap_append, List.flatMap_singleton]

/-- Bytes arrive. -/
theorem delivered (h : Delivered s history fd read)
    (hopen : (s.links fd).client.connected = true) {chunk rest : Bytes}
    (hchunk : (s.links fd).inFlight = chunk ++ rest) :
    Delivered (s.setLink fd ((s.links fd).deliver chunk rest)) history fd read := by
  refine ⟨h.handled, ?_, h.order, fun _ => ?_, h.complete⟩
  · rw [Network.setLink_self]
    exact h.commandLine
  · rw [Network.setLink_self, ← h.stream hopen, hchunk]
    exact congrArg (read ++ ·) (List.append_assoc ..)

/-- The connection breaks. -/
theorem lost (h : Delivered s history fd read) :
    Delivered (s.setLink fd (s.links fd).lose) history fd read := by
  refine ⟨h.handled, ?_, h.order, fun hopen => ?_, h.complete⟩
  · rw [Network.setLink_self]
    exact h.commandLine
  · rw [Network.setLink_self] at hopen
    cases hopen

/-- The device reads a byte. -/
theorem readByte (h : Delivered s history fd read)
    (hopen : (s.links fd).client.connected = true) {c : Byte} {rest : Bytes}
    (havailable : (s.links fd).client.available = c :: rest) :
    Delivered (s.setLink fd ((s.links fd).read c rest))
      (history ++ (Firmware.readByte c (s.links fd).client.commandLine).1.toList.map (.handled fd))
      fd (read ++ [c]) := by
  have hstream := h.stream hopen
  rw [havailable] at hstream
  have hread : (read ++ [c]) ++ (rest ++ (s.links fd).inFlight) = sentAfter fd history := by
    simpa using hstream
  have horder : read ++ [c] <+: sentAfter fd history := ⟨_, hread⟩
  by_cases hc : c = newline
  · subst hc
    have hlines := splitLines_concat_newline (unreadAfter fd history ++ read)
    rw [List.append_assoc] at hlines
    rw [readByte_newline]
    change Delivered _ (history ++ [.handled fd (s.links fd).client.commandLine]) fd _
    constructor
    · rw [handledAfter_handled, unreadAfter_handled, hlines, h.handled, h.commandLine,
        List.map_append]
      rfl
    · rw [Network.setLink_self, unreadAfter_handled, hlines]
      rfl
    · rw [sentAfter_handled]
      exact horder
    · rw [Network.setLink_self, sentAfter_handled]
      exact fun _ => hread
    · rw [sentAfter_handled, commandsAfter_handled]
      exact h.complete
  · have hlines := splitLines_concat (unreadAfter fd history ++ read) hc
    rw [List.append_assoc] at hlines
    have hbuffer := readByte_buffered (splitLines (unreadAfter fd history ++ read)).2 hc
    rw [← h.commandLine] at hbuffer
    rw [hbuffer]
    change Delivered _ (history ++ []) fd _
    rw [List.append_nil]
    refine ⟨?_, ?_, horder, fun _ => ?_, h.complete⟩
    · rw [hlines]
      exact h.handled
    · rw [Network.setLink_self, hlines]
      exact congrArg Prod.snd hbuffer
    · rw [Network.setLink_self]
      exact hread

end Delivered

/-! ## Steps of one connection -/

section

variable {s s' : Network} {fd : Nat} {history events : List NetworkEvent}

/-- The events are lines that the device handles. -/
def OnlyHandles (fd : Nat) (events : List NetworkEvent) : Prop :=
  ∀ event ∈ events, ∃ line, event = .handled fd line

namespace LinkStep

theorem loop (h : LinkStep fd s s' events) : s'.loop = s.loop := by
  cases h <;> rfl

theorem links_other (h : LinkStep fd s s' events) {other : Nat} (hother : other ≠ fd) :
    s'.links other = s.links other := by
  cases h with
  | deliver => exact s.setLink_other _ hother
  | read => exact s.setLink_other _ hother

theorem handles (h : LinkStep fd s s' events) : OnlyHandles fd events := by
  cases h with
  | deliver => exact List.forall_mem_nil _
  | read =>
    intro event hevent
    obtain ⟨line, -, rfl⟩ := List.mem_map.mp hevent
    exact ⟨line, rfl⟩

end LinkStep

theorem run_handles (hrun : Run (LinkStep fd) s s' events) : OnlyHandles fd events :=
  hrun.invariant (P := fun _ events => OnlyHandles fd events) (List.forall_mem_nil _)
    fun _ _ _ _ h hstep => List.forall_mem_append.mpr ⟨h, hstep.handles⟩

theorem run_network (hrun : Run (LinkStep fd) s s' events) : Run NetworkStep s s' events :=
  hrun.mono fun s t _ hstep => .link s t hstep

/-- Lines that the device handles change neither what was sent nor what it had begun. -/
theorem after_only (history : List NetworkEvent) (h : OnlyHandles fd events) :
    sentAfter fd (history ++ events) = sentAfter fd history ∧
      unreadAfter fd (history ++ events) = unreadAfter fd history := by
  have hsame : ∀ {V : Type} (update : NetworkEvent → V → V) (value : V),
      (∀ line value, update (.handled fd line) value = value) →
      follow update (history ++ events) value = follow update history value := by
    intro V update value hupdate
    rw [follow_append]
    refine follow_unchanged fun event hevent => ?_
    obtain ⟨line, rfl⟩ := h event hevent
    exact hupdate line _
  exact ⟨hsame _ _ fun _ _ => rfl, hsame _ _ fun _ _ => rfl⟩

end

variable {s s' : Network} {history events : List NetworkEvent}

/-- The step lemma. -/
theorem NetworkStep.delivered (hstep : NetworkStep s s' events) {fd : Nat}
    (h : ∃ read, Delivered s history fd read) :
    ∃ read, Delivered s' (history ++ events) fd read := by
  obtain ⟨read, h⟩ := h
  cases hstep with
  | receive hfd chunk => exact ⟨read, h.other rfl id (by simp)⟩
  | stale hfd => exact ⟨read, h.other rfl (fun hmem => List.mem_of_mem_filter hmem) (by simp)⟩
  | command line fails => exact ⟨read, h.sent line fails⟩
  | @accept accepted hfd unread hunread =>
    by_cases hsame : accepted = fd
    · subst hsame
      exact ⟨[], .accepted hunread⟩
    · have hclients : fd ∈ s.loop.clients ++ [accepted] → fd ∈ s.loop.clients := by
        simp [Ne.symm hsame]
      refine ⟨read, h.other (Network.setLink_other _ _ (Ne.symm hsame)) hclients ?_⟩
      exact List.forall_mem_singleton.mpr hsame
  | @link s' device events hlink =>
    by_cases hsame : fd = device
    · subst hsame
      cases hlink with
      | deliver hopen hchunk =>
        rw [List.append_nil]
        exact ⟨read, h.delivered hopen hchunk⟩
      | read hopen havailable => exact ⟨_, h.readByte hopen havailable⟩
    · refine ⟨read, h.other (hlink.links_other hsame) (by rw [hlink.loop]; exact id) ?_⟩
      intro event hevent
      obtain ⟨line, rfl⟩ := hlink.handles event hevent
      exact Ne.symm hsame
  | lose broken =>
    by_cases hsame : fd = broken
    · subst hsame
      rw [List.append_nil]
      exact ⟨read, h.lost⟩
    · exact ⟨read, h.other (s.setLink_other _ hsame) id (by simp)⟩

theorem run_delivered (hrun : Run NetworkStep {} s history) (fd : Nat) :
    ∃ read, Delivered s history fd read := by
  refine hrun.invariant (P := fun s history => ∃ read, Delivered s history fd read)
    ⟨[], rfl, rfl, List.nil_prefix, fun h => Bool.noConfusion h,
      fun h => absurd h List.not_mem_nil⟩ ?_
  exact fun _ _ _ _ h hstep => hstep.delivered h

/-- In every run, and for every device: what it has handled are the lines of a part of the bytes
sent to it, from the first byte on and behind the line that it had begun before, each as its
buffer keeps it; of all of them, when none is on its way or unread; and while the server keeps the
connection, they are all commands since it was accepted. -/
theorem commands_delivered (hrun : Run NetworkStep {} s history) (fd : Nat) :
    ∃ read rest, sentAfter fd history = read ++ rest ∧
      handledAfter fd history =
        (splitLines (unreadAfter fd history ++ read)).1.map bufferedLine ∧
      ((s.links fd).client.connected = true → (s.links fd).client.available = [] →
        (s.links fd).inFlight = [] → rest = []) ∧
      (fd ∈ s.loop.clients → sentAfter fd history = (commandsAfter fd history).flatMap outgoing) := by
  obtain ⟨read, h⟩ := run_delivered hrun fd
  obtain ⟨rest, hrest⟩ := h.order
  refine ⟨read, rest, hrest.symm, h.handled, fun hopen hnone hempty => ?_, h.complete⟩
  have hstream := h.stream hopen
  rw [hnone, hempty, ← hrest] at hstream
  exact (List.append_cancel_left hstream).symm

/-! ## Reading on -/

/-- What is available can be read, in whatever state the others are. -/
theorem run_readAll {fd : Nat} (available : Bytes) {s : Network}
    (hopen : (s.links fd).client.connected = true)
    (havailable : (s.links fd).client.available = available) :
    ∃ s' events, Run (LinkStep fd) s s' events ∧ (s'.links fd).client.connected = true ∧
      (s'.links fd).client.available = [] ∧ (s'.links fd).inFlight = (s.links fd).inFlight := by
  induction available generalizing s with
  | nil => exact ⟨s, [], .start, hopen, havailable, rfl⟩
  | cons c available ih =>
    have hlink := s.setLink_self fd ((s.links fd).read c available)
    have hstep := LinkStep.read hopen havailable
    obtain ⟨s', events, hrun, hopen', hnone, hflight⟩ :=
      ih (s := s.setLink fd ((s.links fd).read c available)) (by rw [hlink]; exact hopen)
        (by rw [hlink]; rfl)
    exact ⟨s', _, (Run.next .start hstep).trans hrun, hopen', hnone,
      hflight.trans (by rw [hlink]; rfl)⟩

/-- What is on its way can be delivered and read. -/
theorem run_drain {fd : Nat} {s : Network} (hopen : (s.links fd).client.connected = true) :
    ∃ s' events, Run (LinkStep fd) s s' events ∧ (s'.links fd).client.connected = true ∧
      (s'.links fd).client.available = [] ∧ (s'.links fd).inFlight = [] := by
  have hstep := LinkStep.deliver hopen (List.append_nil (s.links fd).inFlight).symm
  have hlink := s.setLink_self fd ((s.links fd).deliver (s.links fd).inFlight [])
  obtain ⟨s', events, hread, hopen', hnone, hflight⟩ :=
    run_readAll ((s.links fd).client.available ++ (s.links fd).inFlight)
      (s := s.setLink fd ((s.links fd).deliver (s.links fd).inFlight []))
      (by rw [hlink]; exact hopen) (by rw [hlink]; rfl)
  rw [hlink] at hflight
  exact ⟨s', _, (Run.next .start hstep).trans hread, hopen', hnone, hflight⟩

/-- From every state of a run in which a connection is open at both ends, the device can go on to
handle all commands since it was accepted, by deliveries and reads of this connection alone. -/
theorem commands_drained (hrun : Run NetworkStep {} s history) {fd : Nat}
    (hclient : fd ∈ s.loop.clients) (hopen : (s.links fd).client.connected = true) :
    ∃ s' more, Run (LinkStep fd) s s' more ∧
      handledAfter fd (history ++ more) =
        (splitLines (unreadAfter fd history ++
          (commandsAfter fd history).flatMap outgoing)).1.map bufferedLine := by
  obtain ⟨read, h⟩ := run_delivered hrun fd
  obtain ⟨s', more, hrest, hopen', hnone, hflight⟩ := run_drain hopen
  obtain ⟨read', h'⟩ := run_delivered (hrun.trans (run_network hrest)) fd
  obtain ⟨hsent, hunread⟩ := after_only history (run_handles hrest)
  have hall := h'.stream hopen'
  rw [hnone, hflight, hsent, h.complete hclient] at hall
  have hread : read' = (commandsAfter fd history).flatMap outgoing := by simpa using hall
  refine ⟨s', more, hrest, ?_⟩
  rw [h'.handled, hunread, hread]

/-! ## A command -/

/-- A client is accepted whose buffer holds `REL` from an earlier connection, and gets two
commands; the first bytes have arrived. -/
def commanded : Network :=
  let accepted := Network.accept {} 5 (ascii "REL")
  let sent := (accepted.command (ascii "RELAY 1 ON") fun _ => false).command
    (ascii "RELAY 2 OFF") fun _ => false
  sent.setLink 5 ((sent.links 5).deliver (ascii "RELAY 1") (ascii " ON\nRELAY 2 OFF\n"))

def commandedEvents : List NetworkEvent :=
  [.accepted 5 (ascii "REL"), .sent (ascii "RELAY 1 ON") [5], .sent (ascii "RELAY 2 OFF") [5]]

theorem run_commanded : Run NetworkStep {} commanded commandedEvents :=
  (((Run.next .start (NetworkStep.accept {} (show 5 ∉ [] by decide) (by decide))).next
    (NetworkStep.command _ (ascii "RELAY 1 ON") fun _ => false)).next
    (NetworkStep.command _ (ascii "RELAY 2 OFF") fun _ => false)).next
    (NetworkStep.link _ _ (LinkStep.deliver rfl rfl))

/-- When the device has read what has arrived and what is on its way, it has handled both. -/
theorem relay_command_sent :
    ∃ s events, Run NetworkStep {} s (commandedEvents ++ events) ∧
      handledAfter 5 (commandedEvents ++ events) =
        [ascii "RELRELAY 1 ON", ascii "RELAY 2 OFF"] := by
  have hopen : (commanded.links 5).client.connected = true := rfl
  obtain ⟨s, events, hrest, hopen', hnone, hflight⟩ := run_drain hopen
  have hrun := run_commanded.trans (run_network hrest)
  obtain ⟨hsame, hunread⟩ := after_only commandedEvents (run_handles hrest)
  obtain ⟨read, rest, hsent, hhandled, hall, -⟩ := commands_delivered hrun 5
  rw [hall hopen' hnone hflight, List.append_nil, hsame] at hsent
  refine ⟨s, events, hrun, ?_⟩
  rw [hhandled, hunread, ← hsent]
  decide

theorem relay_command_drained :
    ∃ s more, Run (LinkStep 5) commanded s more ∧
      handledAfter 5 (commandedEvents ++ more) = [ascii "RELRELAY 1 ON", ascii "RELAY 2 OFF"] := by
  have hclient : 5 ∈ commanded.loop.clients := by decide
  obtain ⟨s, more, hrun, hhandled⟩ := commands_drained run_commanded hclient rfl
  refine ⟨s, more, hrun, hhandled.trans ?_⟩
  decide

end InverterMonitor.Wire
