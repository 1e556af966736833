import InverterMonitor.Server.Monitor
import InverterMonitor.Runs.History

/-!
# Connections and reassembly in `serverLoop`

The loop accepts clients, appends what it receives to the buffer kept under the
client's descriptor number, hands over the complete lines and drops clients.
A buffer survives its connection.  Proved here:

* `Tracked`: what a buffer holds is determined by the bytes received under its
  number (`run_tracked`);
* `connection_lines`: where every accept finds an empty buffer, the lines handed
  over for a connection are those of its own bytes;
* `lines_cross_connections`: a run in which they are not.
-/

namespace InverterMonitor.Monitor
open Text Registers Runs

/-- The state of `serverLoop`; descriptors are numbers. -/
structure Loop where
  clients : List Nat := []
  partialLines : Std.ExtTreeMap Nat Bytes := ∅
  tables : Tables := {}

namespace Loop

/-- `partialLines[fd]` -/
def pending (loop : Loop) (fd : Nat) : Bytes := loop.partialLines[fd]?.getD []

def accept (loop : Loop) (fd : Nat) : Loop := { loop with clients := loop.clients ++ [fd] }

/-- `recv` has returned `chunk`: the lines handed to the parsers, and the loop after them. -/
def receive (loop : Loop) (fd : Nat) (chunk : Bytes) : List Bytes × Loop :=
  let (lines, pending) := splitLines (loop.pending fd ++ chunk)
  let handed := handedLines lines
  (handed,
    { loop with
      partialLines := loop.partialLines.insert fd pending
      tables := handleLines handed loop.tables })

def removeClient (loop : Loop) (fd : Nat) : Loop :=
  { loop with clients := loop.clients.filter (· ≠ fd) }

/-- `broadcastToClients`, where `fails` tells the clients whose `send` fails. -/
def broadcastToClients (loop : Loop) (fails : Nat → Bool) : Loop :=
  { loop with clients := loop.clients.filter fun fd => !fails fd }

theorem pending_receive (loop : Loop) (fd other : Nat) (chunk : Bytes) :
    (loop.receive fd chunk).2.pending other =
      if fd = other then (splitLines (loop.pending other ++ chunk)).2 else loop.pending other := by
  by_cases h : fd = other
  · subst h
    simp [receive, pending]
  · simp [receive, pending, Std.ExtTreeMap.getElem?_insert, h]

end Loop

/-! ## Runs -/

inductive LoopEvent
  | accepted (fd : Nat)
  | received (fd : Nat) (chunk : Bytes) (handed : List Bytes)
  | closed (fd : Nat)

/-- The steps of the loop.  The operating system gives an accepted connection a
number that no open client has. -/
inductive LoopStep : Loop → Loop → List LoopEvent → Prop
  | accept (loop : Loop) {fd : Nat} (hfd : fd ∉ loop.clients) :
      LoopStep loop (loop.accept fd) [.accepted fd]
  | receive (loop : Loop) {fd : Nat} (hfd : fd ∈ loop.clients) (chunk : Bytes) :
      LoopStep loop (loop.receive fd chunk).2 [.received fd chunk (loop.receive fd chunk).1]
  | stale (loop : Loop) {fd : Nat} (hfd : fd ∈ loop.clients) :
      LoopStep loop (loop.removeClient fd) [.closed fd]
  | broadcast (loop : Loop) (fails : Nat → Bool) :
      LoopStep loop (loop.broadcastToClients fails) ((loop.clients.filter fails).map .closed)

namespace LoopEvent

/-- What an event makes of the buffer under a number. -/
def pending (fd : Nat) : LoopEvent → Bytes → Bytes
  | .received other chunk _, was => if other = fd then (splitLines (was ++ chunk)).2 else was
  | _, was => was

/-- How an event depends on the buffers before it. -/
def law (buffers : Nat → Bytes) : LoopEvent → Prop
  | .received fd chunk handed => handed = handedLines (splitLines (buffers fd ++ chunk)).1
  | _ => True

/-- The bytes that an event brings for a number. -/
def bytesOn (fd : Nat) : LoopEvent → Bytes
  | .received other chunk _ => if other = fd then chunk else []
  | _ => []

def linesOn (fd : Nat) : LoopEvent → List Bytes
  | .received other _ handed => if other = fd then handed else []
  | _ => []

end LoopEvent

/-- The buffers that a history leaves. -/
def buffersAfter (start : Loop) (history : List LoopEvent) (fd : Nat) : Bytes :=
  follow (LoopEvent.pending fd) history (start.pending fd)

structure Tracked (start loop : Loop) (history : List LoopEvent) : Prop where
  pending : ∀ fd, loop.pending fd = buffersAfter start history fd
  lawful : Lawful (fun before event => event.law (buffersAfter start before)) history

namespace Tracked

theorem start (loop : Loop) : Tracked loop loop [] := ⟨fun _ => rfl, Lawful.nil⟩

/-- One event, whose effect on the buffers is the one it records. -/
theorem event {start loop loop' : Loop} {history : List LoopEvent} {event : LoopEvent}
    (h : Tracked start loop history)
    (hpending : ∀ fd, loop'.pending fd = event.pending fd (loop.pending fd))
    (hlaw : event.law loop.pending) : Tracked start loop' (history ++ [event]) := by
  refine ⟨fun fd => ?_, h.lawful.concat ?_⟩
  · rw [hpending, h.pending, buffersAfter, buffersAfter, follow_append]
    rfl
  · have hbuffers : loop.pending = buffersAfter start history := funext h.pending
    rw [← hbuffers]
    exact hlaw

theorem closed {start loop loop' : Loop} {history : List LoopEvent} (fds : List Nat)
    (h : Tracked start loop history) (hpending : ∀ fd, loop'.pending fd = loop.pending fd) :
    Tracked start loop' (history ++ fds.map .closed) := by
  induction fds generalizing loop history with
  | nil =>
    rw [List.map_nil, List.append_nil]
    exact ⟨fun fd => (hpending fd).trans (h.pending fd), h.lawful⟩
  | cons fd fds ih =>
    have hone : Tracked start loop (history ++ [.closed fd]) := h.event (fun _ => rfl) trivial
    have hrest := ih hone hpending
    rwa [List.append_assoc] at hrest

end Tracked

/-- The step lemma. -/
theorem LoopStep.tracked {start loop loop' : Loop} {history events : List LoopEvent}
    (hstep : LoopStep loop loop' events) (h : Tracked start loop history) :
    Tracked start loop' (history ++ events) := by
  cases hstep with
  | accept hfd => exact h.event (fun _ => rfl) trivial
  | receive hfd chunk =>
    exact h.event (fun other => Loop.pending_receive loop _ other chunk) rfl
  | stale hfd => exact h.closed [_] fun _ => rfl
  | broadcast fails => exact h.closed _ fun _ => rfl

theorem run_tracked {start loop : Loop} {history : List LoopEvent}
    (h : Run LoopStep start loop history) : Tracked start loop history :=
  h.invariant (Tracked.start start) fun _ _ _ _ htracked hstep => hstep.tracked htracked

/-! ## The lines of a connection -/

/-- From a buffer on, a stretch of events without a new connection hands over
the lines of the buffer and its own bytes. -/
theorem linesOn_stretch {start : Loop} {history : List LoopEvent}
    (h : Lawful (fun before event => event.law (buffersAfter start before)) history) (fd : Nat)
    (during : List LoopEvent) {before after : List LoopEvent}
    (heq : history = before ++ (during ++ after)) {buffer : Bytes}
    (hbuffer : buffersAfter start before fd = buffer) (hnewline : newline ∉ buffer) :
    during.flatMap (LoopEvent.linesOn fd) =
      handedLines (splitLines (buffer ++ during.flatMap (LoopEvent.bytesOn fd))).1 := by
  induction during generalizing before buffer with
  | nil =>
    rw [List.flatMap_nil, List.flatMap_nil, List.append_nil, splitLines_unfinished hnewline]
    rfl
  | cons event during ih =>
    have hnext : history = (before ++ [event]) ++ (during ++ after) := by simpa using heq
    have hafter : buffersAfter start (before ++ [event]) fd = event.pending fd buffer := by
      rw [← hbuffer, buffersAfter, follow_append]
      rfl
    rw [List.flatMap_cons, List.flatMap_cons]
    cases event with
    | accepted other => exact ih hnext hafter hnewline
    | closed other => exact ih hnext hafter hnewline
    | received other chunk handed =>
      by_cases hfd : other = fd
      · subst hfd
        have hlaw := h before (.received other chunk handed) (during ++ after) (by simpa using heq)
        simp only [LoopEvent.law, hbuffer] at hlaw
        simp only [LoopEvent.pending, ↓reduceIte] at hafter
        simp only [LoopEvent.linesOn, LoopEvent.bytesOn, ↓reduceIte]
        rw [ih hnext hafter (newline_not_mem_rest _), ← List.append_assoc buffer,
          splitLines_append (buffer ++ chunk), handedLines_append, hlaw]
      · simp only [LoopEvent.pending, hfd, ↓reduceIte] at hafter
        simp only [LoopEvent.linesOn, LoopEvent.bytesOn, hfd, ↓reduceIte, List.nil_append]
        exact ih hnext hafter hnewline

/-- A step in which a new connection finds nothing under its number. -/
def CleanStep (loop loop' : Loop) (events : List LoopEvent) : Prop :=
  LoopStep loop loop' events ∧ ∀ fd, .accepted fd ∈ events → loop.pending fd = []

/-- The state before an accept, as the history gives it. -/
theorem clean_accepts {start loop : Loop} {history : List LoopEvent}
    (h : Run CleanStep start loop history) :
    Tracked start loop history ∧
      Lawful (fun before event => ∀ fd, event = .accepted fd → buffersAfter start before fd = [])
        history := by
  refine h.invariant (P := fun loop history => Tracked start loop history ∧
    Lawful (fun before event => ∀ fd, event = .accepted fd → buffersAfter start before fd = [])
      history) ⟨Tracked.start start, Lawful.nil⟩ ?_
  rintro loop loop' history events ⟨htracked, hclean⟩ ⟨hstep, haccept⟩
  refine ⟨hstep.tracked htracked, ?_⟩
  have hclosed : ∀ (fds : List Nat) (history : List LoopEvent),
      Lawful (fun before event => ∀ fd, event = .accepted fd → buffersAfter start before fd = [])
        history →
      Lawful (fun before event => ∀ fd, event = .accepted fd → buffersAfter start before fd = [])
        (history ++ fds.map .closed) := by
    intro fds
    induction fds with
    | nil => exact fun history h => by simpa using h
    | cons fd fds ih =>
      intro history h
      have hone : Lawful _ (history ++ [.closed fd]) := h.concat (by simp)
      have hrest := ih _ hone
      rwa [List.append_assoc] at hrest
  cases hstep with
  | accept hfd =>
    refine hclean.concat fun fd heq => ?_
    rw [← htracked.pending]
    cases heq
    exact haccept _ (by simp)
  | receive hfd chunk => exact hclean.concat (by simp)
  | stale hfd => exact hclosed [_] history hclean
  | broadcast fails => exact hclosed _ history hclean

/-- In every run whose accepts find an empty buffer, the lines handed over from
an accept on, up to the next one or longer, are the lines of the bytes received. -/
theorem connection_lines {start loop : Loop} {history : List LoopEvent}
    (h : Run CleanStep start loop history) :
    ∀ before fd during after, history = before ++ .accepted fd :: (during ++ after) →
      during.flatMap (LoopEvent.linesOn fd) =
        handedLines (splitLines (during.flatMap (LoopEvent.bytesOn fd))).1 := by
  intro before fd during after heq
  obtain ⟨htracked, hclean⟩ := clean_accepts h
  have hempty : buffersAfter start (before ++ [.accepted fd]) fd = [] := by
    rw [buffersAfter, follow_append]
    exact hclean before (.accepted fd) (during ++ after) heq fd rfl
  have hsplit : history = (before ++ [.accepted fd]) ++ (during ++ after) := by
    simpa using heq
  simpa using linesOn_stretch htracked.lawful fd during hsplit hempty (by simp)

theorem first_connection_lines :
    ∃ loop, Run CleanStep {} loop [.accepted 5, .received 5 (ascii "15205 24") [],
        .received 5 (ascii "0\r\n15206") [ascii "15205 240"]] ∧
      [ascii "15205 240"] = handedLines (splitLines (ascii "15205 240\r\n15206")).1 := by
  let accepted := Loop.accept {} 5
  let received := (accepted.receive 5 (ascii "15205 24")).2
  have hstart : Run CleanStep {} {} [] := .start
  have haccept : CleanStep {} accepted [.accepted 5] :=
    ⟨.accept {} (by simp), by simp [Loop.pending]⟩
  have hfirst : CleanStep accepted received [.received 5 (ascii "15205 24") []] :=
    ⟨.receive accepted (by simp [accepted, Loop.accept]) (ascii "15205 24"), by simp⟩
  have hsecond : CleanStep received (received.receive 5 (ascii "0\r\n15206")).2
      [.received 5 (ascii "0\r\n15206") [ascii "15205 240"]] :=
    ⟨.receive received (by simp [received, accepted, Loop.accept, Loop.receive]) _, by simp⟩
  have hrun := ((hstart.next haccept).next hfirst).next hsecond
  exact ⟨_, hrun, connection_lines hrun [] 5 [_, _] [] rfl⟩

/-- The unfinished line of a closed connection is put before the first line of
the next one with its number. -/
theorem lines_cross_connections :
    ∃ loop before during,
      Run LoopStep {} loop (before ++ .accepted 5 :: during) ∧
      (∀ event ∈ during, event ≠ .accepted 5) ∧
      during.flatMap (LoopEvent.linesOn 5) = [ascii "15205 240"] ∧
      handedLines (splitLines (during.flatMap (LoopEvent.bytesOn 5))).1 = [ascii "05 240"] := by
  let accepted := Loop.accept {} 5
  let cut := (accepted.receive 5 (ascii "152")).2
  let again := (cut.removeClient 5).accept 5
  have hstart : Run LoopStep {} {} [] := .start
  have haccept : LoopStep {} accepted [.accepted 5] := .accept {} (by simp)
  have hcut : LoopStep accepted cut [.received 5 (ascii "152") []] :=
    .receive accepted (by simp [accepted, Loop.accept]) (ascii "152")
  have hclose : LoopStep cut (cut.removeClient 5) [.closed 5] :=
    .stale cut (by simp [cut, accepted, Loop.accept, Loop.receive])
  have hagain : LoopStep (cut.removeClient 5) again [.accepted 5] :=
    .accept _ (by simp [cut, accepted, Loop.accept, Loop.receive, Loop.removeClient])
  have hline : LoopStep again (again.receive 5 (ascii "05 240\n")).2
      [.received 5 (ascii "05 240\n") [ascii "15205 240"]] :=
    .receive again (by simp [again, Loop.accept]) (ascii "05 240\n")
  have hrun := ((((hstart.next haccept).next hcut).next hclose).next hagain).next hline
  exact ⟨_, [.accepted 5, .received 5 (ascii "152") [], .closed 5],
    [.received 5 (ascii "05 240\n") [ascii "15205 240"]], hrun, by simp, rfl, rfl⟩

end InverterMonitor.Monitor
