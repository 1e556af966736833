import InverterMonitor.Runs.Periodic
import InverterMonitor.Server.Authorization
import InverterMonitor.Server.DataFiles
import InverterMonitor.Server.Loop

/-!
# The main loop of the server

An iteration of `serverLoop` receives from the clients, drops the lost ones, evaluates the
rules, replays the relays and saves the values; three timers say when.  Between these parts the
other threads run rule operations and send commands.

* `MainLoop`: the state of the loop, with the place where it is in an iteration;
* `MainStep`: the steps of a run, those of the other threads among them;
* `frame_evaluate`, `replay_eq`, `save_eq`: what the parts change and what they leave alone;
* `run_iterate`: an iteration is a run.
-/

namespace InverterMonitor.Monitor
open Text Cxx Registers Runs Http Rules

/-! ## The state -/

/-- Where the loop is in an iteration; `changed` is `valuesChanged`. -/
inductive Phase
  | select
  | received (stale : List Nat) (changed : Bool)
  | evaluate (changed : Bool)
  | replay (now : Time)
  | save (now : Time)

structure MainLoop where
  loop : Loop := {}
  engine : Engine := {}
  plugs : Plugs := fun _ => none
  files : Files := fun _ => none
  /-- The last reading of the clock. -/
  now : Time
  lastSaveTime : Time
  lastEvaluateTime : Time
  lastRelayReplayTime : Time
  phase : Phase := .select

def seconds (n : Nat) : Time := n * 1000000000

def saveInterval : Time := seconds 5
def evaluateInterval : Time := seconds 5
def replayInterval : Time := minutes 5

/-! ## The parts of an iteration -/

/-- `valuesChanged` after some lines. -/
def valuesChanged : List Bytes → Tables → Bool
  | [], _ => false
  | line :: lines, t => (handleLine line t).1 || valuesChanged lines (handleLine line t).2

/-- The loop over the clients that are ready, each with what `recv` gives for it: nothing when
it fails or the connection is closed.  The clients to drop and the lines handed over. -/
def receiveAll : List (Nat × Option Bytes) → Loop → (List Nat × List Bytes) × Loop
  | [], loop => (([], []), loop)
  | (fd, none) :: ready, loop =>
    let ((stale, handed), loop) := receiveAll ready loop
    ((fd :: stale, handed), loop)
  | (fd, some chunk) :: ready, loop =>
    let (lines, loop) := loop.receive fd chunk
    let ((stale, handed), loop) := receiveAll ready loop
    ((stale, lines ++ handed), loop)

/-- The commands for the devices among the events of a pass. -/
def sentCommands (events : List Rules.Event) : List Bytes :=
  events.flatMap fun event =>
    match event with
    | .visit _ _ run => run.filterMap fun executed =>
      match executed.issued with
      | some (.parseCommand line) => some line
      | _ => none
    | _ => []

namespace MainLoop

/-- `parseCommand`; `fails` tells the clients whose `send` fails. -/
def command (s : MainLoop) (line : Bytes) (fails : Nat → Bool) : MainLoop :=
  { s with
    loop := s.loop.broadcastToClients fails
    plugs := match (parseCommand line).1 with
      | some switch => executeRelaySwitch s.plugs switch
      | none => s.plugs }

def receive (s : MainLoop) (ready : List (Nat × Option Bytes)) : MainLoop :=
  let ((stale, handed), loop) := receiveAll ready s.loop
  { s with loop := loop, phase := .received stale (valuesChanged handed s.loop.tables) }

def removeStale (s : MainLoop) (stale : List Nat) (changed : Bool) : MainLoop :=
  { s with loop := stale.foldl Loop.removeClient s.loop, phase := .evaluate changed }

/-- What the rules read: the current tables, and the time of day by `clock`. -/
def inputs (s : MainLoop) (clock : Nat → Nat → Nat) : Inputs :=
  { lastValues := s.loop.tables.lastValues, relays := s.loop.tables.relays, clock := clock }

/-- The `k`-th command of the rules is broadcast with the failures `fails k`. -/
def evaluate (s : MainLoop) (changed : Bool) (now : Time) (clock : Nat → Nat → Nat)
    (fails : Nat → Nat → Bool) : MainLoop :=
  let read := { s with now := now, phase := .replay now }
  if fires evaluateInterval s.lastEvaluateTime ⟨now, changed⟩ then
    let (events, engine) := evaluateRules (s.inputs clock) s.engine
    (sentCommands events).zipIdx.foldl (fun s sent => s.command sent.1 (fails sent.2))
      { read with engine := engine, lastEvaluateTime := now }
  else read

def replay (s : MainLoop) (now : Time) : MainLoop :=
  if fires replayInterval s.lastRelayReplayTime ⟨now, false⟩ then
    { s with
      plugs := Monitor.replay s.loop.tables.lastValues s.plugs
      lastRelayReplayTime := now
      phase := .save now }
  else { s with phase := .save now }

/-- `room` is the room of `registers.json`, `appending` that of the data files. -/
def save (s : MainLoop) (now : Time) (room : Room) (appending : Bytes → Appending) : MainLoop :=
  if fires saveInterval s.lastSaveTime ⟨now, false⟩ then
    { s with
      files := appendValues s.loop.tables appending
        (writeFile room (ascii "registers.json") (registersFileText s.loop.tables) s.files)
      lastSaveTime := now
      phase := .select }
  else { s with phase := .select }

end MainLoop

/-! ## Steps -/

/-- What a run records: the lines of a reception, and for each timer the time it saw and what
it made the loop do. -/
inductive MainEvent
  | received (handed : List Bytes)
  | evaluated (changed : Bool) (now : Time) (values : Option LastValues)
  | replayed (now : Time) (ran : Bool)
  | saved (now : Time) (samples : Option (DataFile → List Sample))

/-- The clock does not go back, and a reading is at most `gap` after the one before it; `disk`
tells how the data files may take their lines. -/
inductive MainStep (gap : Time) (disk : Tables → (Bytes → Appending) → Prop) :
    MainLoop → MainLoop → List MainEvent → Prop
  | accept (s : MainLoop) {fd : Nat} (hphase : s.phase = .select) (hfd : fd ∉ s.loop.clients) :
      MainStep gap disk s { s with loop := s.loop.accept fd } []
  | receive (s : MainLoop) (ready : List (Nat × Option Bytes)) (hphase : s.phase = .select)
      (hready : (ready.map Prod.fst).Sublist s.loop.clients) :
      MainStep gap disk s (s.receive ready) [.received (receiveAll ready s.loop).1.2]
  | removeStale (s : MainLoop) {stale : List Nat} {changed : Bool}
      (hphase : s.phase = .received stale changed) :
      MainStep gap disk s (s.removeStale stale changed) []
  | evaluate (s : MainLoop) {changed : Bool} (hphase : s.phase = .evaluate changed) {now : Time}
      (hnow : s.now ≤ now) (hgap : now ≤ s.now + gap) (clock : Nat → Nat → Nat)
      (fails : Nat → Nat → Bool) :
      MainStep gap disk s (s.evaluate changed now clock fails)
        [.evaluated changed now
          (if fires evaluateInterval s.lastEvaluateTime ⟨now, changed⟩ then
            some (s.inputs clock).lastValues else none)]
  | replay (s : MainLoop) {now : Time} (hphase : s.phase = .replay now) :
      MainStep gap disk s (s.replay now)
        [.replayed now (fires replayInterval s.lastRelayReplayTime ⟨now, false⟩)]
  | save (s : MainLoop) {now : Time} (hphase : s.phase = .save now) (room : Room)
      (appending : Bytes → Appending) (hdisk : disk s.loop.tables appending) :
      MainStep gap disk s (s.save now room appending)
        [.saved now (if fires saveInterval s.lastSaveTime ⟨now, false⟩ then
          some (sampleOf s.loop.tables appending) else none)]
  /-- Another thread edits or runs rules. -/
  | operate (s : MainLoop) {engine : Engine} {events : List Rules.Event}
      (h : Rules.Step s.engine engine events) : MainStep gap disk s { s with engine := engine } []
  /-- Another thread sends a command. -/
  | command (s : MainLoop) (line : Bytes) (fails : Nat → Bool) :
      MainStep gap disk s (s.command line fails) []

/-! ## A whole iteration -/

/-- What the loop meets in an iteration. -/
structure Iteration where
  ready : List (Nat × Option Bytes)
  now : Time
  clock : Nat → Nat → Nat := fun _ _ => 0
  fails : Nat → Nat → Bool := fun _ _ => false
  room : Room
  appending : Bytes → Appending

namespace MainLoop

/-- An iteration up to the evaluation of the rules, and whether values changed. -/
def poll (s : MainLoop) (i : Iteration) : MainLoop × Bool :=
  let ((stale, handed), _) := receiveAll i.ready s.loop
  let changed := valuesChanged handed s.loop.tables
  ((s.receive i.ready).removeStale stale changed, changed)

/-- An iteration without the other threads. -/
def iterate (s : MainLoop) (i : Iteration) : MainLoop :=
  let (polled, changed) := s.poll i
  ((polled.evaluate changed i.now i.clock i.fails).replay i.now).save i.now i.room i.appending

def iterateEvents (s : MainLoop) (i : Iteration) : List MainEvent :=
  let (polled, changed) := s.poll i
  let evaluated := polled.evaluate changed i.now i.clock i.fails
  let replayed := evaluated.replay i.now
  [.received (receiveAll i.ready s.loop).1.2,
    .evaluated changed i.now
      (if fires evaluateInterval polled.lastEvaluateTime ⟨i.now, changed⟩ then
        some (polled.inputs i.clock).lastValues else none),
    .replayed i.now (fires replayInterval evaluated.lastRelayReplayTime ⟨i.now, false⟩),
    .saved i.now (if fires saveInterval replayed.lastSaveTime ⟨i.now, false⟩ then
      some (sampleOf replayed.loop.tables i.appending) else none)]

end MainLoop

/-! ## What the parts leave alone -/

/-- Only the clients, the plugs and the rules may differ. -/
structure Frame (s s' : MainLoop) : Prop where
  tables : s'.loop.tables = s.loop.tables
  files : s'.files = s.files
  now : s'.now = s.now
  lastSaveTime : s'.lastSaveTime = s.lastSaveTime
  lastEvaluateTime : s'.lastEvaluateTime = s.lastEvaluateTime
  lastRelayReplayTime : s'.lastRelayReplayTime = s.lastRelayReplayTime
  phase : s'.phase = s.phase

theorem Frame.refl (s : MainLoop) : Frame s s := ⟨rfl, rfl, rfl, rfl, rfl, rfl, rfl⟩

theorem Frame.trans {s s' s'' : MainLoop} (h : Frame s s') (h' : Frame s' s'') : Frame s s'' :=
  ⟨h'.tables.trans h.tables, h'.files.trans h.files, h'.now.trans h.now,
    h'.lastSaveTime.trans h.lastSaveTime, h'.lastEvaluateTime.trans h.lastEvaluateTime,
    h'.lastRelayReplayTime.trans h.lastRelayReplayTime, h'.phase.trans h.phase⟩

theorem frame_command (s : MainLoop) (line : Bytes) (fails : Nat → Bool) :
    Frame s (s.command line fails) := ⟨rfl, rfl, rfl, rfl, rfl, rfl, rfl⟩

theorem frame_commands (sent : List (Bytes × Nat)) (fails : Nat → Nat → Bool) (s : MainLoop) :
    Frame s (sent.foldl (fun s sent => s.command sent.1 (fails sent.2)) s) := by
  induction sent generalizing s with
  | nil => exact .refl s
  | cons line sent ih => exact (frame_command s line.1 (fails line.2)).trans (ih _)

/-- An evaluation, apart from the rules and their commands. -/
theorem frame_evaluate (s : MainLoop) (changed : Bool) (now : Time) (clock : Nat → Nat → Nat)
    (fails : Nat → Nat → Bool) :
    Frame
      { s with
        now := now
        phase := .replay now
        lastEvaluateTime := fired evaluateInterval ⟨now, changed⟩ s.lastEvaluateTime }
      (s.evaluate changed now clock fails) := by
  unfold MainLoop.evaluate fired
  split
  · let evaluated : MainLoop :=
      { s with
        now := now
        phase := .replay now
        engine := (evaluateRules (s.inputs clock) s.engine).2
        lastEvaluateTime := now }
    have hcommands : Frame evaluated _ :=
      frame_commands (sentCommands (evaluateRules (s.inputs clock) s.engine).1).zipIdx fails _
    exact ⟨hcommands.tables, hcommands.files, hcommands.now, hcommands.lastSaveTime,
      hcommands.lastEvaluateTime, hcommands.lastRelayReplayTime, hcommands.phase⟩
  · exact ⟨rfl, rfl, rfl, rfl, rfl, rfl, rfl⟩

theorem replay_eq (s : MainLoop) (now : Time) :
    s.replay now =
      { s with
        plugs := if fires replayInterval s.lastRelayReplayTime ⟨now, false⟩ then
          Monitor.replay s.loop.tables.lastValues s.plugs else s.plugs
        lastRelayReplayTime := fired replayInterval ⟨now, false⟩ s.lastRelayReplayTime
        phase := .save now } := by
  unfold MainLoop.replay fired
  split <;> rfl

theorem save_eq (s : MainLoop) (now : Time) (room : Room) (appending : Bytes → Appending) :
    s.save now room appending =
      { s with
        files := if fires saveInterval s.lastSaveTime ⟨now, false⟩ then
          appendValues s.loop.tables appending
            (writeFile room (ascii "registers.json") (registersFileText s.loop.tables) s.files)
          else s.files
        lastSaveTime := fired saveInterval ⟨now, false⟩ s.lastSaveTime
        phase := .select } := by
  unfold MainLoop.save fired
  split <;> rfl

theorem tables_removeStale (stale : List Nat) (loop : Loop) :
    (stale.foldl Loop.removeClient loop).tables = loop.tables := by
  induction stale generalizing loop with
  | nil => rfl
  | cons fd stale ih => exact ih _

theorem tables_receiveAll (ready : List (Nat × Option Bytes)) (loop : Loop) :
    (receiveAll ready loop).2.tables = handleLines (receiveAll ready loop).1.2 loop.tables := by
  induction ready generalizing loop with
  | nil => rfl
  | cons client ready ih =>
    obtain ⟨fd, received⟩ := client
    cases received with
    | none => exact ih loop
    | some chunk =>
      change (receiveAll ready (loop.receive fd chunk).2).2.tables = handleLines
        ((loop.receive fd chunk).1 ++ (receiveAll ready (loop.receive fd chunk).2).1.2) loop.tables
      rw [ih, handleLines_append]
      rfl

/-- An iteration is a run, from the head of the loop to its head. -/
theorem run_iterate {gap : Time} {disk : Tables → (Bytes → Appending) → Prop} (s : MainLoop)
    (i : Iteration) (hphase : s.phase = .select)
    (hready : (i.ready.map Prod.fst).Sublist s.loop.clients) (hnow : s.now ≤ i.now)
    (hgap : i.now ≤ s.now + gap)
    (hdisk : disk (handleLines (receiveAll i.ready s.loop).1.2 s.loop.tables) i.appending) :
    Run (MainStep gap disk) s (s.iterate i) (s.iterateEvents i) ∧ (s.iterate i).phase = .select := by
  let received := s.receive i.ready
  let polled := (s.poll i).1
  let evaluated := polled.evaluate (s.poll i).2 i.now i.clock i.fails
  let replayed := evaluated.replay i.now
  have hevaluated := frame_evaluate polled (s.poll i).2 i.now i.clock i.fails
  have htables : replayed.loop.tables =
      handleLines (receiveAll i.ready s.loop).1.2 s.loop.tables := by
    change (evaluated.replay i.now).loop.tables = _
    rw [replay_eq, ← tables_receiveAll]
    exact hevaluated.tables.trans (tables_removeStale _ _)
  have hreplayed : replayed.phase = .save i.now := by
    change (evaluated.replay i.now).phase = _
    rw [replay_eq]
  constructor
  · have h₁ : Run (MainStep gap disk) s received _ :=
      Run.next .start (MainStep.receive s i.ready hphase hready)
    have h₂ := Run.next h₁ (MainStep.removeStale received rfl)
    have h₃ := Run.next h₂ (MainStep.evaluate polled rfl hnow hgap i.clock i.fails)
    have h₄ := Run.next h₃ (MainStep.replay evaluated hevaluated.phase)
    exact Run.next h₄ (MainStep.save replayed hreplayed i.room i.appending (htables ▸ hdisk))
  · change (replayed.save i.now i.room i.appending).phase = .select
    rw [save_eq]

/-- A server that has just started, with one client. -/
def started : MainLoop where
  loop := { clients := [5] }
  now := 0
  lastSaveTime := 0
  lastEvaluateTime := 0
  lastRelayReplayTime := 0

/-- The client reports the power, and the loop saves it. -/
def powerIteration : Iteration where
  ready := [(5, some (ascii "15208 500\n"))]
  now := seconds 5
  room := some 1000
  appending _ := ⟨dayStart.time, some 100⟩

theorem run_started :
    Run (MainStep (seconds 5) WholeLines) started (started.iterate powerIteration)
        (started.iterateEvents powerIteration) ∧
      (started.iterate powerIteration).phase = .select := by
  exact run_iterate started powerIteration rfl (by decide) (by decide) (by decide)
    (wholeLines_of_all (fun _ => rfl) (by decide +kernel))

end InverterMonitor.Monitor
