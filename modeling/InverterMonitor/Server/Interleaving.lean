import InverterMonitor.Runs.Sources
import InverterMonitor.Server.LoopReports

/-!
# Clients that report at the same time

The chunks of several clients arrive in any order, between connections that come and go.

* `run_lines`: under each number the loop hands over the lines of the bytes that came under it;
* `run_reports`: the tables are those after all lines handed over;
* `values_interleaved`: so a register ends with the last report of a client, as if it were alone.
-/

namespace InverterMonitor.Monitor
open Text Registers Runs

/-- The lines that an event hands over, with the number of the client. -/
def LoopEvent.handed : LoopEvent → List (Nat × Bytes)
  | .received fd _ handed => handed.map fun line => (fd, line)
  | _ => []

theorem ofSource_handed (fd : Nat) (history : List LoopEvent) :
    ofSource fd (history.flatMap LoopEvent.handed) = history.flatMap (LoopEvent.linesOn fd) := by
  induction history with
  | nil => rfl
  | cons event history ih =>
    rw [List.flatMap_cons, List.flatMap_cons, ofSource_append, ih]
    congr 1
    cases event with
    | accepted other => rfl
    | closed other => rfl
    | received other chunk lines =>
      by_cases hfd : other = fd <;>
        simp [LoopEvent.handed, LoopEvent.linesOn, ofSource, List.filterMap_map, hfd]

variable {start loop : Loop} {history : List LoopEvent}

/-- Under a number, the lines of all bytes that came under it. -/
theorem run_lines (h : Run LoopStep start loop history) (fd : Nat)
    (hpending : newline ∉ start.pending fd) :
    history.flatMap (LoopEvent.linesOn fd) =
      handedLines (splitLines (start.pending fd ++
        history.flatMap (LoopEvent.bytesOn fd))).1 :=
  linesOn_stretch (run_tracked h).lawful fd history
    (show history = [] ++ (history ++ []) by rw [List.append_nil, List.nil_append]) rfl hpending

theorem handed_closed (fds : List Nat) :
    (fds.map LoopEvent.closed).flatMap LoopEvent.handed = [] := by
  rw [List.flatMap_map]
  exact List.flatMap_eq_nil_iff.mpr fun fd _ => rfl

theorem run_reports (h : Run LoopStep start loop history) :
    loop.tables =
      handleLines ((history.flatMap LoopEvent.handed).map Prod.snd) start.tables := by
  refine h.invariant (P := fun loop history => loop.tables =
    handleLines ((history.flatMap LoopEvent.handed).map Prod.snd) start.tables) rfl ?_
  intro loop loop' history events ih hstep
  rw [List.flatMap_append, List.map_append, handleLines_append, ← ih]
  cases hstep with
  | accept hfd => rfl
  | stale hfd => rfl
  | broadcast fails =>
    rw [handed_closed]
    rfl
  | receive hfd chunk =>
    simp [LoopEvent.handed, Function.comp_def, Loop.receive]

/-- The lines that a client has sent under its number. -/
def ownLines (start : Loop) (history : List LoopEvent) (fd : Nat) : List Bytes :=
  handedLines (splitLines (start.pending fd ++ history.flatMap (LoopEvent.bytesOn fd))).1

/-- In every run, however the chunks of the clients interleave: a register that was reported ends
with the last report of one client, which is the client's own where no other one reports it; and
a register that was not keeps its value. -/
theorem values_interleaved (h : Run LoopStep start loop history)
    (hpending : ∀ fd, newline ∉ start.pending fd) (k : UInt16) :
    (∀ v, loop.tables.lastValues[k]? = some v →
      (∃ fd, last (reportOn k) (ownLines start history fd) = some v) ∨
        ((∀ fd, last (reportOn k) (ownLines start history fd) = none) ∧
          start.tables.lastValues[k]? = some v)) ∧
      ∀ fd, (∀ other, other ≠ fd → last (reportOn k) (ownLines start history other) = none) →
        loop.tables.lastValues[k]? =
          (last (reportOn k) (ownLines start history fd)).or start.tables.lastValues[k]? := by
  have hown : ∀ fd, ofSource fd (history.flatMap LoopEvent.handed) = ownLines start history fd :=
    fun fd => (ofSource_handed fd history).trans (run_lines h fd (hpending fd))
  have hvalue : loop.tables.lastValues[k]? =
      (lastOfAll (reportOn k) (history.flatMap LoopEvent.handed)).or
        start.tables.lastValues[k]? := by
    rw [run_reports h, handleLines_lastValues, lastOfAll_eq]
  simp only [← hown]
  constructor
  · intro v hv
    rw [hvalue] at hv
    cases hall : lastOfAll (reportOn k) (history.flatMap LoopEvent.handed) with
    | some w =>
      rw [hall, Option.some_or] at hv
      exact .inl (last_ofSource (hall.trans hv))
    | none =>
      rw [hall, Option.none_or] at hv
      exact .inr ⟨last_ofSource_none hall, hv⟩
  · intro fd hothers
    rw [hvalue, last_only_source hothers]

/-- Two clients in turns. -/
def twoClients : List LoopEvent :=
  [.accepted 5, .accepted 6, .received 5 (ascii "15205 2") [],
    .received 6 (ascii "10000 23\n") [ascii "10000 23"],
    .received 5 (ascii "40\n") [ascii "15205 240"]]

theorem pv_voltage_interleaved :
    ∃ loop, Run LoopStep {} loop twoClients ∧
      loop.tables.lastValues[(15205 : UInt16)]? = some 240 := by
  have hpending : ∀ fd, newline ∉ ({} : Loop).pending fd := fun fd => by simp [Loop.pending]
  let accepted := (Loop.accept {} 5).accept 6
  let begun := (accepted.receive 5 (ascii "15205 2")).2
  let sensed := (begun.receive 6 (ascii "10000 23\n")).2
  have hstart : Run LoopStep {} {} [] := .start
  have haccepted := (hstart.next (.accept {} (show 5 ∉ _ by decide))).next
    (.accept (Loop.accept {} 5) (show 6 ∉ _ by decide))
  have hbegun := haccepted.next (.receive accepted (show 5 ∈ _ by decide) (ascii "15205 2"))
  have hsensed := hbegun.next (.receive begun (show 6 ∈ _ by decide) (ascii "10000 23\n"))
  have hrun : Run LoopStep {} _ twoClients :=
    hsensed.next (.receive sensed (show 5 ∈ _ by decide) (ascii "40\n"))
  refine ⟨_, hrun, ?_⟩
  have hvalue := (values_interleaved hrun hpending 15205).2 5 ?_
  · exact hvalue.trans (by decide +kernel)
  · intro other hother
    by_cases hsix : other = 6
    · subst hsix
      decide +kernel
    · have hnone : twoClients.flatMap (LoopEvent.bytesOn other) = [] := by
        simp [twoClients, LoopEvent.bytesOn, Ne.symm hother, Ne.symm hsix]
      rw [ownLines, hnone]
      rfl

end InverterMonitor.Monitor
