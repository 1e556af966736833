import InverterMonitor.Server.MainLoop

/-!
# The timers of the main loop

Three timers of `serverLoop` read one clock in each iteration.

* `MainStep.timers`: a step leaves a timer alone or is one reading of it;
* `Clocked`: the three timers see the same readings;
* `timers_periodic`: how long the loop waits before it saves, replays and evaluates again, and
  how often it does in a given time.
-/

namespace InverterMonitor.Monitor
open Text Registers Runs Http Rules

/-! ## The timers over a run -/

/-- A timer of the loop: what the events say of it, and where the loop keeps it. -/
structure LoopTimer where
  interval : Time
  reading : MainEvent → Option Reading
  ran : MainEvent → Option Time
  last : MainLoop → Time

def evaluateTimer : LoopTimer where
  interval := evaluateInterval
  reading
    | .evaluated changed now _ => some ⟨now, changed⟩
    | _ => none
  ran
    | .evaluated _ now (some _) => some now
    | _ => none
  last := MainLoop.lastEvaluateTime

def replayTimer : LoopTimer where
  interval := replayInterval
  reading
    | .replayed now _ => some ⟨now, false⟩
    | _ => none
  ran
    | .replayed now true => some now
    | _ => none
  last := MainLoop.lastRelayReplayTime

def saveTimer : LoopTimer where
  interval := saveInterval
  reading
    | .saved now _ => some ⟨now, false⟩
    | _ => none
  ran
    | .saved now (some _) => some now
    | _ => none
  last := MainLoop.lastSaveTime

namespace LoopTimer

variable (timer : LoopTimer)

def readings (history : List MainEvent) : List Reading := history.filterMap timer.reading

/-- The times at which the timer made the loop act. -/
def runs (history : List MainEvent) : List Time := history.filterMap timer.ran

def times (history : List MainEvent) : List Time := (timer.readings history).map Reading.now

/-- A step does not touch the timer, or is one reading of it. -/
def Step (s s' : MainLoop) (events : List MainEvent) : Prop :=
  (timer.readings events = [] ∧ timer.runs events = [] ∧ timer.last s' = timer.last s) ∨
    ∃ reading, timer.readings events = [reading] ∧
      timer.runs events =
        (if fires timer.interval (timer.last s) reading then [reading.now] else []) ∧
      timer.last s' = fired timer.interval reading (timer.last s)

def Kept (start s : MainLoop) (history : List MainEvent) : Prop :=
  Runs.Kept timer.interval (timer.last start) (timer.readings history) (timer.runs history)
    (timer.last s)

variable {timer}

theorem Kept.step {start s s' : MainLoop} {history events : List MainEvent}
    (h : timer.Kept start s history) (hstep : timer.Step s s' events) :
    timer.Kept start s' (history ++ events) := by
  have hreadings : timer.readings (history ++ events) =
      timer.readings history ++ timer.readings events := List.filterMap_append
  have hruns : timer.runs (history ++ events) = timer.runs history ++ timer.runs events :=
    List.filterMap_append
  unfold LoopTimer.Kept
  rw [hreadings, hruns]
  rcases hstep with ⟨hnone, hquiet, hlast⟩ | ⟨reading, hread, hran, hlast⟩
  · rw [hnone, hquiet, hlast, List.append_nil, List.append_nil]
    exact h
  · rw [hread, hran, hlast]
    exact Runs.Kept.concat h reading

end LoopTimer

variable {gap : Time} {disk : Tables → (Bytes → Appending) → Prop} {start s s' : MainLoop}
  {history events : List MainEvent}

/-- The step lemma for the timers. -/
theorem MainStep.timers (hstep : MainStep gap disk s s' events) :
    evaluateTimer.Step s s' events ∧ replayTimer.Step s s' events ∧ saveTimer.Step s s' events := by
  cases hstep with
  | accept | receive | removeStale | operate | command =>
    exact ⟨.inl ⟨rfl, rfl, rfl⟩, .inl ⟨rfl, rfl, rfl⟩, .inl ⟨rfl, rfl, rfl⟩⟩
  | evaluate hphase hnow hgap clock fails =>
    rename_i changed now
    have hframe := frame_evaluate s changed now clock fails
    refine ⟨.inr ⟨⟨now, changed⟩, rfl, ?_, hframe.lastEvaluateTime⟩,
      .inl ⟨rfl, rfl, hframe.lastRelayReplayTime⟩, .inl ⟨rfl, rfl, hframe.lastSaveTime⟩⟩
    change LoopTimer.runs evaluateTimer [.evaluated changed now (if fires evaluateInterval
      s.lastEvaluateTime ⟨now, changed⟩ then _ else none)] =
        if fires evaluateInterval s.lastEvaluateTime ⟨now, changed⟩ then [now] else []
    split <;> rfl
  | replay hphase =>
    rename_i now
    rw [replay_eq]
    refine ⟨.inl ⟨rfl, rfl, rfl⟩, .inr ⟨⟨now, false⟩, rfl, ?_, rfl⟩, .inl ⟨rfl, rfl, rfl⟩⟩
    change LoopTimer.runs replayTimer
      [.replayed now (fires replayInterval s.lastRelayReplayTime ⟨now, false⟩)] =
        if fires replayInterval s.lastRelayReplayTime ⟨now, false⟩ then [now] else []
    split
    · next h =>
      rw [h]
      rfl
    · next h =>
      rw [Bool.eq_false_iff.mpr h]
      rfl
  | save hphase room appending hdisk =>
    rename_i now
    rw [save_eq]
    refine ⟨.inl ⟨rfl, rfl, rfl⟩, .inl ⟨rfl, rfl, rfl⟩, .inr ⟨⟨now, false⟩, rfl, ?_, rfl⟩⟩
    change LoopTimer.runs saveTimer [.saved now (if fires saveInterval s.lastSaveTime
      ⟨now, false⟩ then _ else none)] =
        if fires saveInterval s.lastSaveTime ⟨now, false⟩ then [now] else []
    split <;> rfl

/-! ## The readings of the clock -/

/-- The reading that the replay timer has yet to see in this iteration. -/
def Phase.unreplayed : Phase → List Time
  | .replay now => [now]
  | _ => []

def Phase.unsaved : Phase → List Time
  | .replay now => [now]
  | .save now => [now]
  | _ => []

/-- The readings go on in time, and the three timers see the same ones, one after the other. -/
structure Clocked (gap : Time) (start s : MainLoop) (history : List MainEvent) : Prop where
  now_eq : s.now = lastTime start.now (evaluateTimer.times history)
  ordered : Ordered start.now (evaluateTimer.times history)
  frequent : Frequent gap start.now (evaluateTimer.times history)
  replayTimes : replayTimer.times history ++ s.phase.unreplayed = evaluateTimer.times history
  saveTimes : saveTimer.times history ++ s.phase.unsaved = evaluateTimer.times history

theorem LoopTimer.times_append (timer : LoopTimer) (history events : List MainEvent) :
    timer.times (history ++ events) = timer.times history ++ timer.times events := by
  rw [LoopTimer.times, LoopTimer.readings, List.filterMap_append, List.map_append]
  rfl

/-- A step that reads no clock. -/
theorem Clocked.silent (h : Clocked gap start s history)
    (hevaluate : evaluateTimer.times events = []) (hnow : s'.now = s.now)
    (hreplay : replayTimer.times events ++ s'.phase.unreplayed = s.phase.unreplayed)
    (hsave : saveTimer.times events ++ s'.phase.unsaved = s.phase.unsaved) :
    Clocked gap start s' (history ++ events) := by
  have htimes : evaluateTimer.times (history ++ events) = evaluateTimer.times history := by
    rw [LoopTimer.times_append, hevaluate, List.append_nil]
  constructor
  · rw [htimes, hnow]
    exact h.now_eq
  · rw [htimes]
    exact h.ordered
  · rw [htimes]
    exact h.frequent
  · rw [htimes, LoopTimer.times_append, List.append_assoc, hreplay]
    exact h.replayTimes
  · rw [htimes, LoopTimer.times_append, List.append_assoc, hsave]
    exact h.saveTimes

/-- The step lemma for the clock. -/
theorem MainStep.clocked (hstep : MainStep gap disk s s' events) (h : Clocked gap start s history) :
    Clocked gap start s' (history ++ events) := by
  cases hstep with
  | accept hphase hfd => exact h.silent rfl rfl rfl rfl
  | receive ready hphase hready => exact h.silent rfl rfl (by rw [hphase]; rfl) (by rw [hphase]; rfl)
  | removeStale hphase => exact h.silent rfl rfl (by rw [hphase]; rfl) (by rw [hphase]; rfl)
  | operate h' => exact h.silent rfl rfl rfl rfl
  | command line fails => exact h.silent rfl rfl rfl rfl
  | evaluate hphase hnow hgap clock fails =>
    rename_i changed now
    have hframe := frame_evaluate s changed now clock fails
    have hreplayTimes := h.replayTimes
    have hsaveTimes := h.saveTimes
    have htimes : ∀ values, evaluateTimer.times (history ++ [.evaluated changed now values]) =
        evaluateTimer.times history ++ [now] := fun values => LoopTimer.times_append _ _ _
    rw [hphase] at hreplayTimes hsaveTimes
    constructor
    · rw [htimes, lastTime_concat, hframe.now]
    · rw [htimes]
      exact h.ordered.concat (by rw [← h.now_eq]; exact hnow)
    · rw [htimes]
      exact h.frequent.concat (by rw [← h.now_eq]; exact hgap)
    · rw [htimes, ← hreplayTimes, hframe.phase, LoopTimer.times_append]
      simp [replayTimer, LoopTimer.times, LoopTimer.readings, Phase.unreplayed]
    · rw [htimes, ← hsaveTimes, hframe.phase, LoopTimer.times_append]
      simp [saveTimer, LoopTimer.times, LoopTimer.readings, Phase.unsaved]
  | replay hphase =>
    rw [replay_eq]
    exact h.silent rfl rfl (by rw [hphase]; rfl) (by rw [hphase]; rfl)
  | save hphase room appending hdisk =>
    rw [save_eq]
    exact h.silent rfl rfl (by rw [hphase]; rfl) (by rw [hphase]; rfl)

theorem run_timers (hphase : start.phase = .select) (hrun : Run (MainStep gap disk) start s history) :
    Clocked gap start s history ∧ evaluateTimer.Kept start s history ∧
      replayTimer.Kept start s history ∧ saveTimer.Kept start s history := by
  refine hrun.invariant (P := fun s history => Clocked gap start s history ∧
    evaluateTimer.Kept start s history ∧ replayTimer.Kept start s history ∧
      saveTimer.Kept start s history) ?_ ?_
  · refine ⟨⟨rfl, .nil, .nil, ?_, ?_⟩, .nil _ _, .nil _ _, .nil _ _⟩
    · rw [hphase]
      rfl
    · rw [hphase]
      rfl
  · rintro s s' history events ⟨hclock, hevaluate, hreplay, hsave⟩ hstep
    obtain ⟨hstep₁, hstep₂, hstep₃⟩ := hstep.timers
    exact ⟨hstep.clocked hclock, hevaluate.step hstep₁, hreplay.step hstep₂, hsave.step hstep₃⟩

/-- The loop is at its head, and none of its timers is due. -/
structure Entered (start : MainLoop) : Prop where
  phase : start.phase = .select
  early : ∀ timer ∈ [evaluateTimer, replayTimer, saveTimer],
    timer.last start ≤ start.now ∧ start.now < timer.last start + timer.interval

/-- A timer acts once in its interval, give or take the time between two readings. -/
structure Periodic (timer : LoopTimer) (gap : Time) (start s : MainLoop)
    (history : List MainEvent) : Prop where
  apart : (timer.runs history).Pairwise fun early late => early + timer.interval ≤ late
  punctual : Punctual timer.interval gap (timer.last start) (timer.runs history) s.now
  most : timer.last start + timer.interval * (timer.runs history).length ≤ s.now
  least : s.now < timer.last start + (timer.interval + gap) * ((timer.runs history).length + 1)

theorem unforced_of {timer : LoopTimer}
    (h : ∀ event reading, timer.reading event = some reading → reading.forced = false)
    (history : List MainEvent) : Unforced (timer.readings history) := by
  intro reading hreading
  obtain ⟨event, -, hevent⟩ := List.mem_filterMap.mp hreading
  exact h event reading hevent

theorem LoopTimer.Kept.punctual {timer : LoopTimer} (h : timer.Kept start s history)
    (hclock : Clocked gap start s history) (hinterval : 0 < timer.interval)
    (hearly : start.now < timer.last start + timer.interval)
    (htimes : timer.times history = evaluateTimer.times history) :
    Punctual timer.interval gap (timer.last start) (timer.runs history) s.now := by
  have hfrequent := hclock.frequent
  rw [← htimes] at hfrequent
  rw [hclock.now_eq, ← htimes]
  exact Runs.Kept.punctual h hinterval hearly hfrequent

theorem LoopTimer.Kept.periodic {timer : LoopTimer} (h : timer.Kept start s history)
    (hclock : Clocked gap start s history) (hinterval : 0 < timer.interval)
    (hearly : timer.last start ≤ start.now ∧ start.now < timer.last start + timer.interval)
    (hunforced : ∀ event reading, timer.reading event = some reading → reading.forced = false)
    (htimes : timer.times history = evaluateTimer.times history) :
    Periodic timer gap start s history where
  apart := h.apart hinterval (unforced_of hunforced history)
  punctual := h.punctual hclock hinterval hearly.2 htimes
  most := by
    rw [hclock.now_eq, ← htimes]
    refine h.mul_length_le hinterval hearly.1 ?_ (unforced_of hunforced history)
    have hordered := hclock.ordered
    rwa [← htimes] at hordered
  least := (h.punctual hclock hinterval hearly.2 htimes).lt_mul_length

/-- In every run, with readings of the clock at most `gap` apart: the saves and the replays come
at least an interval apart, and none of the three timers waits longer than its interval and a
gap, between any two times at which it acts. -/
theorem timers_periodic (hstart : Entered start) (hrun : Run (MainStep gap disk) start s history)
    (hphase : s.phase = .select) :
    Periodic saveTimer gap start s history ∧ Periodic replayTimer gap start s history ∧
      Punctual evaluateInterval gap start.lastEvaluateTime (evaluateTimer.runs history) s.now ∧
      s.now < start.lastEvaluateTime +
        (evaluateInterval + gap) * ((evaluateTimer.runs history).length + 1) := by
  obtain ⟨hclock, hevaluate, hreplay, hsave⟩ := run_timers hstart.phase hrun
  have hreplayTimes := hclock.replayTimes
  have hsaveTimes := hclock.saveTimes
  rw [hphase] at hreplayTimes hsaveTimes
  have hevaluated := hevaluate.punctual hclock (by decide) (hstart.early _ (by simp)).2 rfl
  refine ⟨hsave.periodic hclock (by decide) (hstart.early _ (by simp)) ?_ ?_,
    hreplay.periodic hclock (by decide) (hstart.early _ (by simp)) ?_ ?_, hevaluated,
    hevaluated.lt_mul_length⟩
  · intro event reading hreading
    cases event <;> cases hreading
    rfl
  · exact (List.append_nil _).symm.trans hsaveTimes
  · intro event reading hreading
    cases event <;> cases hreading
    rfl
  · exact (List.append_nil _).symm.trans hreplayTimes

theorem entered_started : Entered started where
  phase := rfl
  early := by decide

/-- Nothing is reported, and the values are saved again. -/
def quietIteration : Iteration where
  ready := []
  now := seconds 10
  room := some 1000
  appending _ := ⟨dayStart.time, some 100⟩

/-- Two saves in the first ten seconds. -/
theorem saves_periodic :
    saveTimer.runs (started.iterateEvents powerIteration ++
        (started.iterate powerIteration).iterateEvents quietIteration) = [seconds 5, seconds 10] ∧
      Periodic saveTimer (seconds 5) started
        ((started.iterate powerIteration).iterate quietIteration)
        (started.iterateEvents powerIteration ++
          (started.iterate powerIteration).iterateEvents quietIteration) := by
  have hlater : Run (MainStep (seconds 5) WholeLines) (started.iterate powerIteration)
      ((started.iterate powerIteration).iterate quietIteration)
      ((started.iterate powerIteration).iterateEvents quietIteration) ∧
        ((started.iterate powerIteration).iterate quietIteration).phase = .select :=
    run_iterate _ quietIteration run_started.2 (List.nil_sublist _) (by decide +kernel)
      (by decide +kernel) (wholeLines_of_all (fun _ => rfl) (by decide +kernel))
  exact ⟨by decide +kernel,
    (timers_periodic entered_started (run_started.1.trans hlater.1) hlater.2).1⟩

end InverterMonitor.Monitor
