import InverterMonitor.Firmware.Scheduler

/-!
# The intervals between scan passes

A pass that has done its last read is due again at a clock reading that wraps,
and a reading of zero means "at once".

* `Waiting.scan`: a pass that is not due stays idle;
* `next_pass_iff`: the next pass keeps the interval exactly when the interval is
  at most half a turn of the clock and the due time is not a multiple of a turn.
-/

namespace InverterMonitor.Firmware
open Text Scheduler

/-! ## The two kinds of passes -/

inductive Kind
  | monitor
  | control
  deriving DecidableEq, Repr

namespace Kind

def registerCount : Kind → Nat
  | monitor => monitorRegisterCount
  | control => controlRegisterCount

def reading : Kind → Nat → Reading
  | monitor, index => .monitor index
  | control, index => .control index

end Kind

namespace Scheduler

def scanIndex (s : Scheduler) : Kind → Nat
  | .monitor => s.monitorScanIndex
  | .control => s.controlScanIndex

def nextScanTime (s : Scheduler) : Kind → UInt32
  | .monitor => s.nextMonitorScanTime
  | .control => s.nextControlScanTime

def interval (s : Scheduler) : Kind → UInt32
  | .monitor => s.timing.monitorScanIntervalMs
  | .control => s.timing.controlScanIntervalMs

end Scheduler

/-- No pass of the kind is in progress, and the next one is due at `due`. -/
structure Waiting (kind : Kind) (due : UInt32) (s : Scheduler) : Prop where
  idle : kind.registerCount ≤ s.scanIndex kind
  next : s.nextScanTime kind = due

/-- The line resets the scan of the kind. -/
def Resets (kind : Kind) (line : Bytes × Outcome) : Prop :=
  match parseCommandLine line.1 with
  | .ok (.wifi _ _) => line.2.committed = true
  | .ok (.write _ _) => kind = .control ∧ line.2.written = true
  | _ => False

/-- No line of the iterations resets the scan of the kind. -/
def Unreset (kind : Kind) (iterations : List Iteration) : Prop :=
  ∀ i ∈ iterations, ∀ line ∈ i.lines, ¬ Resets kind line

/-! ## Waiting for the next pass -/

theorem Waiting.line {kind : Kind} {due : UInt32} {s : Scheduler} (h : Waiting kind due s)
    {line : Bytes × Outcome} (hline : ¬ Resets kind line) :
    Waiting kind due (scheduleLine line.1 line.2 s) := by
  unfold Resets at hline
  unfold scheduleLine
  cases hparse : parseCommandLine line.1 with
  | error message => exact h
  | ok command =>
    rw [hparse] at hline
    obtain ⟨hidle, hnext⟩ := h
    cases command with
    | wifi => simpa only [Command.schedule, if_neg hline] using ⟨hidle, hnext⟩
    | write =>
      by_cases hwritten : line.2.written = true
      · cases kind with
        | monitor => simpa only [Command.schedule, if_pos hwritten] using ⟨hidle, hnext⟩
        | control => exact absurd ⟨rfl, hwritten⟩ hline
      · simpa only [Command.schedule, if_neg hwritten] using ⟨hidle, hnext⟩
    | ctrlScanMs => cases kind <;> exact ⟨hidle, hnext⟩
    | monScanMs => cases kind <;> exact ⟨hidle, hnext⟩
    | regSpacingMs => cases kind <;> exact ⟨hidle, hnext⟩
    | _ => exact ⟨hidle, hnext⟩

theorem Waiting.lines {kind : Kind} {due : UInt32} {s : Scheduler} (h : Waiting kind due s)
    {lines : List (Bytes × Outcome)} (hlines : ∀ line ∈ lines, ¬ Resets kind line) :
    Waiting kind due (lines.foldl (fun s line => scheduleLine line.1 line.2 s) s) := by
  induction lines generalizing s with
  | nil => exact h
  | cons line lines ih =>
    rw [List.foldl_cons]
    exact ih (h.line (hlines line (by simp))) fun l hl => hlines l (by simp [hl])

/-- A pass that is not due does not begin. -/
theorem Waiting.scan {kind : Kind} {due : UInt32} {s : Scheduler} (h : Waiting kind due s)
    {now : UInt32} (hdue : ¬ PassDue now due) :
    Waiting kind due (s.scan now).1 ∧ ∀ index, (s.scan now).2 ≠ some (kind.reading index) := by
  have hscan := scan_scans now s
  generalize s.scan now = result at hscan ⊢
  obtain ⟨hidle, rfl⟩ := h
  cases kind with
  | monitor =>
    have hidle : monitorRegisterCount ≤ s.monitorScanIndex := hidle
    cases hscan with
    | monitorStart hstart => exact absurd hstart.2 hdue
    | monitor hindex => omega
    | monitorWait hindex => omega
    | controlStart =>
      refine ⟨⟨?_, ?_⟩, by simp [Kind.reading]⟩
      · simpa [Kind.registerCount, scanIndex, beginControl] using hidle
      · simp [nextScanTime, beginControl]
    | control =>
      refine ⟨⟨?_, ?_⟩, by simp [Kind.reading]⟩
      · simpa [Kind.registerCount, scanIndex] using hidle
      · simp [nextScanTime]
    | wait => exact ⟨⟨hidle, rfl⟩, by simp⟩
  | control =>
    have hidle : controlRegisterCount ≤ s.controlScanIndex := hidle
    have hstart : ¬ ControlStarts now s := fun hstart => hdue hstart.2
    have hkeep : s.startControlPass now = s := if_neg hstart
    cases hscan with
    | monitorStart =>
      have hkeep : (beginMonitor now s).startControlPass now = beginMonitor now s := if_neg hstart
      refine ⟨⟨?_, ?_⟩, by simp [Kind.reading]⟩
      · rw [hkeep]
        simpa [Kind.registerCount, scanIndex, beginMonitor] using hidle
      · rw [hkeep]
        exact (monitorRead_nextControlScanTime _ _).trans (if_pos (Or.inr hidle))
    | monitor =>
      refine ⟨⟨?_, ?_⟩, by simp [Kind.reading]⟩
      · simpa [Kind.registerCount, scanIndex, hkeep] using hidle
      · rw [hkeep]
        exact (monitorRead_nextControlScanTime _ _).trans (if_pos (Or.inr hidle))
    | monitorWait =>
      rw [hkeep]
      exact ⟨⟨hidle, rfl⟩, by simp⟩
    | controlStart _ _ hcontrol => exact absurd hcontrol hstart
    | control _ _ hpass => omega
    | wait => exact ⟨⟨hidle, rfl⟩, by simp⟩

/-- A due time that is neither a multiple of a turn nor more than half a turn
away is not taken for reached before it is. -/
theorem not_passDue {now due : Nat} (hnow : now < due) (hhalf : due ≤ now + 2 ^ 31)
    (hturn : due % 2 ^ 32 ≠ 0) : ¬ PassDue (UInt32.ofNat now) (UInt32.ofNat due) := by
  rintro (hzero | helapsed)
  · have hmod := congrArg UInt32.toNat hzero
    rw [UInt32.toNat_ofNat'] at hmod
    exact hturn hmod
  · have := (timeHasElapsed_early hnow (by omega)).mp helapsed
    omega

theorem readsOf_times {iterations : List Iteration} {s : Scheduler} {read : Read}
    (hread : read ∈ readsOf iterations s) : ∃ i ∈ iterations, read.time = i.time := by
  induction iterations generalizing s with
  | nil => simp [readsOf] at hread
  | cons i iterations ih =>
    rcases List.mem_append.mp hread with hread | hread
    · obtain ⟨reading, _, hreading⟩ := Option.map_eq_some_iff.mp (Option.mem_toList.mp hread)
      exact ⟨i, by simp, by rw [← hreading]⟩
    · obtain ⟨j, hj, htime⟩ := ih hread
      exact ⟨j, by simp [hj], htime⟩

/-- The run lemma: no pass of the kind begins before its due time. -/
theorem Waiting.reads {kind : Kind} {due : Nat} (hturn : due % 2 ^ 32 ≠ 0)
    {iterations : List Iteration} (horder : InOrder iterations)
    (hhalf : ∀ i ∈ iterations, due ≤ i.time + 2 ^ 31) (hunreset : Unreset kind iterations)
    {s : Scheduler} (h : Waiting kind (UInt32.ofNat due) s) {read : Read}
    (hread : read ∈ readsOf iterations s) {index : Nat} (hkind : read.reading = kind.reading index) :
    due ≤ read.time := by
  induction iterations generalizing s with
  | nil => simp [readsOf] at hread
  | cons i iterations ih =>
    obtain ⟨hfirst, horder⟩ := List.pairwise_cons.mp horder
    rcases Nat.lt_or_ge i.time due with hnow | hnow
    · have hlines := h.lines (hunreset i (by simp))
      obtain ⟨hwaiting, hnone⟩ := hlines.scan (not_passDue hnow (hhalf i (by simp)) hturn)
      rcases List.mem_append.mp hread with hread | hread
      · obtain ⟨reading, hreading, rfl⟩ := Option.map_eq_some_iff.mp (Option.mem_toList.mp hread)
        exact absurd (hkind ▸ hreading) (hnone index)
      · exact ih horder (fun j hj => hhalf j (by simp [hj])) (fun j hj => hunreset j (by simp [hj]))
          hwaiting hread
    · obtain ⟨j, hj, htime⟩ := readsOf_times hread
      rw [htime]
      rcases List.mem_cons.mp hj with rfl | hj
      · exact hnow
      · exact Nat.le_trans hnow (hfirst j hj)

/-! ## After the last read of a pass -/

/-- The iteration does the last read of a pass of the kind. -/
def EndsPass (kind : Kind) (i : Iteration) (s : Scheduler) : Prop :=
  i.read s = some ⟨kind.reading (kind.registerCount - 1), i.time⟩

/-- The state after the last read of a pass.  A control register is read only
when no monitor pass is due. -/
theorem scan_lastRead {kind : Kind} {now : UInt32} {s : Scheduler}
    (h : (s.scan now).2 = some (kind.reading (kind.registerCount - 1))) :
    Waiting kind (now + (s.scan now).1.interval kind) (s.scan now).1 ∧
      (kind = .control → monitorRegisterCount ≤ (s.scan now).1.monitorScanIndex ∧
        ¬ MonitorStarts now (s.scan now).1) := by
  have hscan := scan_scans now s
  generalize s.scan now = result at hscan h ⊢
  have hmonitors := monitorRegisterCount_pos
  have hcontrols := controlRegisterCount_pos
  cases kind with
  | monitor =>
    cases hscan with
    | monitorStart =>
      have h : Reading.monitor 0 = Reading.monitor (monitorRegisterCount - 1) := Option.some.inj h
      exact absurd h (by decide)
    | monitor hindex =>
      have hlast : s.monitorScanIndex = monitorRegisterCount - 1 := by
        simpa [Kind.reading, Kind.registerCount] using h
      refine ⟨⟨?_, ?_⟩, by simp⟩
      · simp only [Kind.registerCount, scanIndex, monitorRead_monitorScanIndex,
          startControlPass_monitorScanIndex]
        omega
      · simp only [nextScanTime, interval, monitorRead_nextMonitorScanTime, monitorRead_timing,
          startControlPass_monitorScanIndex]
        rw [if_neg (by omega)]
    | monitorWait => simp at h
    | controlStart => simp [Kind.reading] at h
    | control => simp [Kind.reading] at h
    | wait => simp at h
  | control =>
    cases hscan with
    | monitorStart => simp [Kind.reading] at h
    | monitor => simp [Kind.reading] at h
    | monitorWait => simp at h
    | controlStart =>
      have h : Reading.control 0 = Reading.control (controlRegisterCount - 1) := Option.some.inj h
      exact absurd h (by decide)
    | control hindex hmonitor hpass =>
      have hlast : s.controlScanIndex = controlRegisterCount - 1 := by
        simpa [Kind.reading, Kind.registerCount] using h
      refine ⟨⟨?_, ?_⟩, fun _ => ⟨?_, ?_⟩⟩
      · simp only [Kind.registerCount, scanIndex, controlRead_controlScanIndex]
        omega
      · simp only [nextScanTime, interval, controlRead_nextControlScanTime, controlRead_timing]
        rw [if_neg (by omega)]
      · simpa using hindex
      · simpa [MonitorStarts] using hmonitor
    | wait => simp at h

/-- A pass that is due begins, a control pass when no monitor pass is due. -/
theorem Waiting.scan_due {kind : Kind} {due now : UInt32} {s : Scheduler} (h : Waiting kind due s)
    (hdue : PassDue now due)
    (hmonitor : kind = .control → monitorRegisterCount ≤ s.monitorScanIndex ∧ ¬ MonitorStarts now s) :
    (s.scan now).2 = some (kind.reading 0) := by
  have hscan := scan_scans now s
  generalize s.scan now = result at hscan ⊢
  obtain ⟨hidle, rfl⟩ := h
  cases kind with
  | monitor =>
    have hstart : MonitorStarts now s := ⟨hidle, hdue⟩
    have hidle : monitorRegisterCount ≤ s.monitorScanIndex := hidle
    cases hscan with
    | monitorStart => rfl
    | monitor hindex => omega
    | monitorWait hindex => omega
    | controlStart _ hmonitor => exact absurd hstart hmonitor
    | control _ hmonitor => exact absurd hstart hmonitor
    | wait _ hmonitor => exact absurd hstart hmonitor
  | control =>
    obtain ⟨hmonitorIdle, hmonitorStart⟩ := hmonitor rfl
    have hstart : ControlStarts now s := ⟨hidle, hdue⟩
    have hidle : controlRegisterCount ≤ s.controlScanIndex := hidle
    cases hscan with
    | monitorStart h => exact absurd h hmonitorStart
    | monitor hindex => omega
    | monitorWait hindex => omega
    | controlStart => rfl
    | control _ _ hpass => omega
    | wait _ _ hcontrol => exact absurd hstart hcontrol

theorem passDue_of_wrapped {time : Nat} {interval : UInt32} (hinterval : interval ≠ 0)
    (h : ¬ (interval.toNat ≤ 2 ^ 31 ∧ (time + interval.toNat) % 2 ^ 32 ≠ 0)) :
    PassDue (UInt32.ofNat time) (UInt32.ofNat (time + interval.toNat)) := by
  have hlt := interval.toNat_lt
  have hpos : interval.toNat ≠ 0 := fun hzero => hinterval (UInt32.toNat_inj.mp hzero)
  by_cases hturn : (time + interval.toNat) % 2 ^ 32 = 0
  · left
    apply UInt32.toNat_inj.mp
    rw [UInt32.toNat_ofNat', hturn]
    rfl
  · right
    apply (timeHasElapsed_early (by omega) (by omega)).mpr
    omega

/-! ## When the interval is kept -/

theorem next_pass_iff {kind : Kind} {i : Iteration} {s : Scheduler} (hends : EndsPass kind i s)
    (haccepted : (i.scheduler s).interval kind ≠ 0) :
    (∀ iterations, InOrder (i :: iterations) → Unreset kind iterations →
      ∀ read ∈ readsOf iterations (i.scheduler s), read.reading = kind.reading 0 →
        i.time + ((i.scheduler s).interval kind).toNat ≤ read.time) ↔
      ((i.scheduler s).interval kind).toNat ≤ 2 ^ 31 ∧
        (i.time + ((i.scheduler s).interval kind).toNat) % 2 ^ 32 ≠ 0 := by
  have hlast : (loop (UInt32.ofNat i.time) i.lines s).2 =
      some (kind.reading (kind.registerCount - 1)) := by
    obtain ⟨reading, hreading, heq⟩ := Option.map_eq_some_iff.mp hends
    rw [hreading]
    exact congrArg (fun read => some read.reading) heq
  obtain ⟨hwaiting, hmonitor⟩ := scan_lastRead hlast
  change Waiting kind (UInt32.ofNat i.time + (i.scheduler s).interval kind) (i.scheduler s)
    at hwaiting
  rw [ofNat_add_interval] at hwaiting
  constructor
  · intro hkept
    by_contra hwrapped
    have hnow := hwaiting.scan_due (passDue_of_wrapped haccepted hwrapped) hmonitor
    have hread : (⟨kind.reading 0, i.time⟩ : Read) ∈
        readsOf [{ time := i.time }] (i.scheduler s) := by
      rw [readsOf, quiet_read rfl, hnow]
      simp
    have hle := hkept [{ time := i.time }] (by simp [InOrder]) (by simp [Unreset]) _ hread rfl
    have hzero : ((i.scheduler s).interval kind).toNat = 0 := by
      have : i.time + ((i.scheduler s).interval kind).toNat ≤ i.time := hle
      omega
    exact haccepted (UInt32.toNat_inj.mp hzero)
  · rintro ⟨hhalf, hturn⟩ iterations horder hunreset read hread hkind
    obtain ⟨hfirst, horder⟩ := List.pairwise_cons.mp horder
    apply hwaiting.reads hturn horder _ hunreset hread hkind
    intro j hj
    have := hfirst j hj
    omega

/-- The last monitor read at a clock reading of 4294962296 ms, with the default
interval of 5000 ms: the next pass begins within the same millisecond. -/
theorem interval_not_kept :
    ¬ ∀ (kind : Kind) (i : Iteration) (s : Scheduler), EndsPass kind i s →
      (i.scheduler s).interval kind ≠ 0 →
      ∀ iterations, InOrder (i :: iterations) → Unreset kind iterations →
      ∀ read ∈ readsOf iterations (i.scheduler s), read.reading = kind.reading 0 →
        i.time + ((i.scheduler s).interval kind).toNat ≤ read.time := by
  intro h
  have hle := h .monitor { time := 4294962296 }
    { monitorScanIndex := 5, nextMonitorScanTime := 4294962296, controlScanIndex := 22,
      nextControlScanTime := 4294967000 } (by rw [EndsPass]; decide) (by decide)
    [{ time := 4294962297 }] (by decide) (by simp [Unreset]) ⟨.monitor 0, 4294962297⟩ (by decide) rfl
  revert hle
  decide

theorem next_pass_iff_default :
    (∀ iterations, InOrder ({ time := 1500 } :: iterations) → Unreset .monitor iterations →
      ∀ read ∈ readsOf iterations (Iteration.scheduler { time := 1500 }
          { monitorScanIndex := 5, nextMonitorScanTime := 1500 }),
        read.reading = .monitor 0 → 1500 + 5000 ≤ read.time) ↔
      5000 ≤ 2 ^ 31 ∧ (1500 + 5000) % 2 ^ 32 ≠ 0 :=
  @next_pass_iff .monitor { time := 1500 } { monitorScanIndex := 5, nextMonitorScanTime := 1500 }
    (by rw [EndsPass]; decide) (by decide)

end InverterMonitor.Firmware
