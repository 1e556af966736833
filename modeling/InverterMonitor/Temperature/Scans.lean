import InverterMonitor.Runs.Periodic
import InverterMonitor.Temperature.Agreement

/-!
# The scans of the temperature monitor

`loop` of `temperature.ino` handles command lines and then reads the sensors, when its clock of
32 bits says that it is time, or when the next time is zero: after a reset, and when the sum of
the clock and the interval happens to be zero.

* `passDue_iff`: what the comparison of the clock says about real time;
* `StationStep.timed`: one pass of the loop;
* `scans_timed`: in which passes the monitor scans, and how often it does.
-/

namespace InverterMonitor.Temperature
open Text Cxx Runs Firmware Wire

/-! ## One pass -/

def temperatureScanInterval : Nat := 30000

/-- The part of `loop` that reads the sensors; the lines that it sends, if it does. -/
def Monitor.scan (m : Monitor) (now : UInt32) (getTempC : DeviceAddress → Float) :
    Monitor × Option (List Bytes) :=
  if Scheduler.PassDue now m.nextTemperatureScanTime then
    ({ m with nextTemperatureScanTime := now + temperatureScanInterval.toUInt32 },
      some (scanLines getTempC m.sensors))
  else (m, none)

theorem scan_sends (m : Monitor) (now : UInt32) (getTempC : DeviceAddress → Float) :
    ((m.scan now getTempC).2.isSome ↔ Scheduler.PassDue now m.nextTemperatureScanTime) ∧
      (m.scan now getTempC).1.nextTemperatureScanTime =
        if (m.scan now getTempC).2.isSome then now + temperatureScanInterval.toUInt32
        else m.nextTemperatureScanTime := by
  unfold Monitor.scan
  split
  · next hdue => exact ⟨iff_of_true rfl hdue, rfl⟩
  · next hdue => exact ⟨iff_of_false nofun hdue, rfl⟩

/-- The line was a command for other credentials. -/
def isWifi : Except Bytes Command → Bool
  | .ok (.wifi _ _) => true
  | _ => false

/-- The line is a command for other credentials, and they were saved. -/
def resets (world : World) (rawLine : Bytes) : Bool :=
  (settingsCommand rawLine).any isWifi && world.committed

/-- A rejected `WIFI` line, or one that could not be saved, leaves the time alone. -/
theorem handleWifi_nextScan (m : Monitor) (world : World) (remainder : Bytes) :
    ((handleWifi world remainder).execute m).state.nextTemperatureScanTime =
      if isWifi (parseWifi remainder) && world.committed then 0 else m.nextTemperatureScanTime := by
  unfold handleWifi parseWifi Procedure.execute
  cases twoArguments "invalid WIFI format, expected 'WIFI [ssid] [password]'" remainder with
  | error message => rfl
  | ok args =>
    obtain ⟨newSsid, newPass⟩ := args
    simp only [TemperatureHandler.check, Procedure.run_bind, Procedure.run_check_ok, ok_bind]
    split
    · rfl
    · next hlength =>
      have hfits := cString_fits hlength
      cases hcommit : world.committed <;>
        simp [TemperatureHandler.saveWiFiCredentials, Monitor.commit, Procedure.run_bind, hcommit,
          hfits, isWifi]

theorem handleHost_nextScan (m : Monitor) (world : World) (remainder : Bytes) :
    ((handleHost world remainder).execute m).state.nextTemperatureScanTime =
      m.nextTemperatureScanTime := by
  unfold handleHost Procedure.execute
  cases twoArguments "invalid HOST format, expected 'HOST [address] [port]'" remainder with
  | error message => rfl
  | ok args =>
    obtain ⟨newHost, newPort⟩ := args
    simp only [TemperatureHandler.check, Procedure.run_bind, Procedure.run_check_ok]
    split
    · rfl
    · next hlength =>
      cases strtoul32 newPort with
      | none => rfl
      | some rawPort =>
        simp only
        split
        · rfl
        · have hfits := cString_fits hlength
          cases hcommit : world.committed <;>
            simp [TemperatureHandler.saveMonitorServer, Monitor.commit, Procedure.run_bind, hcommit,
              hfits]

theorem isWifi_parseHost (remainder : Bytes) : isWifi (parseHost remainder) = false := by
  cases hparse : parseHost remainder with
  | error message => rfl
  | ok command =>
    obtain ⟨newHost, newPort, rawPort, rfl, -⟩ := parseHost_yields remainder command hparse
    rfl

/-- What `handleCommand` makes of the time of the next scan. -/
theorem handleCommand_nextScan (m : Monitor) (world : World) (rawLine : Bytes) :
    (m.handleCommand world rawLine).state.nextTemperatureScanTime =
      if resets world rawLine then 0 else m.nextTemperatureScanTime := by
  unfold Monitor.handleCommand handleCommandLine resets settingsCommand
  simp only
  by_cases hempty : trim rawLine = []
  · simp only [hempty, ↓reduceIte]
    rfl
  · simp only [hempty, ↓reduceIte]
    cases hwifi : afterStart (ascii "WIFI ") (trim rawLine) with
    | some remainder => exact handleWifi_nextScan m world remainder
    | none =>
      cases hhost : afterStart (ascii "HOST ") (trim rawLine) with
      | some remainder =>
        change ((handleHost world remainder).execute m).state.nextTemperatureScanTime =
          if isWifi (parseHost remainder) && world.committed then 0 else m.nextTemperatureScanTime
        rw [isWifi_parseHost, handleHost_nextScan]
        rfl
      | none =>
        change (Procedure.execute
          (if trim rawLine = ascii "DETECT" then handleDetect world else pure ())
            m).state.nextTemperatureScanTime = _
        split <;> rfl

theorem monitorAfter_nextScan (m : Monitor) (lines : List (Bytes × World)) :
    (monitorAfter m lines).nextTemperatureScanTime =
      if lines.any fun line => resets line.2 line.1 then 0 else m.nextTemperatureScanTime := by
  induction lines generalizing m with
  | nil => rfl
  | cons line lines ih =>
    change (monitorAfter (m.handleCommand line.2 line.1).state lines).nextTemperatureScanTime = _
    rw [ih, handleCommand_nextScan, List.any_cons]
    cases resets line.2 line.1 with
    | true => simp
    | false => rfl

/-! ## The clock -/

/-- Within half a turn of the clock, zero apart, the comparison is right. -/
theorem passDue_iff {now due : Nat} (hearly : due < now + 2 ^ 31) (hlate : now < due + 2 ^ 31) :
    Scheduler.PassDue (UInt32.ofNat now) (UInt32.ofNat due) ↔ 2 ^ 32 ∣ due ∨ due ≤ now := by
  have hzero : UInt32.ofNat due = 0 ↔ 2 ^ 32 ∣ due := by
    rw [← UInt32.toNat_inj, Nat.dvd_iff_mod_eq_zero]
    rfl
  rw [Scheduler.PassDue, hzero]
  refine or_congr_right ⟨fun helapsed => ?_, fun hdue => timeHasElapsed_of_le hdue hlate⟩
  by_contra hnow
  have hwrong := (timeHasElapsed_early (by omega) (by omega)).mp helapsed
  omega

/-! ## Runs of the loop -/

/-- The monitor, and the real time at which its loop last began. -/
structure Station where
  monitor : Monitor
  now : Nat

/-- A pass of the loop: when it began, whether a line reset the scan, and what it sent. -/
structure Pass where
  now : Nat
  reset : Bool
  sent : Option (List Bytes)

/-- One pass of the loop, which reads the clock before it handles the lines. -/
def Station.pass (s : Station) (now : Nat) (lines : List (Bytes × World))
    (getTempC : DeviceAddress → Float) : Station × Pass :=
  let scanned := (monitorAfter s.monitor lines).scan (UInt32.ofNat now) getTempC
  (⟨scanned.1, now⟩, ⟨now, lines.any fun line => resets line.2 line.1, scanned.2⟩)

/-- The loop, with passes that begin at most `gap` apart. -/
inductive StationStep (gap : Nat) (s : Station) : Station → List Pass → Prop
  | pass {now : Nat} (hnow : s.now ≤ now) (hgap : now ≤ s.now + gap)
      (lines : List (Bytes × World)) (getTempC : DeviceAddress → Float) :
      StationStep gap s (s.pass now lines getTempC).1 [(s.pass now lines getTempC).2]

/-- The time of the last scan. -/
def lastScan (passes : List Pass) : Option Nat :=
  last (fun pass => if pass.sent.isSome then some pass.now else none) passes

def scans (passes : List Pass) : List Pass := passes.filter fun pass => pass.sent.isSome

/-- A scan is due: none was made, the interval has passed since then, or the sum of clock and
interval was zero. -/
def ScanDue (passes : List Pass) (now : Nat) : Prop :=
  ∀ time ∈ lastScan passes,
    time + temperatureScanInterval ≤ now ∨ 2 ^ 32 ∣ time + temperatureScanInterval

/-- The timer that the loop keeps, in real time; a scan of another kind counts as forced. -/
structure Timed (gap : Nat) (start s : Station) (passes : List Pass) : Prop where
  law : Lawful (fun before pass => pass.sent.isSome ↔ pass.reset ∨ ScanDue before pass.now) passes
  next : s.monitor.nextTemperatureScanTime =
    (lastScan passes).elim 0 fun time => UInt32.ofNat (time + temperatureScanInterval)
  now_eq : s.now = lastTime start.now (passes.map Pass.now)
  ordered : Ordered start.now (passes.map Pass.now)
  frequent : Frequent gap start.now (passes.map Pass.now)
  kept : ∃ readings, readings.map Reading.now = passes.map Pass.now ∧
    Kept temperatureScanInterval start.now readings ((scans passes).map Pass.now)
      ((lastScan passes).getD start.now)

variable {gap : Nat} {start s s' : Station} {history passes : List Pass}

/-- The last scan lies less than the interval back. -/
theorem Timed.recent (h : Timed gap start s history) :
    (lastScan history).getD start.now ≤ s.now ∧
      s.now < (lastScan history).getD start.now + temperatureScanInterval := by
  obtain ⟨readings, hnows, hkept⟩ := h.kept
  have hordered := h.ordered
  rw [h.now_eq, ← hnows, hkept.last_eq]
  rw [← hnows] at hordered
  exact ⟨lastFired_le le_rfl hordered, lastTime_lt readings (by decide) (Nat.lt_add_of_pos_right (by decide))⟩

theorem Timed.passDue_iff (h : Timed gap start s history) (hgap : gap ≤ 2 ^ 31) {now : Nat}
    (hnow : s.now ≤ now) (hlate : now ≤ s.now + gap) :
    Scheduler.PassDue (UInt32.ofNat now) s.monitor.nextTemperatureScanTime ↔
      ScanDue history now := by
  have hrecent := h.recent
  rw [h.next]
  cases hlast : lastScan history with
  | none =>
    simp only [ScanDue, hlast, Option.elim_none]
    exact ⟨fun _ => nofun, fun _ => Or.inl rfl⟩
  | some time =>
    rw [hlast] at hrecent
    simp only [ScanDue, hlast, Option.elim_some, Option.mem_some_iff, forall_eq']
    have hinterval : temperatureScanInterval = 30000 := rfl
    rw [Option.getD_some] at hrecent
    rw [Temperature.passDue_iff (by omega) (by omega), or_comm]

/-- A pass scans and sets its timer, or it does neither. -/
theorem pass_scans (s : Station) (now : Nat) (lines : List (Bytes × World))
    (getTempC : DeviceAddress → Float) :
    ((s.pass now lines getTempC).2.sent.isSome ↔ (s.pass now lines getTempC).2.reset ∨
        Scheduler.PassDue (UInt32.ofNat now) s.monitor.nextTemperatureScanTime) ∧
      (s.pass now lines getTempC).1.monitor.nextTemperatureScanTime =
        if (s.pass now lines getTempC).2.sent.isSome then
          UInt32.ofNat (now + temperatureScanInterval)
        else s.monitor.nextTemperatureScanTime := by
  obtain ⟨hsent, hset⟩ := scan_sends (monitorAfter s.monitor lines) (UInt32.ofNat now) getTempC
  have hnext := monitorAfter_nextScan s.monitor lines
  have hinterval : UInt32.ofNat now + temperatureScanInterval.toUInt32 =
      UInt32.ofNat (now + temperatureScanInterval) := ofNat_add_interval now _
  unfold Station.pass
  generalize (monitorAfter s.monitor lines).scan (UInt32.ofNat now) getTempC = scanned at hsent hset ⊢
  rw [hinterval] at hset
  by_cases hreset : (lines.any fun line => resets line.2 line.1) = true
  · have hscanned := hsent.mpr (Or.inl (hnext.trans (if_pos hreset)))
    rw [if_pos hscanned] at hset
    exact ⟨iff_of_true hscanned (Or.inl hreset), hset.trans (if_pos hscanned).symm⟩
  · rw [if_neg hreset] at hnext
    rw [hnext] at hsent hset
    exact ⟨hsent.trans (or_iff_right hreset).symm, hset⟩

/-- The step lemma. -/
theorem StationStep.timed (hgap : gap ≤ 2 ^ 31) (hstep : StationStep gap s s' passes)
    (h : Timed gap start s history) : Timed gap start s' (history ++ passes) := by
  cases hstep with
  | pass hnow hlate lines getTempC =>
    rename_i now
    obtain ⟨hsent, hnext⟩ := pass_scans s now lines getTempC
    rw [h.passDue_iff hgap hnow hlate] at hsent
    obtain ⟨readings, hnows, hkept⟩ := h.kept
    obtain ⟨hlast, hrecent⟩ := h.recent
    have hread : (s.pass now lines getTempC).2.now = now := rfl
    have hbegan : (s.pass now lines getTempC).1.now = now := rfl
    generalize (s.pass now lines getTempC).1 = after at hnext hbegan ⊢
    generalize (s.pass now lines getTempC).2 = pass at hsent hnext hread ⊢
    subst hread
    have hscan : lastScan (history ++ [pass]) =
        if pass.sent.isSome then some pass.now else lastScan history := by
      rw [lastScan, last_concat]
      split <;> rfl
    refine ⟨h.law.concat hsent, ?_, ?_, ?_, ?_, ?_⟩
    · rw [hnext, hscan]
      split
      · rfl
      · exact h.next
    · rw [List.map_append, List.map_singleton, lastTime_concat, hbegan]
    · rw [List.map_append, List.map_singleton]
      exact h.ordered.concat (by rw [← h.now_eq]; exact hnow)
    · rw [List.map_append, List.map_singleton]
      exact h.frequent.concat (by rw [← h.now_eq]; exact hlate)
    · -- the reading is forced when the pass scanned
      refine ⟨readings ++ [⟨pass.now, pass.sent.isSome⟩], by simp [hnows], ?_⟩
      have hconcat := hkept.concat ⟨pass.now, pass.sent.isSome⟩
      have hfires : fires temperatureScanInterval ((lastScan history).getD start.now)
          ⟨pass.now, pass.sent.isSome⟩ = pass.sent.isSome := by
        cases hquiet : pass.sent.isSome with
        | true => rfl
        | false =>
          rw [hquiet] at hsent
          have hnot : ¬ ScanDue history pass.now := fun hdue => nomatch hsent.mpr (Or.inr hdue)
          cases htime : lastScan history with
          | none => exact absurd (fun time h => by simp [htime] at h) hnot
          | some time =>
            simp only [ScanDue, htime, Option.mem_some_iff, forall_eq', not_or, Nat.not_le] at hnot
            rw [Option.getD_some, fires, Bool.false_or, decide_eq_false_iff_not, Nat.not_le]
            change pass.now - time < temperatureScanInterval
            omega
      rw [fired, hfires] at hconcat
      rw [hscan, scans, List.filter_append, List.map_append]
      cases hquiet : pass.sent.isSome with
      | true =>
        rw [hquiet] at hconcat
        simpa [hquiet, scans] using hconcat
      | false =>
        rw [hquiet] at hconcat
        simpa [hquiet, scans] using hconcat

/-- A monitor that has just started. -/
def Station.Booted (s : Station) : Prop := s.monitor.nextTemperatureScanTime = 0

/-- In every run of the loop, with passes at most `gap` apart: a pass scans exactly when saved
credentials reset the scan or the next one is due, and no scan waits longer than the interval and a
gap after the one before it. -/
theorem scans_timed (hgap : gap ≤ 2 ^ 31) (hboot : start.Booted)
    (hrun : Run (StationStep gap) start s history) :
    Lawful (fun before pass => pass.sent.isSome ↔ pass.reset ∨ ScanDue before pass.now) history ∧
      Punctual temperatureScanInterval gap start.now ((scans history).map Pass.now) s.now ∧
      s.now < start.now + (temperatureScanInterval + gap) * ((scans history).length + 1) := by
  have htimed : Timed gap start s history := by
    refine hrun.invariant (P := Timed gap start) ?_ ?_
    · exact ⟨.nil, hboot, rfl, .nil, .nil, [], rfl, .nil _ _⟩
    · intro s s' history passes h hstep
      exact hstep.timed hgap h
  obtain ⟨readings, hnows, hkept⟩ := htimed.kept
  have hfrequent := htimed.frequent
  rw [← hnows] at hfrequent
  have hpunctual := hkept.punctual (by decide) (Nat.lt_add_of_pos_right (by decide)) hfrequent
  rw [hnows, ← htimed.now_eq] at hpunctual
  have hoften := hpunctual.lt_mul_length
  rw [List.length_map] at hoften
  exact ⟨htimed.law, hpunctual, hoften⟩

def bootedStation : Station := ⟨.boot (fun _ => 0xFF) (emptyBus true), 0⟩

/-- A first pass, and one that handles a `WIFI` line ten seconds later. -/
theorem wifi_rescans :
    let first := bootedStation.pass 100 [] fun _ => 0
    let second := first.1.pass 10100 [(ascii "WIFI net pass", (emptyBus true))] fun _ => 0
    (second.2.sent.isSome ↔ second.2.reset ∨ ScanDue [first.2] second.2.now) ∧
      Punctual temperatureScanInterval 10000 0 ((scans [first.2, second.2]).map Pass.now)
        second.1.now ∧
      second.1.now < 0 + (temperatureScanInterval + 10000) * ((scans [first.2, second.2]).length + 1) := by
  intro first second
  have hrun : Run (StationStep 10000) bootedStation second.1 [first.2, second.2] :=
    .next (.next .start (StationStep.pass (by decide) (by decide) _ _))
      (StationStep.pass (by decide) (by decide) _ _)
  have hboot : bootedStation.Booted := rfl
  obtain ⟨hlaw, hpunctual, hoften⟩ := scans_timed (by decide) hboot hrun
  exact ⟨hlaw [first.2] second.2 [] rfl, hpunctual, hoften⟩

end InverterMonitor.Temperature
