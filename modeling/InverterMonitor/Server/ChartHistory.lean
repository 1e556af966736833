import InverterMonitor.Server.ChartDoubles
import InverterMonitor.Server.LoopReports

/-!
# From the registers to the charts

The main loop logs the registers, and a request for a chart reads a file that it has written.

* `TakenAt.of_map`: the same positions in two lists whose texts agree;
* `pointsInRange_logged`: what a run leaves in a chart's file is read back;
* `chart_history`: so a reply shows samples of the run with their exact values.
-/

namespace InverterMonitor.Monitor
open Text Cxx Registers Runs Http

/-! ## Positions -/

/-- The positions pick from two lists alike that `f` and `g` send to one list. -/
theorem TakenAt.of_map {α β γ : Type} {points chosen : List α} {positions : List Nat}
    {samples : List β} {f : α → γ} {g : β → γ} (h : TakenAt points positions chosen)
    (hmap : points.map f = samples.map g) :
    ∃ picked, TakenAt samples positions picked ∧ chosen.map f = picked.map g := by
  have hlength : points.length = samples.length := by simpa using congrArg List.length hmap
  refine ⟨_, ⟨h.increasing, fun p hp => hlength ▸ h.inside p hp, rfl⟩, ?_⟩
  rw [h.taken, List.map_filterMap, List.map_filterMap]
  refine List.filterMap_congr fun p hp => ?_
  rw [← List.getElem?_map, ← List.getElem?_map, hmap]

/-! ## Charts -/

theorem charts_files : ∀ chart ∈ charts, chart.file ∈ dataFiles ∧
    chartFile chart.number = some chart.file.name := by
  intro chart hchart
  simp only [charts, List.mem_cons, List.not_mem_nil, or_false] at hchart
  rcases hchart with rfl | rfl | rfl | rfl | rfl | rfl | rfl | rfl | rfl <;>
    exact ⟨by simp [dataFiles], rfl⟩

theorem pointsInRange_getD (file : Option Bytes) (fromTimestamp toTimestamp : Bytes) :
    pointsInRange file fromTimestamp toTimestamp =
      pointsInRange (some (file.getD [])) fromTimestamp toTimestamp := by
  cases file with
  | none => rfl
  | some content => rfl

variable {gap : Time} {start s : MainLoop} {history : List MainEvent} {chart : Chart}
  {old : List Sample}

/-- The reader finds the samples of earlier runs and of this one. -/
theorem pointsInRange_logged (hchart : chart ∈ charts)
    (hold : (start.files chart.file.name).getD [] = chart.file.content old)
    (hrun : Run (MainStep gap WholeLines) start s history) (fromTimestamp toTimestamp : Bytes) :
    (pointsInRange (s.files chart.file.name) fromTimestamp toTimestamp).map pointText =
      ((old ++ logged chart.file history).filter (InRange fromTimestamp toTimestamp)).map
        (sampleText chart.decimals) := by
  have hfile := (charts_files chart hchart).1
  rw [pointsInRange_getD, run_files hfile hrun, hold, ← content_append]
  exact pointsInRange_content hchart hfile fromTimestamp toTimestamp _

/-- In every run, with as many samples in range as the double's errors allow: a request for a
chart is answered with samples that the run and those before it have logged, each with the
exact value of the register, evenly spread from the first in range to the last. -/
theorem chart_history (hrun : Run (MainStep gap WholeLines) start s history)
    (hchart : chart ∈ charts)
    (hold : (start.files chart.file.name).getD [] = chart.file.content old)
    (env : Environment) (henv : env.dataFile = s.files) (authorized : Bool) {pointsCount : Nat}
    {fromTimestamp toTimestamp : Bytes} (hfrom : isWord fromTimestamp) (hto : isWord toTimestamp)
    (htwo : 2 ≤ pointsCount) (hcount : pointsCount < 2 ^ 64)
    (hsmall : ((old ++ logged chart.file history).filter
      (InRange fromTimestamp toTimestamp)).length * pointsCount ≤ 2 ^ 46) :
    ∃ positions picked,
      Spread ((old ++ logged chart.file history).filter
        (InRange fromTimestamp toTimestamp)).length pointsCount positions ∧
      TakenAt ((old ++ logged chart.file history).filter (InRange fromTimestamp toTimestamp))
        positions picked ∧
      handleHttpReqCommand env authorized
          (chartRequest chart.number pointsCount fromTimestamp toTimestamp) s.engine =
        .ok { success := true, responseBody := picked.flatMap (sampleText chart.decimals),
              engine := s.engine } := by
  have hname := (charts_files chart hchart).2
  have hpoints := pointsInRange_logged hchart hold hrun fromTimestamp toTimestamp
  have hlength := congrArg List.length hpoints
  rw [List.length_map, List.length_map] at hlength
  obtain ⟨positions, htaken, hspread⟩ := read_points_selected (s.files chart.file.name) hfrom.1
    hto.1 htwo (by rw [hlength]; exact hsmall)
  obtain ⟨picked, hpicked, htexts⟩ := TakenAt.of_map htaken hpoints
  rw [hlength] at hspread
  refine ⟨positions, picked, hspread, hpicked, ?_⟩
  rw [handleHttpReqCommand_chart env authorized s.engine hname (chartFile_lt hname) (by omega) hcount
    hfrom hto, henv, List.flatMap_def, htexts, ← List.flatMap_def]

/-- One sample after the first iteration. -/
theorem power_charted :
    ∃ picked : List Sample, picked.length = 1 ∧
      handleHttpReqCommand { dataFile := (started.iterate powerIteration).files } false
          (ascii "REQ 1 2 2024 2025|") (started.iterate powerIteration).engine =
        .ok { success := true
              responseBody := picked.flatMap (sampleText 0)
              engine := (started.iterate powerIteration).engine } := by
  have hone : (([] ++ logged powerFile (started.iterateEvents powerIteration)).filter
      (InRange (ascii "2024") (ascii "2025"))).length = 1 := by decide +kernel
  have hchart : (⟨1, powerFile, 0⟩ : Chart) ∈ charts := by simp [charts]
  have hempty : (started.files powerFile.name).getD [] = powerFile.content [] := rfl
  obtain ⟨positions, picked, hspread, hpicked, hreply⟩ := chart_history run_started.1
    hchart hempty { dataFile := (started.iterate powerIteration).files } rfl false
    (show isWord (ascii "2024") by decide) (show isWord (ascii "2025") by decide)
    (show 2 ≤ 2 by decide) (by decide) (by rw [hone]; decide)
  refine ⟨picked, ?_, hreply⟩
  rw [hpicked.length_eq, hspread.length_eq, hone]
  rfl

end InverterMonitor.Monitor
