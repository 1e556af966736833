import InverterMonitor.Server.MainLoop

/-!
# Reports in the main loop

What the lines of the devices report about the registers, over runs of `serverLoop`.

* `handleLines_lastValues`: a register holds what was last reported of it;
* `reports_evaluated`: when a reception has brought a report, the rules see the last report of
  every register before the next reception;
* `files_logged`: a data file gets the value last reported, one line for each save.
-/

namespace InverterMonitor.Monitor
open Text Cxx Registers Runs Http Rules

/-! ## Reports -/

/-- The register and the value in a line that `updateAddressValue` accepts. -/
def addressReport (line : Bytes) : Option (UInt16 × Int16) := do
  let (rawAddr, s) ← extractUnsigned 64 line
  let (rawValue, _) ← extractUnsigned 64 s
  if 0xFFFF < rawAddr ∨ 0xFFFF < rawValue then none
  else return (rawAddr.toUInt16, Int16.ofNat rawValue)

/-- What a line says about a register. -/
def lineReport (line : Bytes) : Option (UInt16 × Int16) :=
  match relayReport line with
  | some report => some (report.relayIndex.toUInt16, report.value)
  | none => addressReport line

theorem updateAddressValue_eq (line : Bytes) (t : Tables) :
    updateAddressValue line t =
      (addressReport line).map fun report => t.recordValue report.1 report.2 := by
  unfold updateAddressValue addressReport
  cases extractUnsigned 64 line with
  | none => rfl
  | some address =>
    simp only [Option.bind_eq_bind, Option.bind_some]
    cases extractUnsigned 64 address.2 with
    | none => rfl
    | some value =>
      simp only [Option.bind_some]
      split <;> rfl

theorem handleLine_accepted (line : Bytes) (t : Tables) :
    (handleLine line t).1 = (lineReport line).isSome := by
  unfold handleLine lineReport
  rw [updateRelayStateWithIp_eq, updateAddressValue_eq]
  cases relayReport line with
  | some report => rfl
  | none => cases addressReport line <;> rfl

theorem handleLine_lastValues (line : Bytes) (t : Tables) (k : UInt16) :
    (handleLine line t).2.lastValues[k]? =
      ((lineReport line).bind fun report => if report.1 = k then some report.2 else none).or
        t.lastValues[k]? := by
  unfold handleLine lineReport
  rw [updateRelayStateWithIp_eq, updateAddressValue_eq]
  cases relayReport line with
  | some report =>
    simp only [Option.map_some, Tables.record, Tables.recordIp_lastValues,
      Tables.recordValue_lastValues, Option.bind_some]
    split <;> rfl
  | none =>
    cases addressReport line with
    | none => rfl
    | some report =>
      simp only [Option.map_none, Option.map_some, Tables.recordValue_lastValues, Option.bind_some]
      split <;> rfl

theorem valuesChanged_iff (lines : List Bytes) (t : Tables) :
    valuesChanged lines t = lines.any fun line => (lineReport line).isSome := by
  induction lines generalizing t with
  | nil => rfl
  | cons line lines ih => rw [valuesChanged, ih, handleLine_accepted, List.any_cons]

/-- What a line says about the register `k`. -/
def reportOn (k : UInt16) (line : Bytes) : Option Int16 :=
  (lineReport line).bind fun report => if report.1 = k then some report.2 else none

theorem handleLines_lastValues (lines : List Bytes) (t : Tables) (k : UInt16) :
    (handleLines lines t).lastValues[k]? =
      (Runs.last (reportOn k) lines).or t.lastValues[k]? := by
  induction lines generalizing t with
  | nil => rfl
  | cons line lines ih =>
    rw [Runs.last_cons, Option.or_assoc]
    refine (ih (handleLine line t).2).trans ?_
    rw [handleLine_lastValues]
    rfl

namespace MainEvent

/-- The lines that an event handed to the parsers. -/
def handed : MainEvent → List Bytes
  | .received lines => lines
  | _ => []

/-- What an event makes of the question whether reports wait for the rules. -/
def awaiting : MainEvent → Bool → Bool
  | .received lines, _ => lines.any fun line => (lineReport line).isSome
  | .evaluated _ _ (some _), _ => false
  | _, was => was

end MainEvent

/-- The value that was last reported for a register. -/
def reported (start : MainLoop) (history : List MainEvent) (k : UInt16) : Option Int16 :=
  (Runs.last (reportOn k) (history.flatMap MainEvent.handed)).or start.loop.tables.lastValues[k]?

/-- An evaluation and a save see the values last reported, and a reception finds no reports that
wait for the rules. -/
def UpToDate (start : MainLoop) (before : List MainEvent) : MainEvent → Prop
  | .received _ => follow MainEvent.awaiting before false = false
  | .evaluated _ _ values => ∀ v, values = some v → ∀ k : UInt16, v[k]? = reported start before k
  | .replayed _ _ => True
  | .saved _ samples => ∀ s, samples = some s → ∀ file ∈ dataFiles, ∀ sample ∈ s file,
      reported start before file.address = some sample.value

/-- Whether reports wait for the rules, by where the loop is. -/
def Phase.awaiting : Phase → Bool
  | .received _ changed => changed
  | .evaluate changed => changed
  | _ => false

structure Informed (start s : MainLoop) (history : List MainEvent) : Prop where
  tables : ∀ k : UInt16, s.loop.tables.lastValues[k]? = reported start history k
  awaiting : follow MainEvent.awaiting history false = s.phase.awaiting
  lawful : Lawful (UpToDate start) history

variable {gap : Time} {disk : Tables → (Bytes → Appending) → Prop} {start s s' : MainLoop}
  {history events : List MainEvent}

/-- A step without an event that reports or uses values. -/
theorem Informed.silent (h : Informed start s history)
    (htables : s'.loop.tables = s.loop.tables) (hphase : s'.phase.awaiting = s.phase.awaiting) :
    Informed start s' (history ++ []) := by
  rw [List.append_nil]
  exact ⟨fun k => htables ▸ h.tables k, h.awaiting.trans hphase.symm, h.lawful⟩

theorem Informed.event {event : MainEvent} (h : Informed start s history)
    (htables : s'.loop.tables = handleLines event.handed s.loop.tables)
    (hphase : s'.phase.awaiting = event.awaiting s.phase.awaiting)
    (hlaw : UpToDate start history event) : Informed start s' (history ++ [event]) := by
  refine ⟨fun k => ?_, ?_, h.lawful.concat hlaw⟩
  · rw [htables, handleLines_lastValues, h.tables, reported, reported, List.flatMap_append,
      Runs.last_append, Option.or_assoc]
    simp
  · rw [follow_append, h.awaiting, hphase]
    rfl

theorem value_of_sampleOf {t : Tables} {appending : Bytes → Appending} {file : DataFile}
    {sample : Sample} (h : sample ∈ sampleOf t appending file) :
    t.lastValues[file.address]? = some sample.value := by
  unfold sampleOf at h
  split at h
  · next value room hvalue hroom =>
    rw [hvalue, List.mem_singleton.mp h]
  · cases h

/-- The step lemma for the reports. -/
theorem MainStep.informed (hstep : MainStep gap disk s s' events) (h : Informed start s history) :
    Informed start s' (history ++ events) := by
  cases hstep with
  | accept hphase hfd => exact h.silent rfl rfl
  | operate h' => exact h.silent rfl rfl
  | command line fails => exact h.silent rfl rfl
  | removeStale hphase =>
    refine h.silent (tables_removeStale _ _) ?_
    rw [hphase]
    rfl
  | receive ready hphase hready =>
    refine h.event (tables_receiveAll ready s.loop) ?_ ?_
    · exact valuesChanged_iff _ _
    · rw [UpToDate, h.awaiting, hphase]
      rfl
  | evaluate hphase hnow hgap clock fails =>
    rename_i changed now
    have hframe := frame_evaluate s changed now clock fails
    refine h.event hframe.tables ?_ ?_
    · rw [hframe.phase, hphase]
      split
      · rfl
      -- what was not evaluated had not changed
      · next hquiet =>
        simp only [Runs.fires, Bool.or_eq_true, not_or, Bool.not_eq_true] at hquiet
        exact hquiet.1.symm
    · intro v hv k
      rw [← Option.some.inj (Option.ite_none_right_eq_some.mp hv).2]
      exact h.tables k
  | replay hphase =>
    rw [replay_eq]
    refine h.event rfl ?_ trivial
    rw [hphase]
    rfl
  | save hphase room appending hdisk =>
    rw [save_eq]
    refine h.event rfl ?_ ?_
    · rw [hphase]
      rfl
    · intro samples hsamples file hfile sample hsample
      rw [← Option.some.inj (Option.ite_none_right_eq_some.mp hsamples).2] at hsample
      rw [← h.tables]
      exact value_of_sampleOf hsample

theorem run_informed (hphase : start.phase = .select)
    (hrun : Run (MainStep gap disk) start s history) : Informed start s history := by
  refine hrun.invariant ⟨fun k => rfl, ?_, .nil⟩ fun _ _ _ _ h hstep => hstep.informed h
  rw [hphase]
  rfl

/-- The rules were evaluated with the value last reported for every register, and no line was
handed over since. -/
def Evaluated (start : MainLoop) (before during : List MainEvent) : Prop :=
  ∃ early changed now v late, during = early ++ .evaluated changed now (some v) :: late ∧
    ∀ k : UInt16, v[k]? = reported start (before ++ early) k

/-- A stretch without a reception that settles the reports has an evaluation. -/
theorem evaluated_of_settled {before during : List MainEvent}
    (hlaw : Lawful (UpToDate start) (before ++ during))
    (hwaiting : follow MainEvent.awaiting during true = false)
    (hno : ∀ lines, .received lines ∉ during) : Evaluated start before during := by
  obtain ⟨early, event, late, rfl, -, hchanged⟩ :=
    follow_changed (show follow MainEvent.awaiting during true ≠ true by
      rw [hwaiting]; exact Bool.false_ne_true)
  cases event with
  | received lines => exact absurd (by simp) (hno lines)
  | replayed now ran => exact absurd rfl hchanged
  | saved now samples => exact absurd rfl hchanged
  | evaluated changed now values =>
    cases values with
    | none => exact absurd rfl hchanged
    | some v =>
      refine ⟨early, changed, now, v, late, rfl, fun k => ?_⟩
      exact hlaw (before ++ early) (.evaluated changed now (some v)) late (by simp) v rfl k

/-- In every run: when a reception has brought a report, the rules are evaluated before the next
reception, with the value last reported for every register; and so they have been when the loop
is back at its head. -/
theorem reports_evaluated (hphase : start.phase = .select)
    (hrun : Run (MainStep gap disk) start s history) :
    ∀ before lines during after,
      history = before ++ .received lines :: (during ++ after) →
      (∃ line ∈ lines, lineReport line ≠ none) → (∀ lines', .received lines' ∉ during) →
      (∃ lines' rest, after = .received lines' :: rest) ∨ (after = [] ∧ s.phase = .select) →
      Evaluated start (before ++ [.received lines]) during := by
  intro before lines during after heq hreport hno hafter
  obtain ⟨-, hawaiting, hlaw⟩ := run_informed hphase hrun
  have hsplit : history = ((before ++ [.received lines]) ++ during) ++ after := by simpa using heq
  have hopen : follow MainEvent.awaiting (before ++ [.received lines]) false = true := by
    obtain ⟨line, hline, hsome⟩ := hreport
    rw [follow_append]
    change (lines.any fun line => (lineReport line).isSome) = true
    rw [List.any_eq_true]
    exact ⟨line, hline, Option.isSome_iff_ne_none.mpr hsome⟩
  have hclosed : follow MainEvent.awaiting ((before ++ [.received lines]) ++ during) false =
      false := by
    rcases hafter with ⟨lines', rest, rfl⟩ | ⟨rfl, hselect⟩
    · exact hlaw _ (.received lines') rest hsplit
    · rw [List.append_nil] at hsplit
      rw [← hsplit, hawaiting, hselect]
      rfl
  rw [follow_append, hopen] at hclosed
  refine evaluated_of_settled ?_ hclosed hno
  rw [hsplit] at hlaw
  exact hlaw.of_append

/-- The report of the first iteration is evaluated in it. -/
theorem power_evaluated :
    Evaluated started [.received (receiveAll powerIteration.ready started.loop).1.2]
      (started.iterateEvents powerIteration).tail := by
  have hreport : ∃ line ∈ (receiveAll powerIteration.ready started.loop).1.2,
      lineReport line ≠ none := ⟨ascii "15208 500", by decide +kernel, by decide +kernel⟩
  refine reports_evaluated rfl run_started.1 [] _ _ [] (by rw [List.append_nil]; rfl) hreport ?_
    (.inr ⟨rfl, run_started.2⟩)
  intro lines' hmem
  simp [MainLoop.iterateEvents] at hmem

/-! ## The data files over a run -/

/-- The samples that an event logs in a file. -/
def MainEvent.samples (file : DataFile) : MainEvent → List Sample
  | .saved _ (some samples) => samples file
  | _ => []

def logged (file : DataFile) (history : List MainEvent) : List Sample :=
  history.flatMap (MainEvent.samples file)

theorem content_append (file : DataFile) (samples samples' : List Sample) :
    file.content (samples ++ samples') = file.content samples ++ file.content samples' :=
  List.flatMap_append

theorem content_sampleOf {t : Tables} {appending : Bytes → Appending} {file : DataFile}
    (hfile : file ∈ dataFiles) :
    (sampleOf t appending file).flatMap (file.sampleLine t.relays) =
      file.content (sampleOf t appending file) := by
  unfold DataFile.content
  congr 1
  funext sample
  simp only [DataFile.sampleLine, DataFile.line, valueText_relays t hfile]

theorem writeFile_other (room : Room) {name other : Bytes} (text : Bytes) (files : Files)
    (h : other ≠ name) : writeFile room name text files other = files other := by
  unfold writeFile
  cases room with
  | none => rfl
  | some room => exact Function.update_of_ne h _ _

/-- The step lemma for the files. -/
theorem MainStep.files {file : DataFile} (hfile : file ∈ dataFiles)
    (hstep : MainStep gap WholeLines s s' events) :
    (s'.files file.name).getD [] = (s.files file.name).getD [] ++ file.content (logged file events) := by
  have hsame : ∀ {files : Files} {samples : List Sample}, files = s.files → samples = [] →
      (files file.name).getD [] = (s.files file.name).getD [] ++ file.content samples := by
    rintro files samples rfl rfl
    exact (List.append_nil _).symm
  cases hstep with
  | accept | receive | removeStale | operate | command => exact hsame rfl rfl
  | evaluate hphase hnow hgap clock fails =>
    rename_i changed now
    exact hsame (frame_evaluate s changed now clock fails).files rfl
  | replay hphase =>
    rw [replay_eq]
    exact hsame rfl rfl
  | save hphase room appending hdisk =>
    rw [save_eq]
    dsimp only
    split
    · have hother : file.name ≠ ascii "registers.json" := by
        have hall : ∀ name ∈ dataFiles.map DataFile.name, name ≠ ascii "registers.json" := by
          decide +kernel
        exact hall _ (List.mem_map_of_mem hfile)
      rw [appendValues_apply hdisk _ hfile, writeFile_other _ _ _ hother, content_sampleOf hfile]
      simp [logged, MainEvent.samples]
    · exact hsame rfl (by simp [logged, MainEvent.samples])

/-- What a run has added to a file. -/
theorem run_files {file : DataFile} (hfile : file ∈ dataFiles)
    (hrun : Run (MainStep gap WholeLines) start s history) :
    (s.files file.name).getD [] =
      (start.files file.name).getD [] ++ file.content (logged file history) := by
  refine hrun.invariant (P := fun s history => (s.files file.name).getD [] =
    (start.files file.name).getD [] ++ file.content (logged file history)) ?_ ?_
  · exact (List.append_nil _).symm
  · intro s s' history events h hstep
    have hlogged : logged file (history ++ events) = logged file history ++ logged file events :=
      List.flatMap_append
    rw [hstep.files hfile, h, hlogged, content_append, List.append_assoc]

/-- In every run whose lines are not cut short, a data file grows by one line for each save in
which it could be opened and its register had a value; the line holds the value last reported. -/
theorem files_logged (hphase : start.phase = .select)
    (hrun : Run (MainStep gap WholeLines) start s history) {file : DataFile}
    (hfile : file ∈ dataFiles) :
    (s.files file.name).getD [] =
        (start.files file.name).getD [] ++ file.content (logged file history) ∧
      ∀ before now samples after, history = before ++ .saved now (some samples) :: after →
        ∀ sample ∈ samples file, reported start before file.address = some sample.value := by
  refine ⟨run_files hfile hrun, fun before now samples after heq sample hsample => ?_⟩
  exact (run_informed hphase hrun).lawful before (.saved now (some samples)) after heq samples rfl
    file hfile sample hsample

/-- The first line of the data file. -/
theorem power_logged :
    ((started.iterate powerIteration).files powerFile.name).getD [] =
      ascii "2024-01-01T00:00:00Z 500\n" := by
  have hfile : powerFile ∈ dataFiles := by simp [dataFiles]
  rw [(files_logged rfl run_started.1 hfile).1]
  decide +kernel

end InverterMonitor.Monitor
