import InverterMonitor.Simulator.Modbus

/-!
# The Modbus simulator on any stream of bytes

The simulator looks for requests in whatever it receives: it passes over a byte where no valid
frame begins, and over a frame where one does.

* `Found`: the frames of a stream, from the left;
* `stream_served`: in every stream the simulator serves these frames and no others;
* `noise_skipped`: bytes between the frames do not matter, as long as no frame begins in them.
-/

namespace InverterMonitor.Modbus
open Text Runs

/-! ## The frames of a stream -/

/-- The frames found from the left, and the last bytes, which are too few for a frame. -/
inductive Found : Bytes → List Bytes → Bytes → Prop
  | short {stream : Bytes} (h : stream.length < 8) : Found stream [] stream
  | skip {stream rest : Bytes} {frames : List Bytes} (hlong : 8 ≤ stream.length)
      (h : ¬ IsRequest (stream.take 8)) (hrest : Found (stream.drop 1) frames rest) :
      Found stream frames rest
  | frame {stream rest : Bytes} {frames : List Bytes} (h : IsRequest (stream.take 8))
      (hrest : Found (stream.drop 8) frames rest) : Found stream (stream.take 8 :: frames) rest

instance (frame : Bytes) : Decidable (IsRequest frame) :=
  decidable_of_iff
    (frame.length = 8 ∧ validCrc frame 8 = true ∧ (frame.getD 1 0 = 0x03 ∨ frame.getD 1 0 = 0x06))
    ⟨fun ⟨hlength, hcrc, hfunction⟩ => ⟨hlength, hcrc, hfunction⟩,
      fun h => ⟨h.length, h.crc, h.function⟩⟩

theorem IsRequest.long {stream : Bytes} (h : IsRequest (stream.take 8)) : 8 ≤ stream.length := by
  have hlength := h.length
  rw [List.length_take] at hlength
  omega

/-- A stream has one reading. -/
theorem Found.unique {stream rest rest' : Bytes} {frames frames' : List Bytes}
    (h : Found stream frames rest) (h' : Found stream frames' rest') :
    frames = frames' ∧ rest = rest' := by
  induction h generalizing frames' rest' with
  | short hshort =>
    cases h' with
    | short => exact ⟨rfl, rfl⟩
    | skip hlong => exact absurd hlong (Nat.not_le.mpr hshort)
    | frame hframe => exact absurd hframe.long (Nat.not_le.mpr hshort)
  | skip hlong hno _ ih =>
    cases h' with
    | short hshort => exact absurd hlong (Nat.not_le.mpr hshort)
    | skip _ _ hrest => exact ih hrest
    | frame hframe => exact absurd hframe hno
  | frame hframe _ ih =>
    cases h' with
    | short hshort => exact absurd hframe.long (Nat.not_le.mpr hshort)
    | skip _ hno => exact absurd hframe hno
    | frame _ hrest =>
      obtain ⟨hframes, hrests⟩ := ih hrest
      exact ⟨congrArg _ hframes, hrests⟩

/-! ## What the simulator makes of them -/

section

variable {generateMonitorValue : Nat → UInt16 → UInt16}

/-- Eight bytes at the front of a stream. -/
theorem exists_eight {stream : Bytes} (h : 8 ≤ stream.length) :
    ∃ a f b2 b3 b4 b5 b6 b7 later, stream = a :: f :: b2 :: b3 :: b4 :: b5 :: b6 :: b7 :: later := by
  match stream, h with
  | a :: f :: b2 :: b3 :: b4 :: b5 :: b6 :: b7 :: later, _ =>
    exact ⟨a, f, b2, b3, b4, b5, b6, b7, later, rfl⟩

theorem isRequest_eight {a f b2 b3 b4 b5 b6 b7 : Byte} :
    IsRequest [a, f, b2, b3, b4, b5, b6, b7] ↔
      (f = 0x03 ∨ f = 0x06) ∧ validCrc [a, f, b2, b3, b4, b5, b6, b7] 8 = true :=
  ⟨fun h => ⟨h.function, h.crc⟩, fun h => ⟨rfl, h.2, h.1⟩⟩

/-- Where no request begins, a turn passes over one byte. -/
theorem frameTurn_skip (slaveId : Byte) (s : Simulator) {stream : Bytes} (hlong : 8 ≤ stream.length)
    (h : ¬ IsRequest (stream.take 8)) :
    frameTurn generateMonitorValue slaveId s stream = some ([], s, stream.drop 1) := by
  obtain ⟨a, f, b2, b3, b4, b5, b6, b7, later, rfl⟩ := exists_eight hlong
  change ¬ IsRequest [a, f, b2, b3, b4, b5, b6, b7] at h
  rw [isRequest_eight, validCrc_eight] at h
  unfold frameTurn
  simp only [validCrc_eight]
  split
  · rfl
  · next hknown =>
    have hfunction : f = 0x03 ∨ f = 0x06 := by
      by_contra hother
      exact hknown (not_or.mp hother)
    rw [if_pos (by simpa using fun hcrc => h ⟨hfunction, hcrc⟩)]
    rfl

theorem frameTurn_short (slaveId : Byte) (s : Simulator) {stream : Bytes} (h : stream.length < 8) :
    frameTurn generateMonitorValue slaveId s stream = none := by
  unfold frameTurn
  split
  · simp only [List.length_cons] at h
    omega
  · rfl

/-- A turn waits for more bytes, passes over one, or takes a request. -/
theorem frameTurn_cases {history : List Request} {s : Simulator}
    (hs : s.registers = registersAfter history) (slaveId : Byte) (stream : Bytes) :
    (stream.length < 8 ∧ frameTurn generateMonitorValue slaveId s stream = none) ∨
    (8 ≤ stream.length ∧ ¬ IsRequest (stream.take 8) ∧
      frameTurn generateMonitorValue slaveId s stream = some ([], s, stream.drop 1)) ∨
    (IsRequest (stream.take 8) ∧ (stream.take 8).head? ≠ some slaveId ∧
      frameTurn generateMonitorValue slaveId s stream = some ([], s, stream.drop 8)) ∨
    (IsRequest (stream.take 8) ∧ (stream.take 8).head? = some slaveId ∧ ∃ response t,
      frameTurn generateMonitorValue slaveId s stream = some ([response], t, stream.drop 8) ∧
        IsResponse slaveId history (requestOf (stream.take 8)) response ∧
        t.registers = registersAfter (history ++ [requestOf (stream.take 8)])) := by
  by_cases hshort : stream.length < 8
  · exact .inl ⟨hshort, frameTurn_short slaveId s hshort⟩
  · have hlong := Nat.le_of_not_lt hshort
    by_cases hrequest : IsRequest (stream.take 8)
    · have hturn := @frameTurn_request generateMonitorValue history s hs slaveId _ hrequest
        (stream.drop 8)
      rw [List.take_append_drop] at hturn
      rcases hturn with ⟨hother, hturn⟩ | ⟨hslave, hturn⟩
      · exact .inr (.inr (.inl ⟨hrequest, hother, hturn⟩))
      · exact .inr (.inr (.inr ⟨hrequest, hslave, hturn⟩))
    · exact .inr (.inl ⟨hlong, hrequest, frameTurn_skip slaveId s hlong hrequest⟩)

/-- What the loop has done with a stream. -/
structure Served (slaveId : Byte) (history : List Request) (stream : Bytes) (frames : List Bytes)
    (x : Reception Simulator Byte Bytes) : Prop where
  found : Found stream frames x.rest
  answers : Answers slaveId history frames x.emitted
  registers : x.state.registers = registersAfter (history ++ requestsTo slaveId frames)

/-- The run lemma: the loop over any bytes. -/
theorem drain_served (slaveId : Byte) (s : Simulator) (stream : Bytes) {history : List Request}
    (hs : s.registers = registersAfter history) :
    ∃ frames, Served slaveId history stream frames
      ((server generateMonitorValue slaveId).drain s stream) := by
  induction s, stream using (server generateMonitorValue slaveId).drain_induction
    generalizing history with
  | hwait s stream hwait =>
    rcases frameTurn_cases hs slaveId stream with ⟨hshort, -⟩ | ⟨-, -, hturn⟩ | ⟨-, -, hturn⟩ |
      ⟨-, -, _, _, hturn, -⟩
    · rw [Consumer.drain_wait hwait]
      exact ⟨[], .short hshort, .done, by simpa [requestsTo] using hs⟩
    all_goals
      cases hwait.symm.trans hturn
  | hturn s stream emitted t rest h ih =>
    rw [Consumer.drain_turn h]
    rcases frameTurn_cases hs slaveId stream with ⟨-, hturn⟩ | ⟨hlong, hno, hturn⟩ |
      ⟨hrequest, hother, hturn⟩ | ⟨hrequest, hslave, response, u, hturn, hresponse, hu⟩
    · cases h.symm.trans hturn
    · cases h.symm.trans hturn
      obtain ⟨frames, hserved⟩ := ih hs
      exact ⟨frames, .skip hlong hno hserved.found, hserved.answers, hserved.registers⟩
    · cases h.symm.trans hturn
      obtain ⟨frames, hserved⟩ := ih hs
      refine ⟨stream.take 8 :: frames, .frame hrequest hserved.found,
        .other hother hserved.answers, ?_⟩
      rw [requestsTo, List.filter_cons_of_neg (by simpa using hother), ← requestsTo]
      exact hserved.registers
    · cases h.symm.trans hturn
      obtain ⟨frames, hserved⟩ := ih hu
      refine ⟨stream.take 8 :: frames, .frame hrequest hserved.found,
        .answered hslave hresponse hserved.answers, ?_⟩
      rw [requestsTo, List.filter_cons_of_pos (by simpa using hslave), List.map_cons,
        ← requestsTo, List.append_cons]
      exact hserved.registers

theorem registersAfter_nil : ({} : Simulator).registers = registersAfter [] := by
  funext register
  unfold registersAfter
  simp

end

/-- Whatever bytes the simulator receives, in whatever chunks: it answers the requests found in
them that are for its slave, in order and as a register server does, and no others; and only
they change its registers. -/
theorem stream_served (generateMonitorValue : Nat → UInt16 → UInt16) (slaveId : Byte)
    (chunks : List Bytes) :
    ∃ frames, Served slaveId [] chunks.flatten frames
      ((server generateMonitorValue slaveId).receiveAll {} chunks) := by
  rw [Consumer.receiveAll_flatten]
  exact drain_served slaveId {} chunks.flatten registersAfter_nil

/-! ## Noise -/

/-- No request begins in the noise before a frame. -/
def Quiet (noise frame : Bytes) : Prop :=
  ∀ k < noise.length, ¬ IsRequest ((noise.drop k ++ frame).take 8)

/-- No request begins in the bytes after the last frame. -/
def Silent (tail : Bytes) : Prop := ∀ k, ¬ IsRequest ((tail.drop k).take 8)

theorem found_silent {tail : Bytes} (h : Silent tail) : ∃ rest, Found tail [] rest := by
  induction tail with
  | nil => exact ⟨[], .short (by decide)⟩
  | cons b tail ih =>
    by_cases hshort : (b :: tail).length < 8
    · exact ⟨_, .short hshort⟩
    · obtain ⟨rest, hrest⟩ := ih fun k => h (k + 1)
      exact ⟨rest, .skip (Nat.le_of_not_lt hshort) (h 0) hrest⟩

/-- The noise before a frame is passed over. -/
theorem Found.of_quiet {noise frame later rest : Bytes} {frames : List Bytes}
    (hquiet : Quiet noise frame) (hframe : IsRequest frame) (h : Found later frames rest) :
    Found (noise ++ (frame ++ later)) (frame :: frames) rest := by
  have hlength := hframe.length
  induction noise with
  | nil =>
    have htake : (frame ++ later).take 8 = frame := by rw [← hlength, List.take_left]
    have hdrop : (frame ++ later).drop 8 = later := by rw [← hlength, List.drop_left]
    have hfound : Found (frame ++ later) ((frame ++ later).take 8 :: frames) rest :=
      .frame (by rw [htake]; exact hframe) (by rw [hdrop]; exact h)
    rwa [htake] at hfound
  | cons b noise ih =>
    refine .skip ?_ ?_ (ih fun k hk => hquiet (k + 1) (Nat.succ_lt_succ hk))
    · simp only [List.length_append, List.length_cons]
      omega
    · have hno := hquiet 0 (Nat.succ_pos _)
      have hwindow : (b :: noise ++ (frame ++ later)).take 8 = (b :: noise ++ frame).take 8 := by
        rw [← List.append_assoc, List.take_append_of_le_length]
        simp only [List.length_append, List.length_cons]
        omega
      rw [hwindow]
      exact hno

/-- For every sequence of requests with noise before each one and at the end, in which no other
request begins: whatever the chunks, exactly these requests are served. -/
theorem noise_skipped (generateMonitorValue : Nat → UInt16 → UInt16) (slaveId : Byte)
    (parts : List (Bytes × Bytes)) {tail : Bytes} {chunks : List Bytes}
    (hparts : ∀ part ∈ parts, Quiet part.1 part.2 ∧ IsRequest part.2) (htail : Silent tail)
    (hchunks : chunks.flatten = (parts.flatMap fun part => part.1 ++ part.2) ++ tail) :
    Served slaveId [] chunks.flatten (parts.map Prod.snd)
      ((server generateMonitorValue slaveId).receiveAll {} chunks) := by
  have hfound : ∃ rest, Found chunks.flatten (parts.map Prod.snd) rest := by
    rw [hchunks]
    clear hchunks
    induction parts with
    | nil => exact found_silent htail
    | cons part parts ih =>
      obtain ⟨hquiet, hframe⟩ := hparts part (by simp)
      obtain ⟨rest, hrest⟩ := ih fun p hp => hparts p (List.mem_cons_of_mem _ hp)
      refine ⟨rest, ?_⟩
      have hpart := hrest.of_quiet hquiet hframe
      rwa [← List.append_assoc, ← List.append_assoc] at hpart
  obtain ⟨rest, hrest⟩ := hfound
  obtain ⟨frames, hserved⟩ := stream_served generateMonitorValue slaveId chunks
  obtain ⟨hframes, -⟩ := hserved.found.unique hrest
  rwa [hframes] at hserved

def readVoltage : Bytes := appendCrc [0x04, 0x03, 0x4E, 0x86, 0x00, 0x01]

/-- A read behind two bytes of noise, cut inside the frame. -/
theorem noisy_read_served :
    Served 4 [] [[0x00, 0xFF, 0x04], readVoltage.drop 1].flatten [readVoltage]
      ((server (fun _ _ => 0) 4).receiveAll {} [[0x00, 0xFF, 0x04], readVoltage.drop 1]) := by
  have hquiet : Quiet [0x00, 0xFF] readVoltage := by
    unfold Quiet
    decide +kernel
  have hframe : IsRequest readVoltage := isRequest_appendCrc (Or.inl rfl)
  have hsilent : Silent [] := by
    intro k h
    rw [List.drop_nil] at h
    exact nomatch h.length
  refine noise_skipped (fun _ _ => 0) 4 [([0x00, 0xFF], readVoltage)] ?_ hsilent
    (by decide +kernel)
  exact List.forall_mem_singleton.mpr ⟨hquiet, hframe⟩

end InverterMonitor.Modbus
