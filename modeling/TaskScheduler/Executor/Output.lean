import TaskScheduler.Library.Fallible
import TaskScheduler.Library.Utf8

namespace Scheduler

namespace Executor

open Fallible

abbrev Bytes := List UInt8

def outputLimit : Nat := 1048576

-- The length of the buffer that a pipe is read into.
def bufferLength : Nat := 8192

-- What the loop of `read_bounded` holds.
structure Capture where
  retained  : Bytes := []
  truncated : Bool  := false

namespace Capture

def extend (capture : Capture) (chunk : Bytes) : Capture :=
  let available := outputLimit - capture.retained.length
  { retained  := capture.retained ++ chunk.take (min chunk.length available)
    truncated := capture.truncated || available < chunk.length }

-- The loop over what the reads of a pipe give: a read of no bytes is the end.
def drain {ε} (capture : Capture) : (reads : List (Except ε Bytes)) → Except ε Capture
  | [] | .ok [] :: _   => .ok capture
  | .error e :: _      => .error e
  | .ok chunk :: reads => (capture.extend chunk).drain reads

end Capture

def readBounded {ε} (reads : List (Except ε Bytes)) : Except ε (String × Bool) := do
  let capture ← Capture.drain {} reads
  return (Utf8.fromUtf8Lossy capture.retained, capture.truncated)

-- A byte stream as the reader splits it.
structure Chunks where
  chunks   : List Bytes
  nonempty : ∀ chunk ∈ chunks, chunk ≠ []
  fits     : ∀ chunk ∈ chunks, chunk.length ≤ bufferLength

namespace Chunks

abbrev stream (c : Chunks) : Bytes :=
  c.chunks.flatten

def reads {ε} (c : Chunks) : List (Except ε Bytes) :=
  c.chunks.map .ok

end Chunks

structure OutputMetadata where
  stdoutBytes     : Nat
  stderrBytes     : Nat
  stdoutTruncated : Bool
  stderrTruncated : Bool

-- What `run_process` reports of the output of a process.
structure ProcessOutput where
  stdout : String
  stderr : String
  output : OutputMetadata
  error  : Option String

def ProcessOutput.report (stdout : String) (stdoutTruncated : Bool) (stderr : String)
    (stderrTruncated : Bool) : ProcessOutput where
  stdout := stdout
  stderr := stderr
  output := {
    stdoutBytes     := stdout.utf8ByteSize
    stderrBytes     := stderr.utf8ByteSize
    stdoutTruncated := stdoutTruncated
    stderrTruncated := stderrTruncated }
  error  :=
    if stdoutTruncated || stderrTruncated then
      some "task output was truncated at 1 MiB per stream"
    else
      none

-- The output is abandoned if the readers have not ended in the two seconds they are given.
def collectOutput {ε} (ended : Bool) (stdout stderr : Except ε (String × Bool)) :
    Except ε (String × Bool × String × Bool) :=
  if ended then do
    let stdout ← stdout
    let stderr ← stderr
    return (stdout.1, stdout.2, stderr.1, stderr.2)
  else
    return ("", true, "", true)

def processOutput {ε} (ended : Bool) (stdout stderr : List (Except ε Bytes)) :
    Except ε ProcessOutput := do
  let (stdout, stdoutTruncated, stderr, stderrTruncated) ←
    collectOutput ended (readBounded stdout) (readBounded stderr)
  return .report stdout stdoutTruncated stderr stderrTruncated

-- What the loop holds after a part of the stream.
structure Capture.Holds (capture : Capture) (stream : Bytes) : Prop where
  retained  : capture.retained = stream.take outputLimit
  truncated : capture.truncated ↔ outputLimit < stream.length

section Reading

variable {ε : Type} {stream : Bytes} {chunks : List Bytes} {capture : Capture}

theorem Capture.Holds.nil : Capture.Holds {} [] where
  retained  := rfl
  truncated := by simp

theorem Capture.Holds.extend (h : capture.Holds stream) (chunk : Bytes) :
    (capture.extend chunk).Holds (stream ++ chunk) where
  retained := by
    have ha : outputLimit - min outputLimit stream.length = outputLimit - stream.length := by omega
    simp only [Capture.extend, h.retained, List.length_take, ha, List.take_append]
    rw [min_comm, ← List.take_eq_take_min]
  truncated := by
    simp only [Capture.extend, Bool.or_eq_true, h.truncated, h.retained, List.length_take,
      decide_eq_true_eq, List.length_append]
    omega

theorem Capture.drain_cons {chunk : Bytes} {reads : List (Except ε Bytes)} (h : chunk ≠ []) :
    capture.drain (.ok chunk :: reads) = (capture.extend chunk).drain reads := by
  cases chunk
  case nil  => contradiction
  case cons => rw [Capture.drain]; simp

theorem Capture.Holds.drain (h : capture.Holds stream) (hn : ∀ chunk ∈ chunks, chunk ≠ []) :
    ∃ capture', capture.drain (chunks.map (Except.ok (ε := ε))) = .ok capture' ∧
      capture'.Holds (stream ++ chunks.flatten) := by
  induction chunks generalizing capture stream
  case nil => exact ⟨capture, by simp [Capture.drain], by simpa using h⟩
  case cons chunk chunks hi =>
    have ⟨hc, hn⟩ := List.forall_mem_cons.mp hn
    have ⟨capture', hd, h'⟩ := hi (h.extend chunk) hn
    exact ⟨capture', (Capture.drain_cons hc).trans hd, by simpa using h'⟩

theorem Chunks.drain_reads (chunks : Chunks) :
    ∃ capture, Capture.drain {} (chunks.reads (ε := ε)) = .ok capture ∧
      capture.Holds chunks.stream := by
  have ⟨capture, hd, h⟩ := Capture.Holds.nil.drain (ε := ε) chunks.nonempty
  exact ⟨capture, hd, by simpa using h⟩

-- The chunks that the stream comes in make no difference.
theorem Chunks.readBounded_reads (chunks : Chunks) :
    readBounded (chunks.reads (ε := ε)) =
      .ok (Utf8.fromUtf8Lossy (chunks.stream.take outputLimit),
        outputLimit < chunks.stream.length) := by
  have ⟨capture, hd, h⟩ := chunks.drain_reads (ε := ε)
  have ht : capture.truncated = decide (outputLimit < chunks.stream.length) := by
    rw [Bool.eq_iff_iff, h.truncated, decide_eq_true_eq]
  rw [readBounded, hd, ← h.retained, ← ht]
  rfl

end Reading

-- What the capture of a stream is to be, however it is split.
structure BoundedCapture (ε : Type) (chunks : Chunks) : Prop where
  kept   : ∃ capture, Capture.drain {} (chunks.reads (ε := ε)) = .ok capture ∧
    capture.retained = chunks.stream.take (min chunks.stream.length outputLimit)
  text   : ∃ text truncated, readBounded (chunks.reads (ε := ε)) = .ok (text, truncated) ∧
    (truncated ↔ outputLimit < chunks.stream.length) ∧ text.utf8ByteSize ≤ outputLimit
  stdout : ∀ ended stderr process,
    processOutput (ε := ε) ended chunks.reads stderr = .ok process →
    process.output.stdoutBytes ≤ outputLimit
  stderr : ∀ ended stdout process,
    processOutput (ε := ε) ended stdout chunks.reads = .ok process →
    process.output.stderrBytes ≤ outputLimit

section Bounds

variable {ε : Type} {chunks : Chunks} {ended : Bool} {stdout stderr : List (Except ε Bytes)}
  {process : ProcessOutput}

-- The byte counts are those of the texts, and none where the readers are given up.
theorem processOutput_bytes (h : processOutput ended stdout stderr = .ok process) :
    (process.output.stdoutBytes = 0 ∨ ∃ text truncated,
      readBounded stdout = .ok (text, truncated) ∧
      process.output.stdoutBytes = text.utf8ByteSize) ∧
    (process.output.stderrBytes = 0 ∨ ∃ text truncated,
      readBounded stderr = .ok (text, truncated) ∧
      process.output.stderrBytes = text.utf8ByteSize) := by
  have ⟨(out, outTruncated, err, errTruncated), hc, hp⟩ := bind_eq_ok.mp h
  cases hp
  cases ended
  case false =>
    cases hc
    exact ⟨.inl rfl, .inl rfl⟩
  case true =>
    have ⟨o, ho, hc⟩ := bind_eq_ok.mp hc
    have ⟨e, he, hc⟩ := bind_eq_ok.mp hc
    cases hc
    exact ⟨.inr ⟨_, _, ho, rfl⟩, .inr ⟨_, _, he, rfl⟩⟩

theorem processOutput_of_ended {out err : String × Bool} (ho : readBounded stdout = .ok out)
    (he : readBounded stderr = .ok err) :
    processOutput true stdout stderr = .ok (.report out.1 out.2 err.1 err.2) := by
  rw [processOutput, ho, he]
  rfl

theorem size_text_le_iff :
    (Utf8.fromUtf8Lossy (chunks.stream.take outputLimit)).utf8ByteSize ≤ outputLimit ↔
      Utf8.growth (chunks.stream.take outputLimit) ≤
        outputLimit - min chunks.stream.length outputLimit := by
  rw [Utf8.utf8ByteSize_fromUtf8Lossy, List.length_take]
  omega

theorem size_repeated {chunks : Chunks} {b : UInt8} {n : Nat}
    (h : chunks.stream = List.replicate n b) (hb : Utf8.ranges b = none) (hn : n ≤ outputLimit) :
    (Utf8.fromUtf8Lossy (chunks.stream.take outputLimit)).utf8ByteSize = 3 * n := by
  rw [h, List.take_of_length_le (by simpa), Utf8.utf8ByteSize_fromUtf8Lossy, List.length_replicate,
    Utf8.growth_replicate hb]
  omega

-- All that can go wrong is that the text has more bytes than were kept.
theorem boundedCapture_iff_size :
    BoundedCapture ε chunks ↔
      (Utf8.fromUtf8Lossy (chunks.stream.take outputLimit)).utf8ByteSize ≤ outputLimit := by
  have hr := chunks.readBounded_reads (ε := ε)
  constructor
  case mp =>
    intro h
    have ⟨text, truncated, ht, _, hs⟩ := h.text
    cases hr.symm.trans ht
    exact hs
  case mpr =>
    intro hs
    have hb : ∀ text truncated, readBounded (chunks.reads (ε := ε)) = .ok (text, truncated) →
        text.utf8ByteSize ≤ outputLimit := fun text truncated ht => by
      cases hr.symm.trans ht
      exact hs
    have ⟨capture, hd, hh⟩ := chunks.drain_reads (ε := ε)
    refine ⟨⟨capture, hd, ?kept⟩, ⟨_, _, hr, by simp, hs⟩, fun _ _ _ h => ?stdout,
      fun _ _ _ h => ?stderr⟩
    case kept => rw [hh.retained, min_comm, ← List.take_eq_take_min]
    case stdout =>
      rcases (processOutput_bytes h).left with h | ⟨text, truncated, ht, h⟩
      case inl => omega
      case inr => exact h ▸ hb text truncated ht
    case stderr =>
      rcases (processOutput_bytes h).right with h | ⟨text, truncated, ht, h⟩
      case inl => omega
      case inr => exact h ▸ hb text truncated ht

end Bounds

-- The replacement characters for what is ill-formed in the kept bytes have to fit in the room that
-- is left of the limit.
theorem capture_bounded_iff (ε : Type) (chunks : Chunks) :
    BoundedCapture ε chunks ↔
      ∃ pieces, Utf8.Splits (chunks.stream.take outputLimit) pieces ∧
        (pieces.map Utf8.Piece.growth).sum ≤
          outputLimit - min chunks.stream.length outputLimit := by
  rw [boundedCapture_iff_size, size_text_le_iff]
  constructor
  case mp  => exact fun h => ⟨_, Utf8.splits_pieces _, h⟩
  case mpr => exact fun ⟨_, hs, h⟩ => hs.growth_eq ▸ h

namespace Sample

def shortOutput : Chunks where
  chunks   := [[0x6F, 0x6B], [0xFF], [0x0A]]
  nonempty := by decide
  fits     := by decide

-- A process that writes one byte again and again.
def repeated (b : UInt8) (count length : Nat) (hn : length ≠ 0) (hf : length ≤ bufferLength) :
    Chunks where
  chunks       := .replicate count (.replicate length b)
  nonempty _ h := by simp [List.eq_of_mem_replicate h, hn]
  fits _ h     := by simp [List.eq_of_mem_replicate h, hf]

theorem stream_repeated {b : UInt8} {count length : Nat} (hn : length ≠ 0)
    (hf : length ≤ bufferLength) :
    (repeated b count length hn hf).stream = List.replicate (count * length) b := by
  simp [repeated, Chunks.stream]

-- A mebibyte of a byte that is in no text, as it is read in full buffers.
def binaryOutput : Chunks :=
  repeated 0xFF 128 8192 (by decide) (by decide)

theorem stream_binaryOutput : binaryOutput.stream = List.replicate outputLimit 0xFF :=
  stream_repeated (by decide) (by decide)

end Sample

theorem capture_bounded_iff_short : BoundedCapture Unit Sample.shortOutput := by
  refine (capture_bounded_iff Unit Sample.shortOutput).mpr ⟨_, Utf8.splits_pieces _, ?_⟩
  simp [Sample.shortOutput, Chunks.stream, Utf8.pieces, Utf8.ranges, outputLimit, Utf8.matched,
    Utf8.Piece.growth]

theorem binary_output_exceeds_limit :
    ¬BoundedCapture Unit Sample.binaryOutput ∧
      ∃ process,
        processOutput (ε := Unit) true Sample.binaryOutput.reads [] = .ok process ∧
        process.output.stdoutBytes = 3 * outputLimit ∧
        process.output.stdoutTruncated = false := by
  have hz := size_repeated Sample.stream_binaryOutput (by decide) le_rfl
  have hr := Sample.binaryOutput.readBounded_reads (ε := Unit)
  have ht : ¬outputLimit < Sample.binaryOutput.stream.length := by
    rw [Sample.stream_binaryOutput, List.length_replicate]
    exact lt_irrefl outputLimit
  rw [decide_eq_false ht] at hr
  refine ⟨fun h => ?_, _, processOutput_of_ended hr rfl, hz, rfl⟩
  have hs := boundedCapture_iff_size.mp h
  rw [hz, outputLimit] at hs
  omega

end Executor

end Scheduler
