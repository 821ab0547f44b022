import Chronolog.Ingestion.Listeners
import Mathlib.Data.List.TakeWhile

/-!
# The lines of a request

What `bufio.Scanner` makes of a body, without its loop: the stretches between
line feeds, up to the first one that does not fit the scanner's buffer, without
their terminators.  An accepted request has been read to its end, a rejected
one up to a failure, and the lines before the failure are on the channel by
then.
-/

namespace Chronolog
namespace Ingestion

/-- The stretches of a body between its line feeds. -/
def segments (body : Bytes) : List Bytes := body.splitOn 0x0A

/-- Whether the scanner's buffer holds a stretch and the byte behind it. -/
def fits (segment : Bytes) : Bool := segment.length < maxScanTokenSize

/-- The non-empty lines among some stretches, without terminators. -/
def nonEmptyLines (segments : List Bytes) : List Bytes :=
  (segments.map dropCR).filter fun line => line ≠ []

/-- The non-empty lines of a body. -/
def bodyLines (body : Bytes) : List Bytes := nonEmptyLines (segments body)

/-- The non-empty lines before the first one that is too long. -/
def linesBeforeFailure (body : Bytes) : List Bytes :=
  nonEmptyLines ((segments body).takeWhile fits)

/-! ## The scan without its loop -/

theorem segments_cons (byte : UInt8) (rest : Bytes) :
    segments (byte :: rest) =
      if byte = 0x0A then [] :: segments rest
      else (segments rest).modifyHead (List.cons byte) := by
  simp only [segments, List.splitOn_eq_splitOnP, List.splitOnP_cons_eq_if_modifyHead,
    beq_iff_eq]

theorem exists_segments_eq_cons (body : Bytes) :
    ∃ first rest, segments body = first :: rest := by
  rw [segments, List.splitOn_eq_splitOnP]
  exact List.exists_cons_of_ne_nil (List.splitOnP_ne_nil _ body)

theorem modifyHead_nil_append (list : List Bytes) :
    list.modifyHead ([] ++ ·) = list := by
  cases list <;> rfl

theorem nonEmptyLines_cons (segment : Bytes) (rest : List Bytes) :
    nonEmptyLines (segment :: rest) =
      (if dropCR segment = [] then [] else [dropCR segment]) ++ nonEmptyLines rest := by
  rw [nonEmptyLines, List.map_cons, List.filter_cons]
  split
  next nonempty =>
    rw [if_neg (of_decide_eq_true nonempty)]
    rfl
  next empty =>
    rw [if_pos (by simpa using empty)]
    rfl

/-- A scan that has read a part of a line goes on with the stretches that
continue it. -/
theorem scanLines_eq
    (readError : Option ScanError)
    (line rest : Bytes)
    (short : line.length < maxScanTokenSize) :
    (scanLines readError line rest).1.filter (fun line => line ≠ []) =
        nonEmptyLines (((segments rest).modifyHead (line ++ ·)).takeWhile fits) ∧
      (scanLines readError line rest).2 =
        if ((segments rest).modifyHead (line ++ ·)).all fits = true then readError
        else some .tooLong := by
  induction rest generalizing line with
  | nil =>
      have whole : (segments []).modifyHead (line ++ ·) = [line] := by
        simp [segments]
      have held : fits line = true := decide_eq_true short
      rw [whole, List.takeWhile_cons_of_pos held, List.takeWhile_nil, nonEmptyLines_cons,
        List.all_cons, held]
      refine ⟨?_, rfl⟩
      rw [scanLines]
      by_cases empty : line = []
      · subst empty
        rfl
      · rw [if_neg empty, List.filter_cons]
        simp [nonEmptyLines]
  | cons byte rest inductionHypothesis =>
      rw [scanLines, segments_cons]
      by_cases lineFeed : byte = 0x0A
      · obtain ⟨lines, err⟩ := inductionHypothesis [] (by decide)
        have held : fits line = true := decide_eq_true short
        rw [modifyHead_nil_append] at lines err
        rw [if_pos lineFeed, if_pos lineFeed, List.modifyHead_cons, List.append_nil,
          List.takeWhile_cons_of_pos held, nonEmptyLines_cons, List.all_cons, held,
          Bool.true_and, ← lines, ← err]
        refine ⟨?_, rfl⟩
        rw [List.filter_cons]
        by_cases empty : dropCR line = [] <;> simp [empty]
      · rw [if_neg lineFeed, if_neg lineFeed]
        obtain ⟨first, others, shape⟩ := exists_segments_eq_cons rest
        split
        next long =>
          have tooLong : fits (line ++ byte :: first) = false := by
            rw [fits, decide_eq_false_iff_not, List.length_append, List.length_cons]
            omega
          rw [shape, List.modifyHead_cons, List.modifyHead_cons,
            List.takeWhile_cons_of_neg (by simp [tooLong]), List.all_cons, tooLong]
          exact ⟨rfl, rfl⟩
        next =>
          have grown : (line ++ [byte]).length < maxScanTokenSize := by
            rw [List.length_append, List.length_singleton]
            omega
          have moved : ((segments rest).modifyHead (List.cons byte)).modifyHead (line ++ ·) =
              (segments rest).modifyHead (line ++ [byte] ++ ·) := by
            rw [shape, List.modifyHead_cons, List.modifyHead_cons, List.modifyHead_cons,
              List.append_assoc]
            rfl
          rw [moved]
          exact inductionHypothesis (line ++ [byte]) grown

/-- The error a scan of a body ends in. -/
def scanError (body : Bytes) (readError : Option ScanError) : Option ScanError :=
  if (segments body).all fits = true then readError else some .tooLong

/-- The handler puts the lines before the failure on the channel, and its
status tells whether there was one. -/
theorem handleIngest_post (body : Bytes) (readError : Option ScanError) :
    handleIngest true body readError =
      ((linesBeforeFailure body).map (fillBuffer freshBuffer),
        if scanError body readError = none then 202 else 400) := by
  obtain ⟨lines, err⟩ := scanLines_eq readError [] body (by decide)
  rw [modifyHead_nil_append] at lines err
  rw [handleIngest, if_neg (by decide)]
  dsimp only
  rw [lines, err, linesBeforeFailure, scanError]

theorem linesBeforeFailure_of_fits
    {body : Bytes}
    (whole : (segments body).all fits = true) : linesBeforeFailure body = bodyLines body := by
  rw [linesBeforeFailure, bodyLines,
    List.takeWhile_eq_self_iff.mpr fun segment member => List.all_eq_true.mp whole segment member]

/-! ## Accepted requests -/

/-- An accepted request has put one packet per line, which holds what fits a
packet buffer. -/
theorem filled_of_accepted
    {isPost : Bool}
    {body : Bytes}
    {readError : Option ScanError}
    (accepted : (handleIngest isPost body readError).2 = 202) :
    (handleIngest isPost body readError).1.map PacketBuffer.filled =
      (bodyLines body).map (List.take bufferSize) := by
  cases isPost with
  | false => exact absurd accepted (by decide : (405 : Nat) ≠ 202)
  | true =>
      rw [handleIngest_post] at accepted ⊢
      have complete : scanError body readError = none := by
        by_contra failed
        exact absurd ((if_neg failed).symm.trans accepted) (by decide)
      have whole : (segments body).all fits = true := by
        by_contra long
        rw [scanError, if_neg long] at complete
        exact absurd complete (by decide)
      rw [linesBeforeFailure_of_fits whole, List.map_map]
      apply List.map_congr_left
      intro line _
      rw [Function.comp_apply, filled_fillBuffer, length_freshBuffer]

/-- The packets of an accepted request are its non-empty lines exactly when no
line is longer than a packet buffer. -/
theorem accepted_lossless_iff
    (isPost : Bool)
    (body : Bytes)
    (readError : Option ScanError)
    (accepted : (handleIngest isPost body readError).2 = 202) :
    (handleIngest isPost body readError).1.map PacketBuffer.filled = bodyLines body ↔
      ∀ line ∈ bodyLines body, line.length ≤ bufferSize := by
  rw [filled_of_accepted accepted]
  constructor
  · intro lossless line member
    rw [← lossless, List.mem_map] at member
    obtain ⟨original, _, rfl⟩ := member
    exact List.length_take_le _ _
  · intro short
    rw [List.map_congr_left fun line member => List.take_of_length_le (short line member)]
    exact List.map_id _

theorem accepted_lossless_iff_twoLines :
    (handleIngest true [0x61, 0x0A, 0x62, 0x0D, 0x0A] none).1.map PacketBuffer.filled =
        bodyLines [0x61, 0x0A, 0x62, 0x0D, 0x0A] ↔
      ∀ line ∈ bodyLines [0x61, 0x0A, 0x62, 0x0D, 0x0A], line.length ≤ bufferSize :=
  accepted_lossless_iff true [0x61, 0x0A, 0x62, 0x0D, 0x0A] none (by decide)

theorem segments_single
    {line : Bytes}
    (noBreak : 0x0A ∉ line) : segments line = [line] := by
  rw [segments, List.splitOn_eq_splitOnP]
  apply List.splitOnP_eq_singleton
  intro byte member
  rw [beq_eq_false_iff_ne]
  rintro rfl
  exact noBreak member

theorem bodyLines_single
    {line : Bytes}
    (nonempty : line ≠ [])
    (noBreak : 0x0A ∉ line)
    (noReturn : line.getLast? ≠ some 0x0D) : bodyLines line = [line] := by
  rw [bodyLines, segments_single noBreak, nonEmptyLines, List.map_singleton, dropCR,
    if_neg noReturn]
  simp [nonempty]

/-- A line of 2049 bytes is accepted and loses its last byte. -/
theorem long_line_cut :
    ¬ ∀ isPost body readError, (handleIngest isPost body readError).2 = 202 →
      (handleIngest isPost body readError).1.map PacketBuffer.filled = bodyLines body := by
  intro claim
  obtain ⟨line, size, letters⟩ : ∃ line : Bytes, line.length = 2049 ∧ ∀ byte ∈ line,
      byte = 0x61 :=
    ⟨List.replicate 2049 0x61, List.length_replicate, fun _ => List.eq_of_mem_replicate⟩
  have nonempty : line ≠ [] := List.ne_nil_of_length_pos (by omega)
  have noBreak : 0x0A ∉ line := fun member => absurd (letters _ member) (by decide)
  have noReturn : line.getLast? ≠ some 0x0D := fun last =>
    absurd (letters _ (List.mem_of_getLast? last)) (by decide)
  have held : fits line = true := by
    rw [fits, size]
    decide
  have accepted : (handleIngest true line none).2 = 202 := by
    rw [handleIngest_post, scanError, segments_single noBreak, List.all_cons, held]
    rfl
  have equal := claim true line none accepted
  rw [filled_of_accepted accepted, bodyLines_single nonempty noBreak noReturn] at equal
  have lengths := congrArg List.length (List.cons.inj equal).1
  rw [List.length_take, size] at lengths
  exact absurd lengths (by decide)

/-! ## Rejected requests -/

/-- A rejected request has put the lines before the failure on the channel, so
it has no effect only if there are none. -/
theorem rejected_ingest_effect
    (isPost : Bool)
    (body : Bytes)
    (readError : Option ScanError)
    (rejected : (handleIngest isPost body readError).2 = 400) :
    (handleIngest isPost body readError).1 =
        (linesBeforeFailure body).map (fillBuffer freshBuffer) ∧
      ((handleIngest isPost body readError).1 = [] ↔
        ∀ segment ∈ (segments body).takeWhile fits, dropCR segment = []) := by
  cases isPost with
  | false => exact absurd rejected (by decide : (405 : Nat) ≠ 400)
  | true =>
      rw [handleIngest_post]
      refine ⟨rfl, ?_⟩
      rw [List.map_eq_nil_iff, linesBeforeFailure, nonEmptyLines, List.filter_eq_nil_iff]
      simp

theorem rejected_ingest_effect_readError :
    (handleIngest true [0x61, 0x0A, 0x62] (some .read)).1 =
        (linesBeforeFailure [0x61, 0x0A, 0x62]).map (fillBuffer freshBuffer) ∧
      ((handleIngest true [0x61, 0x0A, 0x62] (some .read)).1 = [] ↔
        ∀ segment ∈ (segments [0x61, 0x0A, 0x62]).takeWhile fits, dropCR segment = []) :=
  rejected_ingest_effect true [0x61, 0x0A, 0x62] (some .read) (by decide)

/-- The first line of a request is on the channel when the second one fails. -/
theorem rejected_ingest_not_undone :
    ¬ ∀ isPost body readError, (handleIngest isPost body readError).2 = 400 →
      (handleIngest isPost body readError).1 = [] := by
  intro claim
  have nothing := claim true [0x61, 0x0A, 0x62] (some .read) (by decide)
  exact absurd nothing (by decide)

end Ingestion
end Chronolog
