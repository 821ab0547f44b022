import Chronolog.Web.LiveRows

/-!
# Time windows in nanoseconds

The bounds of a search arrive in milliseconds and leave for the engine as
64-bit nanoseconds, which last until the year 2262.  The test of the bounds knows
only their sign and their order, and the conversion to 64 bits saturates: a later
bound becomes the last moment the engine knows.  What rounding adds is left out
here: the products are exact.
-/

namespace Chronolog
namespace Web

open Binary64 (Double)
open Search

/-- `handleSearch` with a scaling of the bounds. -/
def handleSearchWith
    (int64Field : Double → Int64)
    (scale : Int → Int)
    (params : SearchParams) : Option SearchRequest :=
  if params.startTime < 0 ∨ params.endTime < params.startTime ∨
      params.limit < 1 ∨ 5000 < params.limit then none
  else
    some
      { term := params.term.flatMap Utf8.encode
        startNano := int64Field (.finite (scale params.startTime))
        endNano := int64Field (.finite (scale params.endTime))
        limit := params.limit }

theorem handleSearch_eq_handleSearchWith (int64Field : Double → Int64) :
    handleSearch int64Field = handleSearchWith int64Field LiveTail.toNanos := rfl

/-- `Math.trunc(ms * 1e6)` in exact integers. -/
def exactNanos (ms : Int) : Int := ms * 1000000

/-- The bounds fit their fields, the engine receives them in order, and it looks
at every record of the window that was asked for. -/
structure WindowSurvives (params : SearchParams) (request : SearchRequest) : Prop where
  startFits : FitsInt64 (exactNanos params.startTime)
  endFits : FitsInt64 (exactNanos params.endTime)
  ordered : 0 ≤ request.startNano ∧ request.startNano ≤ request.endNano
  covers : ∀ ts : Int64, exactNanos params.startTime ≤ ts.toInt →
    ts.toInt ≤ exactNanos params.endTime → request.Covers ts

variable {int64Field : Double → Int64}

/-! ## A field that saturates -/

theorem toInt_of_early
    (saturates : Saturates int64Field)
    {number : Int}
    (nonneg : 0 ≤ number)
    (early : number < 2 ^ 63) : (int64Field (.finite number)).toInt = number :=
  saturates.kept number ⟨by omega, early⟩

theorem toInt_of_late
    (saturates : Saturates int64Field)
    {number : Int}
    (late : 2 ^ 63 ≤ number) : (int64Field (.finite number)).toInt = 2 ^ 63 - 1 := by
  rw [saturates.above number late]
  rfl

/-- From zero on the field is monotone. -/
theorem int64Field_mono
    (saturates : Saturates int64Field)
    {left right : Int}
    (nonneg : 0 ≤ left)
    (less : left ≤ right) : int64Field (.finite left) ≤ int64Field (.finite right) := by
  rw [Int64.le_iff_toInt_le]
  rcases lt_or_ge right (2 ^ 63) with early | late
  · rwa [toInt_of_early saturates nonneg (less.trans_lt early),
      toInt_of_early saturates (nonneg.trans less) early]
  · rw [toInt_of_late saturates late]
    exact Int.le_sub_one_of_lt (Int64.toInt_lt _)

theorem int64Field_nonneg
    (saturates : Saturates int64Field)
    {number : Int}
    (nonneg : 0 ≤ number) : 0 ≤ int64Field (.finite number) := by
  have zero : (0 : Int64) = int64Field (.finite (0 : Int)) :=
    Int64.toInt_inj.mp (toInt_of_early saturates le_rfl (by decide)).symm
  exact zero.trans_le (int64Field_mono saturates le_rfl nonneg)

/-- Numbers around a moment the engine knows stay around it. -/
theorem int64Field_le
    (saturates : Saturates int64Field)
    {number : Int}
    {ts : Int64}
    (nonneg : 0 ≤ number)
    (before : number ≤ ts.toInt) : int64Field (.finite number) ≤ ts := by
  rw [Int64.le_iff_toInt_le,
    toInt_of_early saturates nonneg (before.trans_lt (Int64.toInt_lt ts))]
  exact before

theorem le_int64Field
    (saturates : Saturates int64Field)
    {number : Int}
    {ts : Int64}
    (nonneg : 0 ≤ number)
    (behind : ts.toInt ≤ number) : ts ≤ int64Field (.finite number) := by
  rw [Int64.le_iff_toInt_le]
  rcases lt_or_ge number (2 ^ 63) with early | late
  · rwa [toInt_of_early saturates nonneg early]
  · rw [toInt_of_late saturates late]
    exact Int.le_sub_one_of_lt (Int64.toInt_lt ts)

/-! ## Accepted windows -/

/-- What an accepted request says. -/
theorem of_handleSearchWith
    {scale : Int → Int}
    {params : SearchParams}
    {request : SearchRequest}
    (accepted : handleSearchWith int64Field scale params = some request) :
    0 ≤ params.startTime ∧ params.startTime ≤ params.endTime ∧
      request.startNano = int64Field (.finite (scale params.startTime)) ∧
      request.endNano = int64Field (.finite (scale params.endTime)) := by
  obtain ⟨valid, same⟩ := Option.ite_none_left_eq_some.mp accepted
  obtain rfl := Option.some.inj same
  simp only [not_or, Int.not_lt] at valid
  exact ⟨valid.1, valid.2.1, rfl, rfl⟩

/-- The bounds of an accepted window fit their fields exactly when it ends within
the 64-bit nanoseconds; wherever it ends, the engine receives its bounds in order
and looks at every record of it. -/
theorem windowSurvives_saturated
    (saturates : Saturates int64Field)
    (params : SearchParams)
    (request : SearchRequest)
    (accepted : handleSearchWith int64Field exactNanos params = some request) :
    (FitsInt64 (exactNanos params.startTime) ∧ FitsInt64 (exactNanos params.endTime) ↔
        params.endTime ≤ 9223372036854) ∧
      (0 ≤ request.startNano ∧ request.startNano ≤ request.endNano) ∧
      ∀ ts : Int64, exactNanos params.startTime ≤ ts.toInt →
        ts.toInt ≤ exactNanos params.endTime → request.Covers ts := by
  obtain ⟨nonneg, ordered, startNano, endNano⟩ := of_handleSearchWith accepted
  have startNonneg : 0 ≤ exactNanos params.startTime := by
    rw [exactNanos]
    omega
  have scaled : exactNanos params.startTime ≤ exactNanos params.endTime := by
    rw [exactNanos, exactNanos]
    omega
  rw [startNano, endNano]
  refine ⟨?_, ⟨int64Field_nonneg saturates startNonneg,
    int64Field_mono saturates startNonneg scaled⟩, fun ts low high => ⟨?_, ?_⟩⟩
  · rw [FitsInt64, FitsInt64, exactNanos, exactNanos]
    omega
  · rw [startNano]
    exact int64Field_le saturates startNonneg low
  · rw [endNano]
    exact le_int64Field saturates (startNonneg.trans scaled) high

/-- The parameters of a search from the epoch on. -/
def searchUntil (endTime : Int) : SearchParams where
  term := "timeout".toList
  startTime := 0
  endTime := endTime
  limit := 20

/-- A search that ends in the year 2300 still covers the year 2100. -/
theorem windowSurvives_saturated_2300 :
    ∃ request, handleSearchWith longField exactNanos (searchUntil 10413792000000) =
        some request ∧ request.Covers 4102444800000000000 := by
  obtain ⟨request, accepted⟩ : ∃ request,
      handleSearchWith longField exactNanos (searchUntil 10413792000000) = some request :=
    ⟨_, rfl⟩
  obtain ⟨_, _, covers⟩ := windowSurvives_saturated saturates_longField _ request accepted
  exact ⟨request, accepted, covers 4102444800000000000 (by decide) (by decide)⟩

/-- One millisecond after the last one that fits, the number for the field is out of
its range. -/
theorem late_window_out_of_range :
    ¬ ∀ (params : SearchParams) (request : SearchRequest),
      handleSearchWith longField exactNanos params = some request →
        WindowSurvives params request := by
  intro claim
  have survives := claim (searchUntil 9223372036855) _ rfl
  exact absurd survives.endFits.2 (by decide)

end Web
end Chronolog
