import Mathlib.Algebra.BigOperators.Group.Finset.Basic
import Mathlib.Data.Fintype.Basic
import Mathlib.Tactic.Abel

/-!
# Channels

A bounded first-in first-out channel between concurrent parties, which can be
closed.  A send waits for room, a receive waits for a value, and a channel that
is closed and empty has ended.  The last section counts what the members of a
finite group of parties hold.
-/

namespace Channels

variable {α β : Type*}

/-- A channel with the values waiting in it, oldest first. -/
structure Channel (α : Type*) where
  capacity : Nat
  queue : List α
  closed : Bool
  deriving DecidableEq

namespace Channel

/-- A fresh channel. -/
def make (capacity : Nat) : Channel α where
  capacity := capacity
  queue := []
  closed := false

/-- Whether a send need not wait. -/
def hasRoom (channel : Channel α) : Bool :=
  decide (channel.queue.length < channel.capacity)

/-- The channel after a send. -/
def push (channel : Channel α) (value : α) : Channel α :=
  { channel with queue := channel.queue ++ [value] }

/-- The oldest value and the channel without it. -/
def pop (channel : Channel α) : Option (α × Channel α) :=
  match channel.queue with
  | value :: rest => some (value, { channel with queue := rest })
  | [] => none

/-- The channel after `close`. -/
def close (channel : Channel α) : Channel α := { channel with closed := true }

/-- Whether a receiver that ranges over the channel stops. -/
def ended (channel : Channel α) : Bool := channel.closed && channel.queue.isEmpty

/-- The channel of the images of the values. -/
def map (image : α → β) (channel : Channel α) : Channel β where
  capacity := channel.capacity
  queue := channel.queue.map image
  closed := channel.closed

@[simp] theorem push_queue (channel : Channel α) (value : α) :
    (channel.push value).queue = channel.queue ++ [value] := rfl

@[simp] theorem push_closed (channel : Channel α) (value : α) :
    (channel.push value).closed = channel.closed := rfl

@[simp] theorem close_closed (channel : Channel α) : channel.close.closed = true := rfl

@[simp] theorem map_queue (image : α → β) (channel : Channel α) :
    (channel.map image).queue = channel.queue.map image := rfl

@[simp] theorem map_closed (image : α → β) (channel : Channel α) :
    (channel.map image).closed = channel.closed := rfl

@[simp] theorem hasRoom_map (image : α → β) (channel : Channel α) :
    (channel.map image).hasRoom = channel.hasRoom := by
  simp [hasRoom, map]

@[simp] theorem ended_map (image : α → β) (channel : Channel α) :
    (channel.map image).ended = channel.ended := by
  simp [ended]

theorem map_push (image : α → β) (channel : Channel α) (value : α) :
    (channel.push value).map image = (channel.map image).push (image value) := by
  simp [push, map]

theorem map_close (image : α → β) (channel : Channel α) :
    channel.close.map image = (channel.map image).close := rfl

theorem ended_eq_true {channel : Channel α} :
    channel.ended = true ↔ channel.closed = true ∧ channel.queue = [] := by
  rw [ended, Bool.and_eq_true, List.isEmpty_iff]

theorem pop_eq_some {channel next : Channel α} {value : α} :
    channel.pop = some (value, next) ↔
      channel.queue = value :: next.queue ∧
        next = { channel with queue := next.queue } := by
  unfold pop
  split
  next head rest queue =>
    rw [Option.some.injEq, Prod.mk.injEq, queue]
    constructor
    · rintro ⟨rfl, rfl⟩
      exact ⟨rfl, rfl⟩
    · rintro ⟨same, shape⟩
      obtain ⟨rfl, rfl⟩ := List.cons.inj same
      exact ⟨rfl, shape.symm⟩
  next queue =>
    rw [queue]
    simp

/-- Taking the oldest value commutes with an image of the values. -/
theorem pop_map
    {channel next : Channel α}
    {value : α}
    (popped : channel.pop = some (value, next))
    (image : α → β) :
    (channel.map image).pop = some (image value, next.map image) := by
  obtain ⟨queue, shape⟩ := pop_eq_some.mp popped
  rw [pop_eq_some, shape]
  simp [map, queue]

theorem exists_pop_of_map
    {channel : Channel α}
    {next : Channel β}
    {value : β}
    {image : α → β}
    (popped : (channel.map image).pop = some (value, next)) :
    ∃ source rest, channel.pop = some (source, rest) ∧
      value = image source ∧ next = rest.map image := by
  obtain ⟨queue, shape⟩ := pop_eq_some.mp popped
  obtain ⟨source, rest, split, rfl, images⟩ := List.map_eq_cons_iff.mp queue
  refine ⟨source, { channel with queue := rest }, pop_eq_some.mpr ⟨split, rfl⟩, rfl, ?_⟩
  rw [shape, ← images]
  rfl

end Channel

/-! ## What a group of parties holds -/

section Holdings

variable {ι σ M : Type*} [Fintype ι] [DecidableEq ι] [AddCommMonoid M]

/-- What one party holds enters the total, and only what this party holds
changes when it moves. -/
theorem sum_update
    (holds : σ → M)
    (state : ι → σ)
    (party : ι)
    (new : σ) :
    ∑ other, holds (Function.update state party new other) + holds (state party) =
      ∑ other, holds (state other) + holds new := by
  have both : ∀ assignment : ι → σ,
      ∑ other, holds (assignment other) =
        holds (assignment party) +
          ∑ other ∈ Finset.univ.erase party, holds (assignment other) :=
    fun assignment =>
      (Finset.add_sum_erase Finset.univ (fun other => holds (assignment other))
        (Finset.mem_univ party)).symm
  have others : ∑ other ∈ Finset.univ.erase party,
      holds (Function.update state party new other) =
        ∑ other ∈ Finset.univ.erase party, holds (state other) := by
    apply Finset.sum_congr rfl
    intro other member
    rw [Function.update_of_ne (Finset.ne_of_mem_erase member)]
  rw [both (Function.update state party new), both state, others,
    Function.update_self]
  abel

/-- The total changes by what the party gives up. -/
theorem sum_update_add
    {holds : σ → M}
    {state : ι → σ}
    {party : ι}
    {new : σ}
    {given : M}
    (gives : holds (state party) = holds new + given)
    [IsCancelAdd M] :
    ∑ other, holds (state other) =
      ∑ other, holds (Function.update state party new other) + given := by
  have balance := sum_update holds state party new
  rw [gives] at balance
  apply add_right_cancel (b := holds new)
  rw [← balance]
  abel

/-- The total changes by what the party receives. -/
theorem sum_update_receive
    {holds : σ → M}
    {state : ι → σ}
    {party : ι}
    {new : σ}
    {received : M}
    (receives : holds new = holds (state party) + received)
    [IsCancelAdd M] :
    ∑ other, holds (Function.update state party new other) =
      ∑ other, holds (state other) + received := by
  have balance := sum_update holds state party new
  rw [receives] at balance
  apply add_right_cancel (b := holds (state party))
  rw [balance]
  abel

omit [DecidableEq ι] in
/-- A member's holding is part of the total. -/
theorem mem_sum_of_mem
    {state : ι → σ}
    {holds : σ → Multiset α}
    {party : ι}
    {value : α}
    (member : value ∈ holds (state party)) :
    value ∈ ∑ other, holds (state other) :=
  Multiset.mem_sum.mpr ⟨party, Finset.mem_univ party, member⟩

end Holdings

end Channels
