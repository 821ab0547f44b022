import Mathlib.Data.Finset.Card
import Mathlib.Order.Interval.Set.OrdConnected

/-!
# Counting by comparing consecutive observations

An observer is shown one finite set after another and remembers only how large
the last nonempty one was.  It reports the excess of each set over that number.
If every element is shown during one contiguous stretch, the reports never
exceed the number of distinct elements shown; they fall short of it as soon as
an element disappears in the step that brings a new one.

Histories list the newest observation first.
-/

namespace Observations

variable {ι : Type*} [DecidableEq ι]

/-- The distinct elements shown so far. -/
def ever : List (Finset ι) → Finset ι
  | [] => ∅
  | shown :: history => shown ∪ ever history

/-- The last observation that was not empty. -/
def lastNonempty : List (Finset ι) → Finset ι
  | [] => ∅
  | shown :: history => if shown = ∅ then lastNonempty history else shown

/-- The number of reports made so far. -/
def reported : List (Finset ι) → Nat
  | [] => 0
  | shown :: history =>
      reported history + (shown.card - (lastNonempty history).card)

/-- What is shown again was shown the time before. -/
def Contiguous : List (Finset ι) → Prop
  | [] => True
  | shown :: history =>
      (∀ element ∈ shown, element ∈ ever history → element ∈ history.headD ∅) ∧
        Contiguous history

/-- An observation with a new element still has all of the last nonempty one. -/
def Retains (shown : Finset ι) (history : List (Finset ι)) : Prop :=
  (∃ element ∈ shown, element ∉ ever history) → lastNonempty history ⊆ shown

/-- No observation brings a new element while an old one leaves. -/
def NoTurnover : List (Finset ι) → Prop
  | [] => True
  | shown :: history => Retains shown history ∧ NoTurnover history

@[simp] theorem ever_cons (shown : Finset ι) (history : List (Finset ι)) :
    ever (shown :: history) = shown ∪ ever history := rfl

@[simp] theorem reported_cons (shown : Finset ι) (history : List (Finset ι)) :
    reported (shown :: history) =
      reported history + (shown.card - (lastNonempty history).card) := rfl

theorem mem_ever {element : ι} {history : List (Finset ι)} :
    element ∈ ever history ↔ ∃ shown ∈ history, element ∈ shown := by
  induction history with
  | nil => simp [ever]
  | cons shown history inductionHypothesis =>
      rw [ever_cons, Finset.mem_union, inductionHypothesis, List.exists_mem_cons_iff]

theorem lastNonempty_subset_ever (history : List (Finset ι)) :
    lastNonempty history ⊆ ever history := by
  induction history with
  | nil => exact Finset.Subset.refl _
  | cons shown history inductionHypothesis =>
      rw [lastNonempty, ever_cons]
      split
      · exact inductionHypothesis.trans Finset.subset_union_right
      · exact Finset.subset_union_left

theorem headD_subset_lastNonempty (history : List (Finset ι)) :
    history.headD ∅ ⊆ lastNonempty history := by
  cases history with
  | nil => exact Finset.Subset.refl _
  | cons shown history =>
      rw [List.headD_cons, lastNonempty]
      split
      next empty => exact empty ▸ Finset.empty_subset _
      next => exact Finset.Subset.refl _

/-- The new elements of an observation are those the last nonempty one lacks. -/
theorem sdiff_ever
    {shown : Finset ι}
    {history : List (Finset ι)}
    (contiguous : Contiguous (shown :: history)) :
    shown \ ever history = shown \ lastNonempty history := by
  apply Finset.Subset.antisymm
  · exact Finset.sdiff_subset_sdiff (Finset.Subset.refl _)
      (lastNonempty_subset_ever history)
  · intro element member
    rw [Finset.mem_sdiff] at member ⊢
    refine ⟨member.1, fun again => member.2 ?_⟩
    exact headD_subset_lastNonempty history (contiguous.1 element member.1 again)

theorem card_ever_cons
    {shown : Finset ι}
    {history : List (Finset ι)}
    (contiguous : Contiguous (shown :: history)) :
    (ever (shown :: history)).card =
      (shown \ lastNonempty history).card + (ever history).card := by
  rw [ever_cons, ← Finset.card_sdiff_add_card, sdiff_ever contiguous]

/-- An element shown for the second time is never reported again. -/
theorem reported_le_card_ever
    {history : List (Finset ι)}
    (contiguous : Contiguous history) :
    reported history ≤ (ever history).card := by
  induction history with
  | nil => exact le_rfl
  | cons shown history inductionHypothesis =>
      have before := inductionHypothesis contiguous.2
      have excess := Finset.le_card_sdiff (lastNonempty history) shown
      rw [reported_cons, card_ever_cons contiguous]
      omega

/-- An observation is reported in full exactly if it has no new element or has
lost no old one. -/
theorem card_ever_le_reported_cons_iff
    {shown : Finset ι}
    {history : List (Finset ι)}
    (contiguous : Contiguous (shown :: history))
    (complete : (ever history).card ≤ reported history) :
    (ever (shown :: history)).card ≤ reported (shown :: history) ↔
      Retains shown history := by
  have exact : reported history = (ever history).card :=
    Nat.le_antisymm (reported_le_card_ever contiguous.2) complete
  have exchange : (shown \ lastNonempty history).card + (lastNonempty history).card =
      (lastNonempty history \ shown).card + shown.card := by
    rw [Finset.card_sdiff_add_card, Finset.card_sdiff_add_card, Finset.union_comm]
  have noneNew : (shown \ lastNonempty history).card = 0 ↔
      ¬ ∃ element ∈ shown, element ∉ ever history := by
    rw [← sdiff_ever contiguous, Finset.card_eq_zero, Finset.sdiff_eq_empty_iff_subset,
      Finset.subset_iff]
    push Not
    rfl
  have noneLost : (lastNonempty history \ shown).card = 0 ↔
      lastNonempty history ⊆ shown := by
    rw [Finset.card_eq_zero, Finset.sdiff_eq_empty_iff_subset]
  rw [card_ever_cons contiguous, reported_cons, Retains, ← noneLost,
    imp_iff_not_or, ← noneNew, exact]
  omega

/-- Elements that are visible from an interval of viewpoints are shown
contiguously by viewpoints that never go back. -/
theorem contiguous_map
    {α : Type*}
    [Preorder α]
    {shown : α → Finset ι}
    (convex : ∀ element, Set.OrdConnected {view | element ∈ shown view})
    {views : List α}
    (sorted : views.Pairwise (· ≥ ·)) :
    Contiguous (views.map shown) := by
  induction views with
  | nil => trivial
  | cons view views inductionHypothesis =>
      rw [List.pairwise_cons] at sorted
      refine ⟨?_, inductionHypothesis sorted.2⟩
      intro element present again
      obtain ⟨_, member, earlier⟩ := mem_ever.mp again
      obtain ⟨oldest, oldestMember, rfl⟩ := List.mem_map.mp member
      cases views with
      | nil => exact absurd oldestMember List.not_mem_nil
      | cons previous views =>
          have upper : previous ≤ view := sorted.1 previous List.mem_cons_self
          have lower : oldest ≤ previous := by
            rcases List.mem_cons.mp oldestMember with rfl | older
            · exact le_rfl
            · exact (List.pairwise_cons.mp sorted.2).1 oldest older
          exact (convex element).out earlier present ⟨lower, upper⟩

end Observations
