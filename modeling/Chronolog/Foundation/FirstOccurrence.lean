import Mathlib.Data.List.Induction
import Mathlib.Data.List.Nodup
import Mathlib.Data.List.Perm.Basic

/-!
# Lists without their repetitions

`List.eraseDups` keeps the first occurrence of every element.  This module
relates it to filters and positions, counts what stands before an element of a
sorted list, and says when a list cut at a bound may be moved to the front of
another one without a visible difference.
-/

namespace FirstOccurrence

variable {α : Type*}

/-! ## Positions in a sorted list -/

/-- Two elements of a sorted list stand in it in their order. -/
theorem pair_sublist_of_pairwise
    {before : α → α → Prop}
    {list : List α}
    {first second : α}
    (sorted : list.Pairwise before)
    (asymmetric : ∀ left right, before left right → ¬ before right left)
    (firstMember : first ∈ list)
    (secondMember : second ∈ list)
    (ordered : before first second) :
    [first, second].Sublist list := by
  obtain ⟨front, back, rfl⟩ := List.append_of_mem firstMember
  obtain ⟨_, _, across⟩ := List.pairwise_append.mp sorted
  rcases List.mem_append.mp secondMember with inFront | inBack
  · exact absurd (across second inFront first List.mem_cons_self)
      (asymmetric _ _ ordered)
  · rcases List.mem_cons.mp inBack with rfl | inBack
    · exact absurd ordered (asymmetric _ _ ordered)
    · exact ((List.singleton_sublist.mpr inBack).cons_cons first).trans
        (List.sublist_append_right front (first :: back))

/-- An element survives a cut exactly when fewer elements than the bound come
before it. -/
theorem mem_take_iff_of_pairwise
    {before : α → α → Prop}
    [DecidableRel before]
    {list : List α}
    {element : α}
    {bound : Nat}
    (sorted : list.Pairwise before)
    (asymmetric : ∀ left right, before left right → ¬ before right left)
    (member : element ∈ list) :
    element ∈ list.take bound ↔
      (list.filter fun other => before other element).length < bound := by
  obtain ⟨front, back, rfl⟩ := List.append_of_mem member
  obtain ⟨_, rest, across⟩ := List.pairwise_append.mp sorted
  have irreflexive : ¬ before element element := fun self =>
    asymmetric _ _ self self
  have ahead : (front ++ element :: back).filter (fun other => before other element) =
      front := by
    rw [List.filter_append, List.filter_cons_of_neg (by simpa using irreflexive)]
    have all : front.filter (fun other => before other element) = front :=
      List.filter_eq_self.mpr fun other inFront =>
        decide_eq_true (across other inFront element List.mem_cons_self)
    have none : back.filter (fun other => before other element) = [] :=
      List.filter_eq_nil_iff.mpr fun other inBack => by
        simpa using asymmetric _ _ ((List.pairwise_cons.mp rest).1 other inBack)
    rw [all, none, List.append_nil]
  have unseen : element ∉ front := fun inFront =>
    irreflexive (across element inFront element List.mem_cons_self)
  rw [ahead, List.take_append, List.mem_append]
  constructor
  · rintro (early | late)
    · exact absurd (List.mem_of_mem_take early) unseen
    · by_contra full
      rw [Nat.sub_eq_zero_of_le (Nat.le_of_not_lt full), List.take_zero] at late
      exact List.not_mem_nil late
  · intro room
    right
    obtain ⟨left, leftEq⟩ := Nat.exists_eq_add_of_lt room
    rw [leftEq, show front.length + left + 1 - front.length = left + 1 by omega,
      List.take_succ_cons]
    exact List.mem_cons_self

/-! ## First occurrences -/

section Lawful

variable [BEq α] [LawfulBEq α]

/-- A last element is kept unless it occurred before. -/
theorem eraseDups_concat (list : List α) (last : α) :
    (list ++ [last]).eraseDups =
      if last ∈ list then list.eraseDups else list.eraseDups ++ [last] := by
  rw [List.eraseDups_append]
  by_cases seen : last ∈ list
  · simp [List.removeAll, seen]
  · simp [List.removeAll, seen, List.eraseDups_cons]

theorem nodup_eraseDups (list : List α) : list.eraseDups.Nodup := by
  induction list using List.reverseRecOn with
  | nil => exact List.nodup_nil
  | append_singleton list last inductionHypothesis =>
      rw [eraseDups_concat]
      split
      next => exact inductionHypothesis
      next unseen =>
        rw [← List.concat_eq_append, List.nodup_concat]
        exact ⟨mt List.mem_eraseDups.mp unseen, inductionHypothesis⟩

theorem eraseDups_sublist (list : List α) : list.eraseDups.Sublist list := by
  induction list using List.reverseRecOn with
  | nil => exact List.Sublist.refl []
  | append_singleton list last inductionHypothesis =>
      rw [eraseDups_concat]
      split
      · exact inductionHypothesis.trans (List.sublist_append_left _ _)
      · exact inductionHypothesis.append (List.Sublist.refl [last])

/-- Repetitions can be erased before or after a filter. -/
theorem eraseDups_filter (list : List α) (select : α → Bool) :
    (list.filter select).eraseDups = list.eraseDups.filter select := by
  induction list using List.reverseRecOn with
  | nil => rfl
  | append_singleton list last inductionHypothesis =>
      rw [List.filter_append, eraseDups_concat]
      by_cases selected : select last = true
      · rw [List.filter_cons_of_pos selected, List.filter_nil, eraseDups_concat,
          inductionHypothesis, apply_ite (List.filter select), List.filter_append,
          List.filter_cons_of_pos selected, List.filter_nil]
        simp only [List.mem_filter, selected, and_true]
      · rw [List.filter_cons_of_neg selected, List.filter_nil, List.append_nil,
          inductionHypothesis, apply_ite (List.filter select), List.filter_append,
          List.filter_cons_of_neg selected, List.filter_nil, List.append_nil, ite_self]

/-- First occurrences come in the order of their positions. -/
theorem eraseDups_pairwise_idxOf (list : List α) :
    list.eraseDups.Pairwise fun left right => list.idxOf left < list.idxOf right := by
  induction list using List.reverseRecOn with
  | nil => exact List.Pairwise.nil
  | append_singleton list last inductionHypothesis =>
      have kept : list.eraseDups.Pairwise fun left right =>
          (list ++ [last]).idxOf left < (list ++ [last]).idxOf right := by
        refine inductionHypothesis.imp_of_mem fun {left right} leftMember rightMember less => ?_
        rwa [List.idxOf_append_of_mem (List.mem_eraseDups.mp leftMember),
          List.idxOf_append_of_mem (List.mem_eraseDups.mp rightMember)]
      rw [eraseDups_concat]
      split
      next => exact kept
      next unseen =>
        refine List.pairwise_append.mpr ⟨kept, List.pairwise_singleton _ _, ?_⟩
        intro left member right rightEq
        rw [List.mem_singleton.mp rightEq,
          List.idxOf_append_of_mem (List.mem_eraseDups.mp member),
          List.idxOf_append_of_notMem unseen]
        exact Nat.lt_of_lt_of_le (List.idxOf_lt_length_of_mem (List.mem_eraseDups.mp member))
          (Nat.le_add_right _ _)

/-! ## Moving elements to the front -/

/-- Moving some elements to the front of a list changes nothing above a bound
exactly when they start the list already, as far as the bound lets them be seen. -/
theorem take_append_removeAll_iff
    {front list : List α}
    {bound : Nat}
    (nodup : list.Nodup) :
    (front ++ list.removeAll front).take bound = list.take bound ↔
      front.take bound <+: list := by
  constructor
  · intro equal
    have cut := congrArg (List.take front.length) equal
    rw [List.take_take, List.take_take, List.take_append_of_le_length (Nat.min_le_left _ _)]
      at cut
    have start : front.take bound = front.take (min front.length bound) := by
      rw [← List.take_take, List.take_of_length_le (List.length_take_le' _ _)]
    rw [start, cut]
    exact List.take_prefix _ _
  · intro starts
    by_cases short : bound ≤ front.length
    · rw [List.take_append_of_le_length short, List.prefix_iff_eq_take.mp starts,
        List.length_take_of_le short]
    · rw [List.take_of_length_le (Nat.le_of_not_le short)] at starts
      obtain ⟨rest, rfl⟩ := starts
      have apart := (List.nodup_append'.mp nodup).2.2
      have removed : (front ++ rest).removeAll front = rest := by
        rw [List.removeAll, List.filter_append, List.filter_eq_nil_iff.mpr,
          List.filter_eq_self.mpr, List.nil_append]
        · intro element inRest
          simpa using fun inFront => apart inFront inRest
        · intro element inFront
          simpa using inFront
      rw [removed]

end Lawful

end FirstOccurrence
