import Mathlib.Data.List.Induction

/-!
# Lists with the newest entries in front

Batches are put in front of a list that is cut to a capacity.  The cuts on the
way leave no trace; the order inside a batch does, unless the part of it that is
kept reads the same from both ends.
-/

namespace Feed

variable {α : Type*}

/-- Put a batch in front and cut the list to its capacity. -/
def push (capacity : Nat) (shown batch : List α) : List α :=
  if batch = [] then shown else (batch ++ shown).take capacity

/-- The batches that reach the list, when the first one has entries to start
with. -/
def merged (buffered : List α) : List (List α) → List (List α)
  | [] => []
  | batch :: batches => (buffered ++ batch) :: batches

theorem merged_nil (batches : List (List α)) : merged [] batches = batches := by
  cases batches <;> rfl

theorem map_merged
    {β : Type*}
    (f : α → β)
    (buffered : List α)
    (batches : List (List α)) :
    (merged buffered batches).map (List.map f) =
      merged (buffered.map f) (batches.map (List.map f)) := by
  cases batches with
  | nil => rfl
  | cons batch batches => rw [merged, List.map_cons, List.map_append, List.map_cons, merged]

theorem map_push {β : Type*} (f : α → β) (capacity : Nat) (shown batch : List α) :
    (push capacity shown batch).map f = push capacity (shown.map f) (batch.map f) := by
  rw [push, push]
  by_cases empty : batch = []
  · rw [if_pos empty, if_pos (List.map_eq_nil_iff.mpr empty)]
  · rw [if_neg empty, if_neg (mt List.map_eq_nil_iff.mp empty), List.map_take,
      List.map_append]

theorem map_foldl_push
    {β : Type*}
    (f : α → β)
    (capacity : Nat)
    (batches : List (List α))
    (shown : List α) :
    (batches.foldl (push capacity) shown).map f =
      (batches.map (List.map f)).foldl (push capacity) (shown.map f) := by
  induction batches generalizing shown with
  | nil => rfl
  | cons batch batches inductionHypothesis =>
      rw [List.foldl_cons, inductionHypothesis, map_push, List.map_cons, List.foldl_cons]

theorem take_append_take (capacity : Nat) (batch shown : List α) :
    (batch ++ shown.take capacity).take capacity = (batch ++ shown).take capacity := by
  rw [List.take_append, List.take_append, List.take_take,
    Nat.min_eq_left (Nat.sub_le _ _)]

theorem flatten_reverse_eq_nil
    {batches : List (List α)}
    (none : batches.flatten = []) : batches.reverse.flatten = [] := by
  rw [List.flatten_eq_nil_iff] at none ⊢
  exact fun batch member => none batch (List.mem_reverse.mp member)

/-- Only the last cut counts. -/
theorem foldl_push (capacity : Nat) (batches : List (List α)) (shown : List α) :
    batches.foldl (push capacity) shown =
      if batches.flatten = [] then shown
      else (batches.reverse.flatten ++ shown).take capacity := by
  induction batches generalizing shown with
  | nil => rfl
  | cons batch batches inductionHypothesis =>
      rw [List.foldl_cons, inductionHypothesis, List.reverse_cons, List.flatten_append,
        List.flatten_singleton, List.append_assoc, List.flatten_cons, push]
      by_cases empty : batch = []
      · rw [if_pos empty, empty, List.nil_append, List.nil_append]
      · have some_entry : ¬ batch ++ batches.flatten = [] := fun none =>
          empty (List.append_eq_nil_iff.mp none).1
        rw [if_neg empty, if_neg some_entry, take_append_take]
        split
        next none => rw [flatten_reverse_eq_nil none, List.nil_append]
        next => rfl

theorem foldl_push_of_le
    {capacity : Nat}
    {shown : List α}
    (bounded : shown.length ≤ capacity)
    (batches : List (List α)) :
    batches.foldl (push capacity) shown =
      (batches.reverse.flatten ++ shown).take capacity := by
  rw [foldl_push]
  split
  next none =>
    rw [flatten_reverse_eq_nil none, List.nil_append, List.take_of_length_le bounded]
  next => rfl

/-- Entries put in front one by one. -/
theorem foldl_cons_take
    {capacity : Nat}
    {shown : List α}
    (bounded : shown.length ≤ capacity)
    (entries : List α) :
    entries.foldl (fun shown entry => (entry :: shown).take capacity) shown =
      (entries.reverse ++ shown).take capacity := by
  have single : (entries.map fun entry => [entry]).foldl (push capacity) shown =
      entries.foldl (fun shown entry => (entry :: shown).take capacity) shown := by
    rw [List.foldl_map]
    rfl
  have reversed : (entries.map fun entry => [entry]).reverse.flatten = entries.reverse := by
    rw [← List.map_reverse, ← List.flatMap_def, List.flatMap_singleton']
  rw [← single, foldl_push_of_le bounded, reversed]

/-- Lists that agree up to a place are compared on both sides of it. -/
theorem take_append_eq_iff
    {bound : Nat}
    {left right : List α}
    (same : left.length = right.length)
    (after behind : List α) :
    (left ++ after).take bound = (right ++ behind).take bound ↔
      left.take bound = right.take bound ∧
        after.take (bound - left.length) = behind.take (bound - left.length) := by
  rw [List.take_append, List.take_append, ← same]
  constructor
  · refine fun equal => List.append_inj equal ?_
    rw [List.length_take, List.length_take, same]
  · rintro ⟨first, second⟩
    rw [first, second]

/-- Whatever part of a batch is still kept reads the same from both ends. -/
def Mirrored (capacity : Nat) (batches : List (List α)) : Prop :=
  ∀ earlier batch later, batches = earlier ++ batch :: later →
    batch.take (capacity - later.flatten.length) =
      batch.reverse.take (capacity - later.flatten.length)

theorem mirrored_concat
    {capacity : Nat}
    {batches : List (List α)}
    {last : List α} :
    Mirrored capacity (batches ++ [last]) ↔
      last.take capacity = last.reverse.take capacity ∧
        Mirrored (capacity - last.length) batches := by
  constructor
  · intro mirrored
    refine ⟨mirrored batches last [] rfl, fun earlier batch later split => ?_⟩
    have kept := mirrored earlier batch (later ++ [last]) (by rw [split]; simp)
    rw [List.flatten_append, List.flatten_singleton, List.length_append, Nat.add_comm,
      ← Nat.sub_sub] at kept
    exact kept
  · rintro ⟨lastMirrored, mirrored⟩ earlier batch later split
    rcases List.eq_nil_or_concat later with rfl | ⟨later, final, rfl⟩
    · obtain ⟨_, same⟩ := List.append_inj' split rfl
      obtain rfl := (List.cons.inj same).1
      exact lastMirrored
    · rw [List.concat_eq_append, ← List.cons_append, ← List.append_assoc] at split
      obtain ⟨rfl, same⟩ := List.append_inj' split rfl
      obtain rfl := (List.cons.inj same).1
      rw [List.concat_eq_append, List.flatten_append, List.flatten_singleton,
        List.length_append, Nat.add_comm, ← Nat.sub_sub]
      exact mirrored earlier batch later rfl

/-- Batches and single entries give the same list exactly when the batches are
mirrored. -/
theorem take_eq_take_iff_mirrored
    (capacity : Nat)
    (batches : List (List α))
    (shown : List α) :
    (batches.reverse.flatten ++ shown).take capacity =
        (batches.flatten.reverse ++ shown).take capacity ↔
      Mirrored capacity batches := by
  induction batches using List.reverseRecOn generalizing capacity with
  | nil =>
      apply iff_of_true rfl
      intro earlier batch later split
      exact absurd split.symm (by simp)
  | append_singleton batches last inductionHypothesis =>
      rw [mirrored_concat, ← inductionHypothesis, List.reverse_append, List.flatten_append,
        List.reverse_singleton, List.flatten_append, List.flatten_singleton,
        List.reverse_append, List.append_assoc, List.append_assoc,
        take_append_eq_iff (List.length_reverse).symm]

theorem foldl_push_eq_foldl_cons_iff
    {capacity : Nat}
    {shown : List α}
    (bounded : shown.length ≤ capacity)
    (batches : List (List α)) :
    batches.foldl (push capacity) shown =
        batches.flatten.foldl (fun shown entry => (entry :: shown).take capacity) shown ↔
      Mirrored capacity batches := by
  rw [foldl_push_of_le bounded, foldl_cons_take bounded, take_eq_take_iff_mirrored]

/-- Batches of at most one entry are mirrored. -/
theorem mirrored_of_length_le_one
    {capacity : Nat}
    {batches : List (List α)}
    (single : ∀ batch ∈ batches, batch.length ≤ 1) : Mirrored capacity batches := by
  rintro earlier batch later rfl
  match batch, single batch (by simp) with
  | [], _ => rfl
  | [_], _ => rfl

end Feed
