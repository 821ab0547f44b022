import Mathlib.Data.List.Induction

/-!
# Runs of partial step functions

A machine is a step function that is undefined on the events a state does not
allow.  This module defines its runs over event lists and gives the induction
rules the rest of the development uses: invariants indexed by the history so
far, and simulation by a total abstract machine or by the runs of another one.
-/

namespace Transition

variable {σ τ ε δ : Type*}

/-- Run a machine over a list of events. -/
def run (step : σ → ε → Option σ) : σ → List ε → Option σ
  | state, [] => some state
  | state, event :: events =>
      (step state event).bind fun next => run step next events

/-- A state that a run is in after some prefix of its events. -/
def Passes
    (step : σ → ε → Option σ)
    (start : σ)
    (events : List ε)
    (moment : σ) : Prop :=
  ∃ before after, events = before ++ after ∧ run step start before = some moment

/-- A step that a run takes: the state it is taken from and its event. -/
def Performs
    (step : σ → ε → Option σ)
    (start : σ)
    (events : List ε)
    (moment : σ)
    (event : ε) : Prop :=
  ∃ before after, events = before ++ event :: after ∧
    run step start before = some moment

variable {step : σ → ε → Option σ}

@[simp] theorem run_nil (state : σ) : run step state [] = some state := rfl

theorem run_cons (state : σ) (event : ε) (events : List ε) :
    run step state (event :: events) =
      (step state event).bind fun next => run step next events := rfl

theorem run_append (state : σ) (before after : List ε) :
    run step state (before ++ after) =
      (run step state before).bind fun next => run step next after := by
  induction before generalizing state with
  | nil => rfl
  | cons event before inductionHypothesis =>
      rw [List.cons_append, run_cons, run_cons, Option.bind_assoc]
      simp only [inductionHypothesis]

theorem run_append_eq_some
    {state final : σ}
    {before after : List ε} :
    run step state (before ++ after) = some final ↔
      ∃ middle, run step state before = some middle ∧
        run step middle after = some final := by
  rw [run_append, Option.bind_eq_some_iff]

theorem run_concat_eq_some
    {state final : σ}
    {events : List ε}
    {event : ε} :
    run step state (events ++ [event]) = some final ↔
      ∃ middle, run step state events = some middle ∧
        step middle event = some final := by
  simp [run_append_eq_some, run_cons]

theorem passes_final
    {start final : σ}
    {events : List ε}
    (reached : run step start events = some final) :
    Passes step start events final :=
  ⟨events, [], (List.append_nil events).symm, reached⟩

/-- The states of a longer run are those of the shorter one and the last. -/
theorem passes_concat
    {start state next moment : σ}
    {events : List ε}
    {event : ε}
    (reached : run step start events = some state)
    (stepped : step state event = some next) :
    Passes step start (events ++ [event]) moment ↔
      Passes step start events moment ∨ moment = next := by
  have final : run step start (events ++ [event]) = some next :=
    run_concat_eq_some.mpr ⟨state, reached, stepped⟩
  constructor
  · rintro ⟨before, after, split, current⟩
    rcases List.eq_nil_or_concat after with rfl | ⟨rest, last, rfl⟩
    · right
      rw [List.append_nil] at split
      subst split
      exact Option.some.inj (current.symm.trans final)
    · left
      rw [List.concat_eq_append, ← List.append_assoc] at split
      exact ⟨before, rest, (List.append_inj' split rfl).1, current⟩
  · rintro (⟨before, after, rfl, current⟩ | rfl)
    · exact ⟨before, after ++ [event], List.append_assoc _ _ _, current⟩
    · exact passes_final final

theorem performs_append
    {start moment : σ}
    {before after : List ε}
    {event : ε}
    (performed : Performs step start before moment event) :
    Performs step start (before ++ after) moment event := by
  obtain ⟨first, rest, rfl, reached⟩ := performed
  exact ⟨first, rest ++ after, by simp, reached⟩

theorem performs_of_later
    {start middle moment : σ}
    {before after : List ε}
    {event : ε}
    (reached : run step start before = some middle)
    (performed : Performs step middle after moment event) :
    Performs step start (before ++ after) moment event := by
  obtain ⟨first, rest, rfl, current⟩ := performed
  exact ⟨before ++ first, rest, by simp, run_append_eq_some.mpr ⟨middle, reached, current⟩⟩

theorem mem_of_performs
    {start moment : σ}
    {events : List ε}
    {event : ε}
    (performed : Performs step start events moment event) :
    event ∈ events := by
  obtain ⟨before, after, rfl, _⟩ := performed
  simp

theorem not_performs_nil {start moment : σ} {event : ε} :
    ¬ Performs step start [] moment event := fun performed =>
  List.not_mem_nil (mem_of_performs performed)

theorem performs_concat
    {start moment : σ}
    {before : List ε}
    {event : ε}
    (reached : run step start before = some moment) :
    Performs step start (before ++ [event]) moment event :=
  ⟨before, [], rfl, reached⟩

/-- The steps of a longer run are those of the shorter one and the last. -/
theorem performs_of_concat
    {start moment : σ}
    {before : List ε}
    {last event : ε}
    (performed : Performs step start (before ++ [last]) moment event) :
    Performs step start before moment event ∨
      event = last ∧ run step start before = some moment := by
  obtain ⟨first, after, split, reached⟩ := performed
  rcases List.eq_nil_or_concat after with rfl | ⟨rest, final, rfl⟩
  · obtain ⟨rfl, same⟩ := List.append_inj' split rfl
    exact Or.inr ⟨(List.cons.inj same).1.symm, reached⟩
  · left
    rw [List.concat_eq_append, ← List.cons_append, ← List.append_assoc] at split
    exact ⟨first, rest, (List.append_inj' split rfl).1, reached⟩

/-- A step of a complete run succeeds. -/
theorem exists_step_of_performs
    {start final moment : σ}
    {before after : List ε}
    {event : ε}
    (reached : run step start (before ++ event :: after) = some final)
    (current : run step start before = some moment) :
    ∃ next, step moment event = some next := by
  obtain ⟨middle, first, rest⟩ := run_append_eq_some.mp reached
  obtain rfl : middle = moment := Option.some.inj (first.symm.trans current)
  rw [run_cons, Option.bind_eq_some_iff] at rest
  obtain ⟨next, stepped, _⟩ := rest
  exact ⟨next, stepped⟩

/-- Induction over the history of a run: what holds at the start and is
preserved by every step from a reached state holds at the end. -/
theorem run_history
    {start : σ}
    (Invariant : List ε → σ → Prop)
    (initial : Invariant [] start)
    (preserved : ∀ history state event next,
      run step start history = some state →
      Invariant history state →
      step state event = some next →
      Invariant (history ++ [event]) next)
    {events : List ε}
    {final : σ}
    (reached : run step start events = some final) :
    Invariant events final := by
  induction events using List.reverseRecOn generalizing final with
  | nil =>
      obtain rfl : start = final := Option.some.inj reached
      exact initial
  | append_singleton history event inductionHypothesis =>
      obtain ⟨state, before, stepped⟩ := run_concat_eq_some.mp reached
      exact preserved history state event final before
        (inductionHypothesis before) stepped

/-- Induction over a run all of whose steps meet a condition. -/
theorem run_history_meeting
    {start : σ}
    {Condition : σ → ε → Prop}
    (Invariant : List ε → σ → Prop)
    (initial : Invariant [] start)
    (preserved : ∀ history state event next,
      run step start history = some state →
      Invariant history state →
      Condition state event →
      step state event = some next →
      Invariant (history ++ [event]) next)
    {events : List ε}
    {final : σ}
    (reached : run step start events = some final)
    (meets : ∀ moment event, Performs step start events moment event →
      Condition moment event) :
    Invariant events final := by
  refine run_history
    (fun history state => (∀ moment event, Performs step start history moment event →
      Condition moment event) → Invariant history state) (fun _ => initial) ?_ reached meets
  intro history state event next current inductionHypothesis stepped meets
  have earlier := inductionHypothesis fun moment other performed =>
    meets moment other (performs_append performed)
  exact preserved history state event next current earlier
    (meets state event (performs_concat current)) stepped

/-- A relation kept by every step against a total abstract machine relates the
final states of the two runs. -/
theorem run_simulates
    {abstractStep : τ → ε → τ}
    {Related : σ → τ → Prop}
    (simulates : ∀ state abstract event next,
      Related state abstract →
      step state event = some next →
      Related next (abstractStep abstract event))
    {start final : σ}
    {abstract : τ}
    (initial : Related start abstract)
    {events : List ε}
    (reached : run step start events = some final) :
    Related final (events.foldl abstractStep abstract) := by
  refine run_history
    (fun history state => Related state (history.foldl abstractStep abstract))
    initial ?_ reached
  intro history state event next _ related stepped
  rw [List.foldl_append]
  exact simulates state _ event next related stepped

/-- A relation under which another machine answers every step with a step of
its own, or stands still, relates every state a run ends in to the end of a run
of that machine. -/
theorem run_stutters
    {otherStep : τ → δ → Option τ}
    (Related : σ → τ → Prop)
    (answers : ∀ state other event next,
      Related state other →
      step state event = some next →
      Related next other ∨
        ∃ answer after, otherStep other answer = some after ∧ Related next after)
    {start final : σ}
    {other : τ}
    (initial : Related start other)
    {events : List ε}
    (reached : run step start events = some final) :
    ∃ others otherFinal,
      run otherStep other others = some otherFinal ∧ Related final otherFinal := by
  refine run_history
    (fun _ state => ∃ others moment,
      run otherStep other others = some moment ∧ Related state moment)
    ⟨[], other, rfl, initial⟩ ?_ reached
  rintro history state event next _ ⟨others, moment, otherReached, related⟩ stepped
  rcases answers state moment event next related stepped with
    still | ⟨answer, after, answered, relatedAfter⟩
  · exact ⟨others, moment, otherReached, still⟩
  · exact ⟨others ++ [answer], after,
      run_concat_eq_some.mpr ⟨moment, otherReached, answered⟩, relatedAfter⟩

/-- A machine that takes only the steps a check accepts. -/
def guarded (step : σ → ε → Option σ) (check : σ → ε → Bool) (state : σ) (event : ε) :
    Option σ :=
  if check state event then step state event else none

theorem guarded_eq_some
    {check : σ → ε → Bool}
    {state next : σ}
    {event : ε} :
    guarded step check state event = some next ↔
      check state event = true ∧ step state event = some next :=
  Option.ite_none_right_eq_some

/-- A guarded run is a run all of whose steps are accepted. -/
theorem run_guarded
    {check : σ → ε → Bool}
    {start final : σ}
    {events : List ε}
    (reached : run (guarded step check) start events = some final) :
    run step start events = some final ∧
      ∀ moment event, Performs step start events moment event →
        check moment event = true := by
  refine run_history
    (fun history state => run step start history = some state ∧
      ∀ moment event, Performs step start history moment event →
        check moment event = true)
    ⟨rfl, fun _ _ performed => absurd performed not_performs_nil⟩ ?_ reached
  intro history state event next _ inductionHypothesis stepped
  obtain ⟨accepted, stepped⟩ := guarded_eq_some.mp stepped
  refine ⟨run_concat_eq_some.mpr ⟨state, inductionHypothesis.1, stepped⟩, ?_⟩
  intro moment other performed
  rcases performs_of_concat performed with earlier | ⟨rfl, here⟩
  · exact inductionHypothesis.2 moment other earlier
  · obtain rfl : state = moment := Option.some.inj (inductionHypothesis.1.symm.trans here)
    exact accepted

/-- A property of histories that holds at first and fails at last is broken by
a single event. -/
theorem exists_crossing
    {Property : List ε → Prop}
    {events : List ε}
    (initial : Property [])
    (final : ¬ Property events) :
    ∃ before event after, events = before ++ event :: after ∧
      Property before ∧ ¬ Property (before ++ [event]) := by
  induction events using List.reverseRecOn with
  | nil => exact absurd initial final
  | append_singleton history event inductionHypothesis =>
      by_cases holds : Property history
      · exact ⟨history, event, [], rfl, holds, final⟩
      · obtain ⟨before, crossing, after, rfl, kept, broken⟩ :=
          inductionHypothesis holds
        exact ⟨before, crossing, after ++ [event], by simp, kept, broken⟩

/-! ## Notes along a run -/

variable {ρ : Type*}

/-- What is noted of every step along a run. -/
def notes (step : σ → ε → Option σ) (note : σ → ε → ρ → ρ) : σ → ρ → List ε → ρ
  | _, noted, [] => noted
  | state, noted, event :: events =>
      match step state event with
      | some next => notes step note next (note state event noted) events
      | none => noted

/-- What every step keeps between the events so far, the notes and the state holds
after a run. -/
theorem run_notes_passed
    {note : σ → ε → ρ → ρ}
    {Invariant : List ε → ρ → σ → Prop}
    (passed : List ε)
    (preserved : ∀ passed state event noted next,
      Invariant passed noted state → step state event = some next →
      Invariant (passed ++ [event]) (note state event noted) next)
    {start final : σ}
    {noted : ρ}
    {events : List ε}
    (initial : Invariant passed noted start)
    (reached : run step start events = some final) :
    Invariant (passed ++ events) (notes step note start noted events) final := by
  induction events generalizing start passed noted with
  | nil =>
      rw [List.append_nil]
      exact Option.some.inj reached ▸ initial
  | cons event events inductionHypothesis =>
      rw [run_cons] at reached
      obtain ⟨next, stepped, rest⟩ := Option.bind_eq_some_iff.mp reached
      rw [notes, stepped, List.append_cons]
      apply inductionHypothesis (passed ++ [event]) _ rest
      exact preserved passed start event noted next initial stepped

/-- What every step keeps between the notes and the state holds after a run. -/
theorem run_notes
    {note : σ → ε → ρ → ρ}
    {Invariant : ρ → σ → Prop}
    (preserved : ∀ state event noted next,
      Invariant noted state → step state event = some next →
      Invariant (note state event noted) next)
    {start final : σ}
    {noted : ρ}
    {events : List ε}
    (initial : Invariant noted start)
    (reached : run step start events = some final) :
    Invariant (notes step note start noted events) final := by
  have kept : ∀ (_ : List ε) state event noted next,
      Invariant noted state → step state event = some next →
      Invariant (note state event noted) next := fun _ => preserved
  exact run_notes_passed [] kept initial reached

/-- Two ways of taking notes agree after a run if every step keeps them in
agreement. -/
theorem notes_agree
    {τ : Type*}
    {note : σ → ε → ρ → ρ}
    {otherNote : σ → ε → τ → τ}
    {Agree : ρ → τ → Prop}
    (preserved : ∀ state event next noted other,
      Agree noted other → step state event = some next →
      Agree (note state event noted) (otherNote state event other))
    (start : σ)
    {noted : ρ}
    {other : τ}
    (agree : Agree noted other)
    (events : List ε) :
    Agree (notes step note start noted events) (notes step otherNote start other events) := by
  induction events generalizing start noted other with
  | nil => exact agree
  | cons event events inductionHypothesis =>
      unfold notes
      cases stepped : step start event with
      | some next => exact inductionHypothesis next (preserved _ _ next _ _ agree stepped)
      | none => exact agree

section Projection

variable {τ δ : Type*} {partStep : τ → δ → Option τ} {part : σ → τ} {event? : σ → ε → Option δ}

/-- The events of a part of the system in a run of the whole. -/
def partEvents
    (step : σ → ε → Option σ)
    (event? : σ → ε → Option δ)
    (start : σ)
    (events : List ε) : List δ :=
  notes step (fun state event noted => noted ++ (event? state event).toList) start [] events

/-- A part of the system runs through its own events. -/
theorem run_partEvents
    (projects : ∀ state event next, step state event = some next →
      (∃ partEvent, event? state event = some partEvent ∧
        partStep (part state) partEvent = some (part next)) ∨
      event? state event = none ∧ part next = part state)
    {start final : σ}
    {events : List ε}
    (reached : run step start events = some final) :
    run partStep (part start) (partEvents step event? start events) = some (part final) := by
  have preserved : ∀ state event noted next,
      run partStep (part start) noted = some (part state) → step state event = some next →
      run partStep (part start) (noted ++ (event? state event).toList) =
        some (part next) := by
    intro state event noted next before stepped
    rw [run_append, before, Option.bind_some]
    rcases projects state event next stepped with ⟨partEvent, present, moved⟩ | ⟨none, kept⟩
    · rw [present, Option.toList_some, run_cons, moved]
      rfl
    · rw [none, kept]
      rfl
  exact run_notes preserved rfl reached

end Projection

end Transition
