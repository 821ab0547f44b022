import Chronolog.Foundation.WorkerFarm

/-!
# Work that comes to an end

Steps of a kind that uses up a measure come to an end, and where every state
that falls short of a goal allows such a step, they end at the goal.  The
workers of a farm use up the jobs they are given: they finish and exit exactly
when the output has room for everything that is left to them.
-/

namespace Transition

section Measures

variable {σ ε : Type*} {step : σ → ε → Option σ}
variable {Invariant : σ → Prop} {Allowed : ε → Prop} {measure : σ → Nat}

/-- A run of steps that use up a measure is no longer than the measure. -/
theorem length_add_measure_le
    (decreases : ∀ state event next, Invariant state → Allowed event →
      step state event = some next → Invariant next ∧ measure next < measure state)
    {state final : σ}
    {events : List ε}
    (invariant : Invariant state)
    (allowed : ∀ event ∈ events, Allowed event)
    (reached : run step state events = some final) :
    Invariant final ∧ events.length + measure final ≤ measure state := by
  induction events generalizing state with
  | nil =>
      obtain rfl : state = final := Option.some.inj reached
      exact ⟨invariant, by simp⟩
  | cons event events inductionHypothesis =>
      obtain ⟨next, stepped, rest⟩ := Option.bind_eq_some_iff.mp reached
      obtain ⟨kept, less⟩ := decreases state event next invariant
        (allowed event List.mem_cons_self) stepped
      obtain ⟨holds, bound⟩ := inductionHypothesis kept
        (fun other member => allowed other (List.mem_cons_of_mem event member)) rest
      refine ⟨holds, ?_⟩
      rw [List.length_cons]
      omega

/-- Where every state short of a goal allows a step that uses up the measure,
the goal is reached by such steps. -/
theorem exists_run_to_goal
    (Goal : σ → Prop)
    (progress : ∀ state, Invariant state → ¬ Goal state →
      ∃ event next, Allowed event ∧ step state event = some next)
    (decreases : ∀ state event next, Invariant state → Allowed event →
      step state event = some next → Invariant next ∧ measure next < measure state)
    {state : σ}
    (invariant : Invariant state) :
    ∃ events final, (∀ event ∈ events, Allowed event) ∧
      run step state events = some final ∧ Invariant final ∧ Goal final := by
  induction size : measure state using Nat.strong_induction_on generalizing state with
  | _ bound inductionHypothesis =>
      by_cases goal : Goal state
      · exact ⟨[], state, fun _ member => absurd member List.not_mem_nil, rfl, invariant, goal⟩
      · obtain ⟨event, next, allowed, stepped⟩ := progress state invariant goal
        obtain ⟨kept, less⟩ := decreases state event next invariant allowed stepped
        obtain ⟨events, final, rest, reached, holds⟩ :=
          inductionHypothesis (measure next) (size ▸ less) kept rfl
        refine ⟨event :: events, final, ?_, ?_, holds⟩
        · intro other member
          rcases List.mem_cons.mp member with rfl | later
          · exact allowed
          · exact rest other later
        · rw [run_cons, stepped]
          exact reached

end Measures

end Transition

namespace Channels

variable {workers : Nat} {α τ : Type*}

/-- The values waiting in a channel. -/
def Channel.contents (channel : Channel α) : Multiset α := channel.queue

/-- The value a party holds, if any. -/
def inHandOf (held : Option α) : Multiset α := held.toList

/-- A channel of a given capacity that holds no more than that. -/
structure Channel.Fits (capacity : Nat) (channel : Channel α) : Prop where
  capacity_eq : channel.capacity = capacity
  length_le : channel.queue.length ≤ capacity

namespace Channel.Fits

variable {capacity : Nat} {channel next : Channel α}

theorem make (α : Type*) (capacity : Nat) : (Channel.make capacity : Channel α).Fits capacity :=
  ⟨rfl, Nat.zero_le capacity⟩

theorem push
    (fits : channel.Fits capacity)
    (room : channel.hasRoom = true)
    (value : α) : (channel.push value).Fits capacity := by
  refine ⟨fits.capacity_eq, ?_⟩
  have less := of_decide_eq_true room
  rw [fits.capacity_eq] at less
  rw [Channel.push_queue, List.length_append, List.length_singleton]
  exact less

theorem pop
    {value : α}
    (fits : channel.Fits capacity)
    (popped : channel.pop = some (value, next)) : next.Fits capacity := by
  obtain ⟨queue, shape⟩ := Channel.pop_eq_some.mp popped
  refine ⟨?_, ?_⟩
  · rw [shape]
    exact fits.capacity_eq
  · have bound := fits.length_le
    rw [queue, List.length_cons] at bound
    omega

theorem close (fits : channel.Fits capacity) : channel.close.Fits capacity :=
  ⟨fits.capacity_eq, fits.length_le⟩

/-- A channel that is not full has room. -/
theorem hasRoom
    (fits : channel.Fits capacity)
    (less : channel.queue.length < capacity) : channel.hasRoom = true := by
  rw [Channel.hasRoom, decide_eq_true_eq, fits.capacity_eq]
  exact less

end Channel.Fits

namespace Farm

/-! ## Bounded queues -/

/-- Whether sender and receiver meet without the buffer. -/
def Event.meets : Event workers α τ → Bool
  | .handOver _ _ | .handOut _ => true
  | _ => false

/-- Both queues of a farm hold no more than their capacities. -/
structure Fits (inputCapacity outputCapacity : Nat) (farm : Farm workers α τ) : Prop where
  input : farm.input.Fits inputCapacity
  output : farm.output.Fits outputCapacity

namespace Fits

variable {inputCapacity outputCapacity : Nat} {farm next : Farm workers α τ}

theorem start :
    (Farm.start workers α τ inputCapacity outputCapacity).Fits
      inputCapacity outputCapacity :=
  ⟨.make _ inputCapacity, .make _ outputCapacity⟩

/-- Every step that uses the buffers keeps within them. -/
theorem step
    {event : Event workers α τ}
    (fits : farm.Fits inputCapacity outputCapacity)
    (buffered : event.meets = false)
    (stepped : farm.step event = some next) :
    next.Fits inputCapacity outputCapacity := by
  cases event with
  | submit content =>
      rcases step_submit stepped with ⟨_, rfl⟩ | ⟨_, room, rfl⟩
      · exact ⟨fits.input, fits.output⟩
      · exact ⟨fits.input.push room _, fits.output⟩
  | handOver | handOut => exact absurd buffered.symm Bool.false_ne_true
  | take worker =>
      obtain ⟨_, _, _, popped, rfl⟩ := takeJob_eq_some.mp stepped
      exact ⟨fits.input.pop popped, fits.output⟩
  | stamp =>
      obtain ⟨_, _, rfl⟩ := step_stamp.mp stepped
      exact ⟨fits.input, fits.output⟩
  | emit worker =>
      rcases step_emit stepped with ⟨_, _, rfl⟩ | ⟨_, room, emitted⟩
      · exact ⟨fits.input, fits.output⟩
      · obtain ⟨_, _, rfl⟩ := emitJob_eq_some.mp emitted
        exact ⟨fits.input, fits.output.push room _⟩
  | exit =>
      obtain ⟨_, _, rfl⟩ := step_exit.mp stepped
      exact ⟨fits.input, fits.output⟩
  | deliver =>
      obtain ⟨_, _, popped, rfl⟩ := deliverJob_eq_some.mp stepped
      exact ⟨fits.input, fits.output.pop popped⟩
  | close =>
      obtain ⟨_, rfl⟩ := step_close stepped
      exact ⟨fits.input.close, fits.output⟩
  | closeOutput =>
      obtain ⟨_, _, rfl⟩ := step_closeOutput stepped
      exact ⟨fits.input, fits.output.close⟩

end Fits

/-! ## What is left to do -/

/-- What a worker does by itself. -/
def Event.byWorker : Event workers α τ → Bool
  | .take _ | .stamp _ _ | .emit _ | .exit _ => true
  | _ => false

/-- The steps a worker has before it, where a job costs its consumer `cost`. -/
def pointWork (cost : α → Nat) : Point α τ → Nat
  | .waiting => 1
  | .taken job => cost job.content + 4
  | .stamped done => cost done.job.content + 3
  | .exited => 0

/-- The steps the workers and the consumer have before them. -/
def work (cost : α → Nat) (farm : Farm workers α τ) : Nat :=
  (farm.input.queue.map fun job => cost job.content + 4).sum +
    ∑ worker, pointWork cost (farm.point worker) +
    (farm.output.queue.map fun done => cost done.job.content).sum

/-- The jobs that were submitted and not delivered. -/
def load (farm : Farm workers α τ) : Nat :=
  farm.input.queue.length + farm.inHand.card + farm.unsent.card + farm.output.queue.length

/-- The workers are done with what is in the input. -/
def Idle (farm : Farm workers α τ) : Prop :=
  farm.input.queue = [] ∧ ∀ worker, farm.point worker = .waiting ∨ farm.point worker = .exited

variable {farm next : Farm workers α τ}

/-- A job is left to do as long as it was not delivered. -/
theorem Accounted.load_add_delivered (accounted : farm.Accounted) :
    farm.load + farm.delivered.length = farm.submitted.length := by
  have queued := congrArg List.length accounted.queued
  have held := congrArg Multiset.card accounted.held
  have emitted := congrArg Multiset.card accounted.emitted
  simp only [List.length_append, Multiset.card_add, Multiset.coe_card,
    List.length_map] at queued held emitted
  rw [load]
  omega

/-- The workers by themselves leave the load as it is. -/
theorem load_step
    {event : Event workers α τ}
    (accounted : farm.Accounted)
    (byWorker : event.byWorker = true)
    (stepped : farm.step event = some next) :
    next.load = farm.load := by
  have before := accounted.load_add_delivered
  have after := (accounted.step stepped).load_add_delivered
  have submitted : next.submitted = farm.submitted :=
    submitted_eq_step stepped (by cases event <;> simp_all [Event.byWorker, Event.submits])
  have delivered : next.delivered = farm.delivered :=
    delivered_step stepped (by cases event <;> simp_all [Event.byWorker, Event.delivers])
  rw [submitted, delivered] at after
  omega

/-- A worker that sends has an open channel before it. -/
theorem Accounted.emitJob_of_step
    {worker : Fin workers}
    (accounted : farm.Accounted)
    (stepped : farm.step (.emit worker) = some next) :
    farm.output.hasRoom = true ∧ farm.emitJob worker = some next := by
  rcases step_emit stepped with ⟨closed, ⟨done, stamped⟩, _⟩ | ⟨_, room, emitted⟩
  · rw [accounted.output_open stamped] at closed
    exact absurd closed Bool.false_ne_true
  · exact ⟨room, emitted⟩

/-- A worker moves, and the sum over the workers changes with it. -/
theorem sum_pointWork_update
    (cost : α → Nat)
    (point : Fin workers → Point α τ)
    (worker : Fin workers)
    (moved : Point α τ) :
    ∑ other, pointWork cost (Function.update point worker moved other) +
        pointWork cost (point worker) =
      ∑ other, pointWork cost (point other) + pointWork cost moved :=
  sum_update (pointWork cost) point worker moved

/-- Every step of a worker leaves less to do. -/
theorem work_step
    (cost : α → Nat)
    {event : Event workers α τ}
    (accounted : farm.Accounted)
    (byWorker : event.byWorker = true)
    (stepped : farm.step event = some next) :
    next.work cost < farm.work cost := by
  cases event with
  | take worker =>
      obtain ⟨job, input, waiting, popped, rfl⟩ := takeJob_eq_some.mp stepped
      obtain ⟨queue, _⟩ := Channel.pop_eq_some.mp popped
      have moved := sum_pointWork_update cost farm.point worker (.taken job)
      rw [waiting] at moved
      simp only [work, queue, List.map_cons, List.sum_cons, pointWork] at moved ⊢
      omega
  | stamp worker stamp =>
      obtain ⟨job, taken, rfl⟩ := step_stamp.mp stepped
      have moved := sum_pointWork_update cost farm.point worker (.stamped ⟨job, stamp⟩)
      rw [taken] at moved
      simp only [work, pointWork] at moved ⊢
      omega
  | emit worker =>
      obtain ⟨done, stamped, rfl⟩ := emitJob_eq_some.mp (accounted.emitJob_of_step stepped).2
      have moved := sum_pointWork_update cost farm.point worker .waiting
      rw [stamped] at moved
      simp only [work, pointWork, Channel.push_queue, List.map_append, List.map_singleton,
        List.sum_append, List.sum_singleton] at moved ⊢
      omega
  | exit worker =>
      obtain ⟨waiting, _, rfl⟩ := step_exit.mp stepped
      have moved := sum_pointWork_update cost farm.point worker .exited
      rw [waiting] at moved
      simp only [work, pointWork] at moved ⊢
      omega
  | submit | handOver | handOut | deliver | close | closeOutput =>
      exact absurd byWorker Bool.false_ne_true

/-- Workers that are not done take a step, if the output has room. -/
theorem exists_step_of_not_idle
    [Inhabited τ]
    (accounted : farm.Accounted)
    (positive : 0 < workers)
    (room : farm.output.hasRoom = true)
    (busy : ¬ farm.Idle) :
    ∃ event next, event.byWorker = true ∧ farm.step event = some next := by
  by_cases resting : ∀ worker, farm.point worker = .waiting ∨ farm.point worker = .exited
  · -- the queue is not empty, so that no worker has exited
    have pending : farm.input.queue ≠ [] := fun empty => busy ⟨empty, resting⟩
    have waiting : farm.point ⟨0, positive⟩ = .waiting := by
      apply (resting _).resolve_right
      intro exited
      exact pending (accounted.exited _ exited).2
    obtain ⟨job, rest, queue⟩ := List.exists_cons_of_ne_nil pending
    exact ⟨.take ⟨0, positive⟩, _, rfl, takeJob_eq_some.mpr
      ⟨job, { farm.input with queue := rest }, waiting, Channel.pop_eq_some.mpr ⟨queue, rfl⟩,
        rfl⟩⟩
  · obtain ⟨worker, active⟩ := not_forall.mp resting
    cases point : farm.point worker with
    | waiting => exact absurd (Or.inl point) active
    | exited => exact absurd (Or.inr point) active
    | taken job => exact ⟨.stamp worker default, _, rfl, step_stamp.mpr ⟨job, point, rfl⟩⟩
    | stamped done =>
        refine ⟨.emit worker,
          { farm with
            point := Function.update farm.point worker .waiting
            output := farm.output.push done }, rfl, ?_⟩
        rw [step, point]
        dsimp only
        rw [accounted.output_open point, if_neg Bool.false_ne_true, if_pos room]
        exact emitJob_eq_some.mpr ⟨done, point, rfl⟩

/-- A farm whose workers are done has its load on the output. -/
theorem Idle.load_eq (idle : farm.Idle) : farm.load = farm.output.queue.length := by
  have inHand : farm.inHand = 0 := by
    apply Finset.sum_eq_zero
    intro worker _
    rcases idle.2 worker with point | point <;> rw [point] <;> rfl
  have unsent : farm.unsent = 0 := by
    apply Finset.sum_eq_zero
    intro worker _
    rcases idle.2 worker with point | point <;> rw [point] <;> rfl
  simp [load, inHand, unsent, idle.1]

/-- Something is left beside the output as long as the workers are not done. -/
theorem length_lt_load_of_not_idle (busy : ¬ farm.Idle) :
    farm.output.queue.length < farm.load := by
  by_contra full
  apply busy
  rw [load, Nat.not_lt] at full
  refine ⟨List.length_eq_zero_iff.mp (by omega), ?_⟩
  intro worker
  have inHand : farm.inHand = 0 := Multiset.card_eq_zero.mp (by omega)
  have unsent : farm.unsent = 0 := Multiset.card_eq_zero.mp (by omega)
  cases point : farm.point worker with
  | waiting => exact Or.inl rfl
  | exited => exact Or.inr rfl
  | taken job =>
      have member : job ∈ farm.inHand := mem_inHand.mpr ⟨worker, point⟩
      rw [inHand] at member
      exact absurd member (Multiset.notMem_zero job)
  | stamped done =>
      have member : done ∈ farm.unsent := Multiset.mem_sum.mpr
        ⟨worker, Finset.mem_univ worker, by rw [point]; exact Multiset.mem_singleton_self done⟩
      rw [unsent] at member
      exact absurd member (Multiset.notMem_zero done)

/-- A farm behind a closed input that has a given load left. -/
structure Closing (inputCapacity outputCapacity load : Nat) (farm : Farm workers α τ) :
    Prop where
  accounted : farm.Accounted
  fits : farm.Fits inputCapacity outputCapacity
  closed : farm.input.closed = true
  load_eq : farm.load = load

section Closing

variable {inputCapacity outputCapacity load : Nat}

theorem Closing.step
    {event : Event workers α τ}
    (closing : farm.Closing inputCapacity outputCapacity load)
    (byWorker : event.byWorker = true)
    (stepped : farm.step event = some next) :
    next.Closing inputCapacity outputCapacity load ∧
      next.work (fun _ => 0) < farm.work (fun _ => 0) := by
  refine ⟨⟨closing.accounted.step stepped, closing.fits.step ?_ stepped, ?_, ?_⟩,
    work_step _ closing.accounted byWorker stepped⟩
  · cases event <;> first | rfl | exact absurd byWorker Bool.false_ne_true
  · rw [input_closed_step stepped, closing.closed]
    rintro rfl
    exact absurd byWorker Bool.false_ne_true
  · rw [load_step closing.accounted byWorker stepped, closing.load_eq]

/-- Workers that have not exited take a step, if the output has room for all. -/
theorem Closing.exists_step
    [Inhabited τ]
    (closing : farm.Closing inputCapacity outputCapacity load)
    (positive : 0 < workers)
    (enough : load ≤ outputCapacity)
    (inside : ¬ ∀ worker, farm.point worker = .exited) :
    ∃ event next, event.byWorker = true ∧ farm.step event = some next := by
  by_cases idle : farm.Idle
  · obtain ⟨worker, inside⟩ := not_forall.mp inside
    exact ⟨.exit worker, _, rfl, step_exit.mpr ⟨(idle.2 worker).resolve_right inside,
      Channel.ended_eq_true.mpr ⟨closing.closed, idle.1⟩, rfl⟩⟩
  · apply exists_step_of_not_idle closing.accounted positive ?_ idle
    have beside := length_lt_load_of_not_idle idle
    rw [closing.load_eq] at beside
    exact closing.fits.output.hasRoom (by omega)

/-- Behind a closed input and without a consumer, the workers of a farm can
finish and exit exactly when the output has room for the whole load. -/
theorem Closing.exits_iff_load_le
    [Inhabited τ]
    (closing : farm.Closing inputCapacity outputCapacity load)
    (positive : 0 < workers) :
    (∃ events final, (∀ event ∈ events, event.byWorker = true) ∧
        Transition.run Farm.step farm events = some final ∧
        ∀ worker, final.point worker = .exited) ↔
      load ≤ outputCapacity := by
  have decreases : ∀ (state : Farm workers α τ) event (next : Farm workers α τ),
      state.Closing inputCapacity outputCapacity load → event.byWorker = true →
      state.step event = some next →
      next.Closing inputCapacity outputCapacity load ∧
        next.work (fun _ => 0) < state.work (fun _ => 0) :=
    fun _ _ _ closing byWorker stepped => closing.step byWorker stepped
  constructor
  · rintro ⟨events, final, byWorkers, reached, exited⟩
    have last := (Transition.length_add_measure_le decreases closing byWorkers reached).1
    have idle : final.Idle :=
      ⟨(last.accounted.exited ⟨0, positive⟩ (exited _)).2, fun worker => Or.inr (exited worker)⟩
    rw [← last.load_eq, idle.load_eq]
    exact last.fits.output.length_le
  · intro enough
    obtain ⟨events, final, byWorkers, reached, _, exited⟩ :=
      Transition.exists_run_to_goal (fun state => ∀ worker, state.point worker = .exited)
        (fun state closing inside => Closing.exists_step closing positive enough inside)
        decreases closing
    exact ⟨events, final, byWorkers, reached, exited⟩

end Closing

end Farm
end Channels
