import Chronolog.Foundation.Channel
import Chronolog.Foundation.Transition
import Mathlib.Data.List.Range

/-!
# Worker farms

A group of workers between an input and an output channel.  A worker takes a
job, stamps it with a value it reads from its environment, and sends the
stamped job on; it exits once the input has ended.  The output is closed when
every worker has exited.  No job is lost, duplicated or overtaken on its way to
a worker, for any number of workers, any capacities and any schedule.
-/

namespace Channels

variable {workers : Nat} {α τ : Type*}

/-- A submitted value with the number of its submission. -/
structure Job (α : Type*) where
  number : Nat
  content : α
  deriving DecidableEq

/-- A job with what its worker read. -/
structure Stamped (α τ : Type*) where
  job : Job α
  stamp : τ
  deriving DecidableEq

/-- Where a worker stands. -/
inductive Point (α τ : Type*)
  | waiting
  | taken (job : Job α)
  | stamped (done : Stamped α τ)
  | exited
  deriving DecidableEq

namespace Point

/-- The job a worker has taken and not stamped. -/
def job : Point α τ → Multiset (Job α)
  | .taken job => {job}
  | _ => 0

/-- The stamped job a worker has not sent on. -/
def done : Point α τ → Multiset (Stamped α τ)
  | .stamped done => {done}
  | _ => 0

/-- Whether the worker has left its loop. -/
def isExited : Point α τ → Bool
  | .exited => true
  | _ => false

theorem isExited_eq_true {point : Point α τ} :
    point.isExited = true ↔ point = .exited := by
  cases point <;> simp [isExited]

end Point

/-- State of a farm.  The last fields but one are history: what was submitted,
taken, stamped and delivered so far.  A send on a closed channel panics. -/
structure Farm (workers : Nat) (α τ : Type*) where
  input : Channel (Job α)
  point : Fin workers → Point α τ
  output : Channel (Stamped α τ)
  submitted : List (Job α)
  taken : List (Job α)
  stamped : List (Stamped α τ)
  delivered : List (Stamped α τ)
  panicked : Bool

namespace Farm

/-- What submitters, workers, the consumer and the closer do.  In `handOver`
and `handOut` sender and receiver meet without using the buffer. -/
inductive Event (workers : Nat) (α τ : Type*)
  | submit (content : α)
  | handOver (content : α) (worker : Fin workers)
  | take (worker : Fin workers)
  | stamp (worker : Fin workers) (stamp : τ)
  | emit (worker : Fin workers)
  | handOut (worker : Fin workers)
  | exit (worker : Fin workers)
  | deliver
  | close
  | closeOutput

/-- Whether a job is put on the input. -/
def Event.submits : Event workers α τ → Bool
  | .submit _ | .handOver _ _ => true
  | _ => false

/-- Whether the consumer receives a job. -/
def Event.delivers : Event workers α τ → Bool
  | .deliver | .handOut _ => true
  | _ => false

/-- A farm that was just started. -/
def start (workers : Nat) (α τ : Type*) (inputCapacity outputCapacity : Nat) :
    Farm workers α τ where
  input := Channel.make inputCapacity
  point _ := .waiting
  output := Channel.make outputCapacity
  submitted := []
  taken := []
  stamped := []
  delivered := []
  panicked := false

/-- A value becomes the newest job of the input. -/
def put (farm : Farm workers α τ) (content : α) : Farm workers α τ :=
  let job : Job α := { number := farm.submitted.length, content }
  { farm with
    input := farm.input.push job
    submitted := farm.submitted ++ [job] }

/-- A waiting worker takes the oldest job. -/
def takeJob (farm : Farm workers α τ) (worker : Fin workers) :
    Option (Farm workers α τ) :=
  match farm.point worker, farm.input.pop with
  | .waiting, some (job, input) =>
      some { farm with
        input
        point := Function.update farm.point worker (.taken job)
        taken := farm.taken ++ [job] }
  | _, _ => none

/-- A worker puts its stamped job on the output. -/
def emitJob (farm : Farm workers α τ) (worker : Fin workers) :
    Option (Farm workers α τ) :=
  match farm.point worker with
  | .stamped done =>
      some { farm with
        point := Function.update farm.point worker .waiting
        output := farm.output.push done }
  | _ => none

/-- The consumer receives the oldest stamped job. -/
def deliverJob (farm : Farm workers α τ) : Option (Farm workers α τ) :=
  match farm.output.pop with
  | some (done, output) =>
      some { farm with output, delivered := farm.delivered ++ [done] }
  | none => none

/-- One step of the farm. -/
def step (farm : Farm workers α τ) : Event workers α τ → Option (Farm workers α τ)
  | .submit content =>
      if farm.input.closed then some { farm with panicked := true }
      else if farm.input.hasRoom then some (farm.put content)
      else none
  | .handOver content worker =>
      if !farm.input.closed && farm.input.queue.isEmpty then
        (farm.put content).takeJob worker
      else none
  | .take worker => farm.takeJob worker
  | .stamp worker stamp =>
      match farm.point worker with
      | .taken job =>
          let done : Stamped α τ := { job, stamp }
          some { farm with
            point := Function.update farm.point worker (.stamped done)
            stamped := farm.stamped ++ [done] }
      | _ => none
  | .emit worker =>
      match farm.point worker with
      | .stamped _ =>
          if farm.output.closed then some { farm with panicked := true }
          else if farm.output.hasRoom then farm.emitJob worker
          else none
      | _ => none
  | .handOut worker =>
      if !farm.output.closed && farm.output.queue.isEmpty then
        (farm.emitJob worker).bind deliverJob
      else none
  | .exit worker =>
      match farm.point worker with
      | .waiting =>
          if farm.input.ended then
            some { farm with point := Function.update farm.point worker .exited }
          else none
      | _ => none
  | .deliver => farm.deliverJob
  | .close =>
      if farm.input.closed then none else some { farm with input := farm.input.close }
  | .closeOutput =>
      if farm.input.closed ∧ ∀ worker, (farm.point worker).isExited = true then
        some { farm with output := farm.output.close }
      else none

/-- The jobs taken and not stamped. -/
def inHand (farm : Farm workers α τ) : Multiset (Job α) :=
  ∑ worker, (farm.point worker).job

/-- The stamped jobs not sent on. -/
def unsent (farm : Farm workers α τ) : Multiset (Stamped α τ) :=
  ∑ worker, (farm.point worker).done

/-- Every job is where it should be: jobs are numbered in the order of their
submission, leave the input in this order, and are with a worker, stamped, on
the output or delivered.  Workers exit from an ended input only, and the output
is closed behind the last of them. -/
structure Accounted (farm : Farm workers α τ) : Prop where
  numbered : farm.submitted.map Job.number = List.range farm.submitted.length
  queued : farm.submitted = farm.taken ++ farm.input.queue
  held : (farm.taken : Multiset (Job α)) =
    farm.inHand + (farm.stamped.map Stamped.job : Multiset (Job α))
  emitted : (farm.stamped : Multiset (Stamped α τ)) =
    farm.unsent + farm.output.queue + farm.delivered
  exited : ∀ worker, farm.point worker = .exited →
    farm.input.closed = true ∧ farm.input.queue = []
  closed : farm.output.closed = true → ∀ worker, farm.point worker = .exited

/-! ## What a step can be -/

theorem takeJob_eq_some
    {farm next : Farm workers α τ}
    {worker : Fin workers} :
    farm.takeJob worker = some next ↔
      ∃ job input, farm.point worker = .waiting ∧
        farm.input.pop = some (job, input) ∧
        next = { farm with
          input
          point := Function.update farm.point worker (.taken job)
          taken := farm.taken ++ [job] } := by
  unfold takeJob
  constructor
  · intro taken
    split at taken
    next job input point popped =>
      exact ⟨job, input, point, popped, (Option.some.inj taken).symm⟩
    next => exact absurd taken.symm (Option.some_ne_none next)
  · rintro ⟨job, input, point, popped, rfl⟩
    rw [point, popped]

theorem emitJob_eq_some
    {farm next : Farm workers α τ}
    {worker : Fin workers} :
    farm.emitJob worker = some next ↔
      ∃ done, farm.point worker = .stamped done ∧
        next = { farm with
          point := Function.update farm.point worker .waiting
          output := farm.output.push done } := by
  unfold emitJob
  constructor
  · intro emitted
    split at emitted
    next done point => exact ⟨done, point, (Option.some.inj emitted).symm⟩
    next => exact absurd emitted.symm (Option.some_ne_none next)
  · rintro ⟨done, point, rfl⟩
    rw [point]

theorem deliverJob_eq_some {farm next : Farm workers α τ} :
    farm.deliverJob = some next ↔
      ∃ done output, farm.output.pop = some (done, output) ∧
        next = { farm with output, delivered := farm.delivered ++ [done] } := by
  unfold deliverJob
  constructor
  · intro delivered
    split at delivered
    next done output popped =>
      exact ⟨done, output, popped, (Option.some.inj delivered).symm⟩
    next => exact absurd delivered.symm (Option.some_ne_none next)
  · rintro ⟨done, output, popped, rfl⟩
    rw [popped]

theorem step_submit
    {farm next : Farm workers α τ}
    {content : α}
    (stepped : farm.step (.submit content) = some next) :
    (farm.input.closed = true ∧ next = { farm with panicked := true }) ∨
      (farm.input.closed = false ∧ farm.input.hasRoom = true ∧
        next = farm.put content) := by
  rw [step] at stepped
  split at stepped
  next closed => exact Or.inl ⟨closed, (Option.some.inj stepped).symm⟩
  next opened =>
    obtain ⟨room, same⟩ := Option.ite_none_right_eq_some.mp stepped
    exact Or.inr ⟨Bool.not_eq_true _ ▸ opened, room, (Option.some.inj same).symm⟩

theorem step_handOver
    {farm next : Farm workers α τ}
    {content : α}
    {worker : Fin workers}
    (stepped : farm.step (.handOver content worker) = some next) :
    farm.input.closed = false ∧ farm.input.queue = [] ∧
      (farm.put content).takeJob worker = some next := by
  obtain ⟨ready, taken⟩ := Option.ite_none_right_eq_some.mp stepped
  rw [Bool.and_eq_true, Bool.not_eq_true', List.isEmpty_iff] at ready
  exact ⟨ready.1, ready.2, taken⟩

theorem step_stamp
    {farm next : Farm workers α τ}
    {worker : Fin workers}
    {stamp : τ} :
    farm.step (.stamp worker stamp) = some next ↔
      ∃ job, farm.point worker = .taken job ∧
        next = { farm with
          point := Function.update farm.point worker (.stamped { job, stamp })
          stamped := farm.stamped ++ [{ job, stamp }] } := by
  rw [step]
  constructor
  · intro stepped
    split at stepped
    next job point => exact ⟨job, point, (Option.some.inj stepped).symm⟩
    next => exact absurd stepped.symm (Option.some_ne_none next)
  · rintro ⟨job, point, rfl⟩
    rw [point]

theorem step_emit
    {farm next : Farm workers α τ}
    {worker : Fin workers}
    (stepped : farm.step (.emit worker) = some next) :
    (farm.output.closed = true ∧ (∃ done, farm.point worker = .stamped done) ∧
        next = { farm with panicked := true }) ∨
      (farm.output.closed = false ∧ farm.output.hasRoom = true ∧
        farm.emitJob worker = some next) := by
  rw [step] at stepped
  split at stepped
  next done point =>
    split at stepped
    next closed => exact Or.inl ⟨closed, ⟨done, point⟩, (Option.some.inj stepped).symm⟩
    next opened =>
      obtain ⟨room, emitted⟩ := Option.ite_none_right_eq_some.mp stepped
      exact Or.inr ⟨Bool.not_eq_true _ ▸ opened, room, emitted⟩
  next => exact absurd stepped.symm (Option.some_ne_none next)

theorem step_handOut
    {farm next : Farm workers α τ}
    {worker : Fin workers}
    (stepped : farm.step (.handOut worker) = some next) :
    farm.output.closed = false ∧ farm.output.queue = [] ∧
      ∃ middle, farm.emitJob worker = some middle ∧ middle.deliverJob = some next := by
  obtain ⟨ready, handed⟩ := Option.ite_none_right_eq_some.mp stepped
  rw [Bool.and_eq_true, Bool.not_eq_true', List.isEmpty_iff] at ready
  exact ⟨ready.1, ready.2, Option.bind_eq_some_iff.mp handed⟩

theorem step_exit
    {farm next : Farm workers α τ}
    {worker : Fin workers} :
    farm.step (.exit worker) = some next ↔
      farm.point worker = .waiting ∧ farm.input.ended = true ∧
        next = { farm with point := Function.update farm.point worker .exited } := by
  rw [step]
  constructor
  · intro stepped
    split at stepped
    next point =>
      obtain ⟨ended, same⟩ := Option.ite_none_right_eq_some.mp stepped
      exact ⟨point, ended, (Option.some.inj same).symm⟩
    next => exact absurd stepped.symm (Option.some_ne_none next)
  · rintro ⟨point, ended, rfl⟩
    rw [point]
    exact if_pos ended

theorem step_close
    {farm next : Farm workers α τ}
    (stepped : farm.step .close = some next) :
    farm.input.closed = false ∧ next = { farm with input := farm.input.close } := by
  obtain ⟨opened, same⟩ := Option.ite_none_left_eq_some.mp stepped
  exact ⟨Bool.not_eq_true _ ▸ opened, (Option.some.inj same).symm⟩

theorem step_closeOutput
    {farm next : Farm workers α τ}
    (stepped : farm.step .closeOutput = some next) :
    farm.input.closed = true ∧ (∀ worker, farm.point worker = .exited) ∧
      next = { farm with output := farm.output.close } := by
  obtain ⟨⟨closed, exited⟩, same⟩ := Option.ite_none_right_eq_some.mp stepped
  exact ⟨closed, fun worker => Point.isExited_eq_true.mp (exited worker),
    (Option.some.inj same).symm⟩

/-- Only `close` closes the input. -/
theorem input_closed_step
    {farm next : Farm workers α τ}
    {event : Event workers α τ}
    (stepped : farm.step event = some next)
    (keeps : event ≠ .close) :
    next.input.closed = farm.input.closed := by
  cases event <;>
    grind [step, takeJob, emitJob, deliverJob, put, Channel.pop_eq_some,
      Channel.push_closed]

/-- A closed output stays closed. -/
theorem output_closed_step
    {farm next : Farm workers α τ}
    {event : Event workers α τ}
    (stepped : farm.step event = some next)
    (closed : farm.output.closed = true) :
    next.output.closed = true := by
  cases event <;>
    grind [step, takeJob, emitJob, deliverJob, put, Channel.pop_eq_some,
      Channel.push_closed, Channel.close_closed]

/-- Submissions are only added. -/
theorem submitted_step
    {farm next : Farm workers α τ}
    {event : Event workers α τ}
    (stepped : farm.step event = some next) :
    farm.submitted ⊆ next.submitted := by
  cases event <;> grind [step, takeJob, emitJob, deliverJob, put]

/-- Only submitters submit. -/
theorem submitted_eq_step
    {farm next : Farm workers α τ}
    {event : Event workers α τ}
    (stepped : farm.step event = some next)
    (noSubmission : event.submits = false) :
    next.submitted = farm.submitted := by
  cases event <;> grind [step, takeJob, emitJob, deliverJob, put, Event.submits]

/-- Only stamps are stamped. -/
theorem stamped_step
    {farm next : Farm workers α τ}
    {event : Event workers α τ}
    (stepped : farm.step event = some next) :
    next.stamped = farm.stamped ∨
      ∃ worker, ∃ done : Stamped α τ, event = .stamp worker done.stamp ∧
        next.stamped = farm.stamped ++ [done] := by
  cases event with
  | stamp worker stamp =>
      obtain ⟨job, _, rfl⟩ := step_stamp.mp stepped
      exact Or.inr ⟨worker, ⟨job, stamp⟩, rfl, rfl⟩
  | _ =>
      left
      grind [step, takeJob, emitJob, deliverJob, put]

/-- Only the consumer's receives deliver. -/
theorem delivered_step
    {farm next : Farm workers α τ}
    {event : Event workers α τ}
    (stepped : farm.step event = some next)
    (noDelivery : event.delivers = false) :
    next.delivered = farm.delivered := by
  cases event <;> grind [step, takeJob, emitJob, deliverJob, put, Event.delivers]

/-- Only a send on a closed channel panics. -/
theorem panicked_step
    {farm next : Farm workers α τ}
    {event : Event workers α τ}
    (stepped : farm.step event = some next) :
    next.panicked = farm.panicked ∨
      (∃ content, event = .submit content ∧ farm.input.closed = true) ∨
      (∃ worker done, event = .emit worker ∧ farm.point worker = .stamped done ∧
        farm.output.closed = true) := by
  cases event <;> grind [step, takeJob, emitJob, deliverJob, put]

/-! ## Every job is accounted for -/

namespace Accounted

variable {farm next : Farm workers α τ}

theorem start (inputCapacity outputCapacity : Nat) :
    (Farm.start workers α τ inputCapacity outputCapacity).Accounted where
  numbered := rfl
  queued := rfl
  held := by simp [Farm.start, inHand, Point.job]
  emitted := by simp [Farm.start, unsent, Point.done, Channel.make]
  exited _ impossible := nomatch impossible
  closed impossible := nomatch impossible

theorem put
    (accounted : farm.Accounted)
    (opened : farm.input.closed = false)
    (content : α) :
    (farm.put content).Accounted where
  numbered := by
    simp [Farm.put, accounted.numbered, List.range_succ]
  queued := by
    rw [Farm.put, Channel.push_queue, ← List.append_assoc, ← accounted.queued]
  held := accounted.held
  emitted := accounted.emitted
  exited worker exited := by
    have closed := (accounted.exited worker exited).1
    rw [opened] at closed
    exact nomatch closed
  closed := accounted.closed

/-- A worker that moves without exiting makes nobody exit. -/
theorem exited_of_update
    {worker other : Fin workers}
    {point : Point α τ}
    (moved : point ≠ .exited)
    (exited : Function.update farm.point worker point other = .exited) :
    farm.point other = .exited := by
  by_cases same : other = worker
  · subst same
    rw [Function.update_self] at exited
    exact absurd exited moved
  · rwa [Function.update_of_ne same] at exited

theorem takeJob
    {worker : Fin workers}
    (accounted : farm.Accounted)
    (taken : farm.takeJob worker = some next) :
    next.Accounted := by
  obtain ⟨job, input, waiting, popped, rfl⟩ := takeJob_eq_some.mp taken
  obtain ⟨queue, shape⟩ := Channel.pop_eq_some.mp popped
  have kept : ∀ other, farm.point other ≠ .exited := by
    intro other exited
    rw [(accounted.exited other exited).2] at queue
    exact nomatch queue
  have inHand : ∑ other, (Function.update farm.point worker (.taken job) other).job =
      farm.inHand + {job} :=
    sum_update_receive (by simp [waiting, Point.job])
  have unsent : ∑ other, (Function.update farm.point worker (.taken job) other).done =
      farm.unsent + 0 :=
    sum_update_receive (by simp [waiting, Point.done])
  exact {
    numbered := accounted.numbered
    queued := by
      rw [accounted.queued, queue, List.append_assoc]
      rfl
    held := by
      simp only [Farm.inHand, inHand, ← Multiset.coe_add, accounted.held,
        Multiset.coe_singleton]
      abel
    emitted := by
      simp only [Farm.unsent, unsent, accounted.emitted, add_zero]
    exited := fun other exited =>
      absurd (exited_of_update (by simp) exited) (kept other)
    closed := fun closed => absurd (accounted.closed closed worker) (kept worker) }

theorem stamp
    {worker : Fin workers}
    {stamp : τ}
    (accounted : farm.Accounted)
    (stepped : farm.step (.stamp worker stamp) = some next) :
    next.Accounted := by
  obtain ⟨job, taken, rfl⟩ := step_stamp.mp stepped
  have inHand : farm.inHand = ∑ other,
      (Function.update farm.point worker (.stamped ⟨job, stamp⟩) other).job + {job} :=
    sum_update_add (by simp [taken, Point.job])
  have unsent : ∑ other,
      (Function.update farm.point worker (.stamped ⟨job, stamp⟩) other).done =
        farm.unsent + {⟨job, stamp⟩} :=
    sum_update_receive (by simp [taken, Point.done])
  exact {
    numbered := accounted.numbered
    queued := accounted.queued
    held := by
      rw [List.map_append, ← Multiset.coe_add, accounted.held, inHand]
      simp only [Farm.inHand, List.map_singleton, Multiset.coe_singleton]
      abel
    emitted := by
      simp only [Farm.unsent, unsent, ← Multiset.coe_add, accounted.emitted,
        Multiset.coe_singleton]
      abel
    exited := fun other exited =>
      accounted.exited other (exited_of_update (by simp) exited)
    closed := by
      intro closed
      have exited := accounted.closed closed worker
      rw [taken] at exited
      exact nomatch exited }

theorem emitJob
    {worker : Fin workers}
    (accounted : farm.Accounted)
    (emitted : farm.emitJob worker = some next) :
    next.Accounted := by
  obtain ⟨done, stamped, rfl⟩ := emitJob_eq_some.mp emitted
  have inHand : ∑ other, (Function.update farm.point worker .waiting other).job =
      farm.inHand + 0 :=
    sum_update_receive (by simp [stamped, Point.job])
  have unsent : farm.unsent =
      ∑ other, (Function.update farm.point worker .waiting other).done + {done} :=
    sum_update_add (by simp [stamped, Point.done])
  exact {
    numbered := accounted.numbered
    queued := accounted.queued
    held := by
      simp only [Farm.inHand, inHand, accounted.held, add_zero]
    emitted := by
      rw [accounted.emitted, unsent, Channel.push_queue, ← Multiset.coe_add]
      simp only [Farm.unsent, Multiset.coe_singleton]
      abel
    exited := fun other exited =>
      accounted.exited other (exited_of_update (by simp) exited)
    closed := by
      intro closed
      have exited := accounted.closed closed worker
      rw [stamped] at exited
      exact nomatch exited }

theorem deliverJob
    (accounted : farm.Accounted)
    (delivered : farm.deliverJob = some next) :
    next.Accounted := by
  obtain ⟨done, output, popped, rfl⟩ := deliverJob_eq_some.mp delivered
  obtain ⟨queue, shape⟩ := Channel.pop_eq_some.mp popped
  exact {
    numbered := accounted.numbered
    queued := accounted.queued
    held := accounted.held
    emitted := by
      simp only [Farm.unsent, ← Multiset.coe_add, accounted.emitted, queue,
        ← Multiset.cons_coe, ← Multiset.singleton_add, Multiset.coe_nil, add_zero]
      abel
    exited := accounted.exited
    closed := by
      rw [shape]
      exact accounted.closed }

theorem exit
    {worker : Fin workers}
    (accounted : farm.Accounted)
    (stepped : farm.step (.exit worker) = some next) :
    next.Accounted := by
  obtain ⟨waiting, ended, rfl⟩ := step_exit.mp stepped
  have inHand : ∑ other, (Function.update farm.point worker .exited other).job =
      farm.inHand + 0 :=
    sum_update_receive (by simp [waiting, Point.job])
  have unsent : ∑ other, (Function.update farm.point worker .exited other).done =
      farm.unsent + 0 :=
    sum_update_receive (by simp [waiting, Point.done])
  exact {
    numbered := accounted.numbered
    queued := accounted.queued
    held := by
      simp only [Farm.inHand, inHand, accounted.held, add_zero]
    emitted := by
      simp only [Farm.unsent, unsent, accounted.emitted, add_zero]
    exited := fun _ _ => Channel.ended_eq_true.mp ended
    closed := by
      intro closed
      have exited := accounted.closed closed worker
      rw [waiting] at exited
      exact nomatch exited }

/-- No step loses, duplicates or reorders a job. -/
theorem step
    {event : Event workers α τ}
    (accounted : farm.Accounted)
    (stepped : farm.step event = some next) :
    next.Accounted := by
  cases event with
  | submit content =>
      rcases step_submit stepped with ⟨_, rfl⟩ | ⟨opened, _, rfl⟩
      · exact { accounted with }
      · exact accounted.put opened content
  | handOver content worker =>
      obtain ⟨opened, _, taken⟩ := step_handOver stepped
      exact (accounted.put opened content).takeJob taken
  | take worker => exact accounted.takeJob stepped
  | stamp worker stamp => exact accounted.stamp stepped
  | emit worker =>
      rcases step_emit stepped with ⟨_, _, rfl⟩ | ⟨_, _, emitted⟩
      · exact { accounted with }
      · exact accounted.emitJob emitted
  | handOut worker =>
      obtain ⟨_, _, middle, emitted, delivered⟩ := step_handOut stepped
      exact (accounted.emitJob emitted).deliverJob delivered
  | exit worker => exact accounted.exit stepped
  | deliver => exact accounted.deliverJob stepped
  | close =>
      obtain ⟨_, rfl⟩ := step_close stepped
      exact { accounted with
        exited := fun worker exited => ⟨rfl, (accounted.exited worker exited).2⟩ }
  | closeOutput =>
      obtain ⟨_, exited, rfl⟩ := step_closeOutput stepped
      exact { accounted with closed := fun _ => exited }

end Accounted

/-- Every state of every run is accounted for. -/
theorem accounted_of_run
    {farm : Farm workers α τ}
    {events : List (Event workers α τ)}
    {inputCapacity outputCapacity : Nat}
    (reached : Transition.run step (start workers α τ inputCapacity outputCapacity)
      events = some farm) :
    farm.Accounted :=
  Transition.run_history (fun _ farm => farm.Accounted)
    (.start inputCapacity outputCapacity)
    (fun _ _ _ _ _ accounted stepped => accounted.step stepped) reached

/-! ## What follows -/

namespace Accounted

variable {farm next : Farm workers α τ}

/-- No worker ever sends on a closed output. -/
theorem output_open
    {worker : Fin workers}
    {done : Stamped α τ}
    (accounted : farm.Accounted)
    (stamped : farm.point worker = .stamped done) :
    farm.output.closed = false := by
  by_contra closed
  have exited := accounted.closed (Bool.not_eq_false _ ▸ closed) worker
  rw [stamped] at exited
  exact nomatch exited

/-- Behind a closed output nothing is left in the input or with a worker. -/
theorem idle_of_closed
    (accounted : farm.Accounted)
    (positive : 0 < workers)
    (closed : farm.output.closed = true) :
    farm.input.queue = [] ∧ farm.inHand = 0 ∧ farm.unsent = 0 := by
  have exited := accounted.closed closed
  refine ⟨(accounted.exited ⟨0, positive⟩ (exited _)).2, ?_, ?_⟩
  · exact Finset.sum_eq_zero fun worker _ => by rw [exited worker]; rfl
  · exact Finset.sum_eq_zero fun worker _ => by rw [exited worker]; rfl

/-- Once the output is closed, every submitted job was stamped exactly once. -/
theorem stamped_perm_submitted
    (accounted : farm.Accounted)
    (positive : 0 < workers)
    (closed : farm.output.closed = true) :
    (farm.stamped.map Stamped.job).Perm farm.submitted := by
  obtain ⟨empty, idle, _⟩ := accounted.idle_of_closed positive closed
  have held := accounted.held
  rw [idle, zero_add] at held
  rw [accounted.queued, empty, List.append_nil]
  exact (Multiset.coe_eq_coe.mp held).symm

/-- Once the output is closed and drained, every stamped job was delivered
exactly once. -/
theorem delivered_perm_stamped
    (accounted : farm.Accounted)
    (positive : 0 < workers)
    (closed : farm.output.closed = true)
    (drained : farm.output.queue = []) :
    farm.delivered.Perm farm.stamped := by
  obtain ⟨_, _, idle⟩ := accounted.idle_of_closed positive closed
  have emitted := accounted.emitted
  rw [idle, drained, Multiset.coe_nil, zero_add, zero_add] at emitted
  exact (Multiset.coe_eq_coe.mp emitted).symm

/-- Submissions are told apart by their numbers. -/
theorem nodup_submitted (accounted : farm.Accounted) : farm.submitted.Nodup := by
  have numbers := List.nodup_range (n := farm.submitted.length)
  rw [← accounted.numbered] at numbers
  exact numbers.of_map

theorem delivered_subset (accounted : farm.Accounted) :
    farm.delivered ⊆ farm.stamped := by
  intro done member
  rw [← Multiset.mem_coe, accounted.emitted]
  exact Multiset.mem_add.mpr (Or.inr (Multiset.mem_coe.mpr member))

/-- A job with a worker or stamped has left the input. -/
theorem mem_taken
    {job : Job α}
    (accounted : farm.Accounted) :
    job ∈ farm.taken ↔ job ∈ farm.inHand ∨ ∃ done ∈ farm.stamped, done.job = job := by
  rw [← Multiset.mem_coe, accounted.held, Multiset.mem_add, Multiset.mem_coe,
    List.mem_map]

end Accounted

theorem mem_inHand {farm : Farm workers α τ} {job : Job α} :
    job ∈ farm.inHand ↔ ∃ worker, farm.point worker = .taken job := by
  rw [inHand, Multiset.mem_sum]
  apply exists_congr
  intro worker
  cases farm.point worker <;> simp [Point.job, eq_comm]

/-! ## Order -/

/-- Jobs are stamped in the order of a relation that the submissions are in:
nothing in a worker's hands should have been stamped before what was. -/
structure InTurn (before : Job α → Job α → Prop) (farm : Farm workers α τ) : Prop where
  hands : ∀ done ∈ farm.stamped, ∀ worker job, farm.point worker = .taken job →
    before done.job job
  stamped : farm.stamped.Pairwise fun first second => before first.job second.job

/-- A stamp that is not taken ahead of a job in another worker's hands. -/
def Waits (before : Job α → Job α → Prop) (farm : Farm workers α τ) :
    Event workers α τ → Prop
  | .stamp worker _ => ∀ job ∈ (farm.point worker).job, ∀ held ∈ farm.inHand, before job held
  | _ => True

instance
    (before : Job α → Job α → Prop)
    [DecidableRel before]
    (farm : Farm workers α τ)
    (event : Event workers α τ) :
    Decidable (farm.Waits before event) :=
  match event with
  | .stamp worker _ => inferInstanceAs (Decidable
      (∀ job ∈ (farm.point worker).job, ∀ held ∈ farm.inHand, before job held))
  | .submit _ | .handOver _ _ | .take _ | .emit _ | .handOut _ | .exit _ | .deliver
  | .close | .closeOutput => inferInstanceAs (Decidable True)

namespace InTurn

variable {before : Job α → Job α → Prop} {farm next : Farm workers α τ}

theorem start (inputCapacity outputCapacity : Nat) :
    InTurn before (Farm.start workers α τ inputCapacity outputCapacity) where
  hands _ member := nomatch member
  stamped := List.Pairwise.nil

/-- A worker's move to another point keeps the turn. -/
theorem move
    {worker : Fin workers}
    {point : Point α τ}
    (inTurn : InTurn before farm)
    (points : next.point = Function.update farm.point worker point)
    (stamped : next.stamped = farm.stamped)
    (taken : ∀ done ∈ farm.stamped, ∀ job, point = .taken job → before done.job job) :
    InTurn before next where
  hands done member other job held := by
    rw [stamped] at member
    rw [points] at held
    by_cases same : other = worker
    · subst same
      rw [Function.update_self] at held
      exact taken done member job held
    · rw [Function.update_of_ne same] at held
      exact inTurn.hands done member other job held
  stamped := by
    rw [stamped]
    exact inTurn.stamped

/-- The oldest job comes after everything stamped. -/
theorem takeJob
    {worker : Fin workers}
    (inTurn : InTurn before farm)
    (accounted : farm.Accounted)
    (sorted : farm.submitted.Pairwise before)
    (moved : farm.takeJob worker = some next) :
    InTurn before next := by
  obtain ⟨job, input, _, popped, rfl⟩ := takeJob_eq_some.mp moved
  obtain ⟨queue, _⟩ := Channel.pop_eq_some.mp popped
  refine inTurn.move rfl rfl ?_
  rintro done member other same
  obtain rfl := Point.taken.inj same
  rw [accounted.queued, queue, List.pairwise_append] at sorted
  apply sorted.2.2 done.job (accounted.mem_taken.mpr (Or.inr ⟨done, member, rfl⟩))
  exact List.mem_cons_self

theorem stamp
    {worker : Fin workers}
    {stamp : τ}
    (inTurn : InTurn before farm)
    (waits : farm.Waits before (.stamp worker stamp))
    (moved : farm.step (.stamp worker stamp) = some next) :
    InTurn before next := by
  obtain ⟨job, taken, rfl⟩ := step_stamp.mp moved
  constructor
  · intro done member other held holds
    have apart : other ≠ worker := by
      rintro rfl
      simp at holds
    replace holds : farm.point other = .taken held := by
      simpa [Function.update_of_ne apart] using holds
    rcases List.mem_append.mp member with earlier | latest
    · exact inTurn.hands done earlier other held holds
    · obtain rfl := List.mem_singleton.mp latest
      exact waits job (by simp [taken, Point.job]) held (mem_inHand.mpr ⟨other, holds⟩)
  · refine List.pairwise_append.mpr ⟨inTurn.stamped, List.pairwise_singleton _ _, ?_⟩
    intro done member last isLast
    obtain rfl := List.mem_singleton.mp isLast
    exact inTurn.hands done member worker job taken

/-- Jobs are stamped in turn as long as every stamp waits for its turn. -/
theorem step
    {event : Event workers α τ}
    (inTurn : InTurn before farm)
    (accounted : farm.Accounted)
    (sorted : next.submitted.Pairwise before)
    (waits : farm.Waits before event)
    (stepped : farm.step event = some next) :
    InTurn before next := by
  cases event with
  | submit content =>
      rcases step_submit stepped with ⟨_, rfl⟩ | ⟨_, _, rfl⟩
      · exact { inTurn with }
      · exact { inTurn with }
  | handOver content worker =>
      obtain ⟨opened, _, taken⟩ := step_handOver stepped
      obtain ⟨_, _, _, _, rfl⟩ := takeJob_eq_some.mp taken
      have put : InTurn before (farm.put content) := { inTurn with }
      exact put.takeJob (accounted.put opened content) sorted taken
  | take worker =>
      obtain ⟨_, _, _, _, rfl⟩ := takeJob_eq_some.mp stepped
      exact inTurn.takeJob accounted sorted stepped
  | stamp worker stamp => exact inTurn.stamp waits stepped
  | emit worker =>
      rcases step_emit stepped with ⟨_, _, rfl⟩ | ⟨_, _, emitted⟩
      · exact { inTurn with }
      · obtain ⟨_, _, rfl⟩ := emitJob_eq_some.mp emitted
        exact inTurn.move rfl rfl nofun
  | handOut worker =>
      obtain ⟨_, _, middle, emitted, delivered⟩ := step_handOut stepped
      obtain ⟨_, _, rfl⟩ := emitJob_eq_some.mp emitted
      obtain ⟨_, _, _, rfl⟩ := deliverJob_eq_some.mp delivered
      exact inTurn.move rfl rfl nofun
  | exit worker =>
      obtain ⟨_, _, rfl⟩ := step_exit.mp stepped
      exact inTurn.move rfl rfl nofun
  | deliver =>
      obtain ⟨_, _, _, rfl⟩ := deliverJob_eq_some.mp stepped
      exact { inTurn with }
  | close =>
      obtain ⟨_, rfl⟩ := step_close stepped
      exact { inTurn with }
  | closeOutput =>
      obtain ⟨_, _, rfl⟩ := step_closeOutput stepped
      exact { inTurn with }

end InTurn

end Farm
end Channels
