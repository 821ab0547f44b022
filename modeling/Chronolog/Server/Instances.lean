import Chronolog.Foundation.Transition
import Mathlib.Logic.Function.Basic

/-!
# Engines on one machine

Any number of engine processes that start, stop and crash in any order, and what
they share: the lock of a database directory, the path of the Unix socket, and
the UDP port.  `main` opens the database before it touches the socket and closes
it last of all, so engines on one directory leave each other's socket alone,
while an engine on another directory takes the socket of a running one away.

The lock is taken by `OpenDB`, whose second holder gets an error, and it is
released by `Close` and by the end of the process.  A socket path is bound by one
listener at a time and stays behind when its process crashes; closing a listener
unlinks the path it was bound to.
-/

namespace Chronolog
namespace Server

/-- How far `main` has come. -/
inductive Stage
  | ready
  /-- the database is open -/
  | opened
  /-- a socket file of an earlier run has been removed -/
  | unlinked
  /-- the listener is bound -/
  | listening
  /-- the permissions could not be set -/
  | failing
  /-- the gRPC server is up -/
  | serving
  /-- the UDP port is bound -/
  | running
  /-- the deferred calls have come to `grpcServer.Stop` -/
  | leaving
  /-- the listener is closed -/
  | stopped
  /-- the path is removed once more -/
  | removed
  | ended
  deriving DecidableEq

namespace Stage

/-- Whether the database is open. -/
def holdsDB : Stage → Bool
  | .ready | .ended => false
  | _ => true

/-- Whether the listener is open. -/
def listens : Stage → Bool
  | .listening | .failing | .serving | .running | .leaving => true
  | _ => false

/-- The stages in the order in which a process goes through them. -/
def rank : Stage → Nat
  | .ready => 0
  | .opened => 1
  | .unlinked => 2
  | .listening => 3
  | .failing => 4
  | .serving => 5
  | .running => 6
  | .leaving => 7
  | .stopped => 8
  | .removed => 9
  | .ended => 10

theorem listens_iff {stage : Stage} :
    stage.listens = true ↔ 3 ≤ stage.rank ∧ stage.rank ≤ 7 := by
  cases stage <;> decide

end Stage

/-- The processes by their numbers, and what they share.  The socket file leads
to the process that bound it, which may be gone. -/
structure Machine (Dir : Type) where
  stage : Nat → Stage
  lock : Dir → Option Nat
  socketFile : Option Nat
  udpPort : Option Nat

/-- What a process does next, or that it is killed. -/
inductive MachineEvent
  | openDB (process : Nat)
  | unlink (process : Nat)
  | listen (process : Nat)
  | chmod (process : Nat)
  | giveUp (process : Nat)
  | bind (process : Nat)
  | signal (process : Nat)
  | stop (process : Nat)
  | remove (process : Nat)
  | closeDB (process : Nat)
  | crash (process : Nat)
  deriving DecidableEq

namespace Machine

variable {Dir : Type} [DecidableEq Dir]

/-- The machine before any of the processes; a socket file may be left over. -/
def start (left : Option Nat) : Machine Dir where
  stage _ := .ready
  lock _ := none
  socketFile := left
  udpPort := none

/-- A process goes on. -/
def goOn (machine : Machine Dir) (process : Nat) (stage : Stage) : Machine Dir :=
  { machine with stage := Function.update machine.stage process stage }

variable (dir : Nat → Dir)

/-- A process ends without its deferred calls. -/
def exit (machine : Machine Dir) (process : Nat) : Machine Dir where
  stage := Function.update machine.stage process .ended
  lock := if machine.lock (dir process) = some process then
      Function.update machine.lock (dir process) none
    else machine.lock
  socketFile := machine.socketFile
  udpPort := if machine.udpPort = some process then none else machine.udpPort

/-- One step of one process. -/
def step (machine : Machine Dir) : MachineEvent → Option (Machine Dir)
  | .openDB process =>
      if machine.stage process = .ready then
        if (machine.lock (dir process)).isNone then
          some ({ machine with
            lock := Function.update machine.lock (dir process) (some process) }.goOn
              process .opened)
        else some (machine.exit dir process)
      else none
  | .unlink process =>
      if machine.stage process = .opened then
        some ({ machine with socketFile := none }.goOn process .unlinked)
      else none
  | .listen process =>
      if machine.stage process = .unlinked then
        if machine.socketFile.isNone then
          some ({ machine with socketFile := some process }.goOn process .listening)
        else some (machine.exit dir process)
      else none
  | .chmod process =>
      if machine.stage process = .listening then
        some (machine.goOn process
          (if machine.socketFile.isSome then .serving else .failing))
      else none
  | .giveUp process =>
      if machine.stage process = .failing then
        some ({ machine with socketFile := none }.exit dir process)
      else none
  | .bind process =>
      if machine.stage process = .serving then
        if machine.udpPort.isNone then
          some ({ machine with udpPort := some process }.goOn process .running)
        else some (machine.exit dir process)
      else none
  | .signal process =>
      if machine.stage process = .running then
        some ({ machine with udpPort := none }.goOn process .leaving)
      else none
  | .stop process =>
      if machine.stage process = .leaving then
        some ({ machine with socketFile := none }.goOn process .stopped)
      else none
  | .remove process =>
      if machine.stage process = .stopped then
        some ({ machine with socketFile := none }.goOn process .removed)
      else none
  | .closeDB process =>
      if machine.stage process = .removed then
        some ({ machine with
          lock := Function.update machine.lock (dir process) none }.goOn process .ended)
      else none
  | .crash process =>
      if machine.stage process = .ready ∨ machine.stage process = .ended then none
      else some (machine.exit dir process)

end Machine

/-- The process of an event. -/
def MachineEvent.process : MachineEvent → Nat
  | .openDB process | .unlink process | .listen process | .chmod process
  | .giveUp process | .bind process | .signal process | .stop process
  | .remove process | .closeDB process | .crash process => process

/-- Whether an event removes the socket file, whoever bound it. -/
def MachineEvent.unlinks : MachineEvent → Bool
  | .unlink _ | .giveUp _ | .stop _ | .remove _ => true
  | _ => false

namespace Machine

variable {Dir : Type} [DecidableEq Dir] {dir : Nat → Dir} {machine next : Machine Dir}

/-! ## What a step changes -/

@[simp] theorem exit_stage (machine : Machine Dir) (process : Nat) :
    (machine.exit dir process).stage = Function.update machine.stage process .ended := rfl

/-- A step moves its process on, and no other. -/
theorem stage_step
    {event : MachineEvent}
    (stepped : machine.step dir event = some next) :
    ∃ stage, next.stage = Function.update machine.stage event.process stage ∧
      (machine.stage event.process).rank < stage.rank := by
  cases event with
  | openDB process | listen process | bind process =>
      obtain ⟨before, rest⟩ := Option.ite_none_right_eq_some.mp stepped
      dsimp only [MachineEvent.process]
      rw [before]
      split at rest
      · obtain rfl := Option.some.inj rest
        exact ⟨_, rfl, by decide⟩
      · obtain rfl := Option.some.inj rest
        exact ⟨_, rfl, by decide⟩
  | chmod process =>
      obtain ⟨before, rest⟩ := Option.ite_none_right_eq_some.mp stepped
      obtain rfl := Option.some.inj rest
      dsimp only [MachineEvent.process]
      refine ⟨_, rfl, ?_⟩
      rw [before]
      split <;> decide
  | unlink process | giveUp process | signal process | stop process | remove process
  | closeDB process =>
      obtain ⟨before, rest⟩ := Option.ite_none_right_eq_some.mp stepped
      obtain rfl := Option.some.inj rest
      dsimp only [MachineEvent.process]
      rw [before]
      exact ⟨_, rfl, by decide⟩
  | crash process =>
      obtain ⟨alive, rest⟩ := Option.ite_none_left_eq_some.mp stepped
      obtain rfl := Option.some.inj rest
      refine ⟨_, rfl, ?_⟩
      dsimp only [MachineEvent.process]
      cases stage : machine.stage process with
      | ended => exact absurd (Or.inr stage) alive
      | _ => decide

/-- What becomes of the socket file. -/
theorem socketFile_step
    {event : MachineEvent}
    (stepped : machine.step dir event = some next) :
    next.socketFile =
      if event.unlinks then none
      else
        match event with
        | .listen process => machine.socketFile.or (some process)
        | _ => machine.socketFile := by
  cases event with
  | listen process =>
      obtain ⟨_, rest⟩ := Option.ite_none_right_eq_some.mp stepped
      split at rest
      next absent =>
        obtain rfl := Option.some.inj rest
        rw [Option.isNone_iff_eq_none.mp absent]
        rfl
      next present =>
        obtain rfl := Option.some.inj rest
        obtain ⟨other, same⟩ := Option.ne_none_iff_exists'.mp
          (mt Option.isNone_iff_eq_none.mpr present)
        rw [exit, same]
        rfl
  | openDB process | bind process =>
      obtain ⟨_, rest⟩ := Option.ite_none_right_eq_some.mp stepped
      split at rest
      · obtain rfl := Option.some.inj rest
        rfl
      · obtain rfl := Option.some.inj rest
        rfl
  | unlink process | giveUp process | signal process | stop process | remove process
  | closeDB process | chmod process =>
      obtain ⟨_, rest⟩ := Option.ite_none_right_eq_some.mp stepped
      obtain rfl := Option.some.inj rest
      rfl
  | crash process =>
      obtain ⟨_, rest⟩ := Option.ite_none_left_eq_some.mp stepped
      obtain rfl := Option.some.inj rest
      rfl

/-! ## The lock -/

/-- What a step of a process does to the locks: they are left alone, a free one is
taken, or the process gives back the one it holds. -/
inductive LockChange (dir : Nat → Dir) (machine next : Machine Dir) (process : Nat) : Prop
  | kept :
      next.lock = machine.lock →
      ((next.stage process).holdsDB = true → (machine.stage process).holdsDB = true) →
      LockChange dir machine next process
  | taken :
      machine.lock (dir process) = none →
      next.lock = Function.update machine.lock (dir process) (some process) →
      LockChange dir machine next process
  | given :
      (machine.stage process).holdsDB = true ∨ machine.lock (dir process) = some process →
      next.lock = Function.update machine.lock (dir process) none →
      (next.stage process).holdsDB = false →
      LockChange dir machine next process

theorem lockChange_exit (machine : Machine Dir) (process : Nat) (socketFile : Option Nat) :
    LockChange dir machine ({ machine with socketFile }.exit dir process) process := by
  have ended : (({ machine with socketFile }.exit dir process).stage process).holdsDB =
      false := by
    rw [exit_stage, Function.update_self]
    rfl
  by_cases held : machine.lock (dir process) = some process
  · apply LockChange.given (Or.inr held) _ ended
    rw [exit, if_pos held]
  · apply LockChange.kept
    · rw [exit, if_neg held]
    · intro holds
      exact absurd (ended.symm.trans holds) Bool.false_ne_true

theorem lockChange_step
    {event : MachineEvent}
    (stepped : machine.step dir event = some next) :
    LockChange dir machine next event.process := by
  cases event with
  | openDB process =>
      obtain ⟨_, rest⟩ := Option.ite_none_right_eq_some.mp stepped
      split at rest
      next free =>
        obtain rfl := Option.some.inj rest
        exact .taken (Option.isNone_iff_eq_none.mp free) rfl
      next =>
        obtain rfl := Option.some.inj rest
        exact lockChange_exit machine process machine.socketFile
  | listen process | bind process =>
      obtain ⟨before, rest⟩ := Option.ite_none_right_eq_some.mp stepped
      split at rest
      · obtain rfl := Option.some.inj rest
        exact .kept rfl fun _ => congrArg Stage.holdsDB before
      · obtain rfl := Option.some.inj rest
        exact lockChange_exit machine process machine.socketFile
  | unlink process | chmod process | signal process | stop process | remove process =>
      obtain ⟨before, rest⟩ := Option.ite_none_right_eq_some.mp stepped
      obtain rfl := Option.some.inj rest
      exact .kept rfl fun _ => congrArg Stage.holdsDB before
  | giveUp process =>
      obtain ⟨_, rest⟩ := Option.ite_none_right_eq_some.mp stepped
      obtain rfl := Option.some.inj rest
      exact lockChange_exit machine process none
  | closeDB process =>
      obtain ⟨before, rest⟩ := Option.ite_none_right_eq_some.mp stepped
      obtain rfl := Option.some.inj rest
      apply LockChange.given (Or.inl (congrArg Stage.holdsDB before)) rfl
      change (Function.update machine.stage process Stage.ended process).holdsDB = false
      rw [Function.update_self]
      rfl
  | crash process =>
      obtain ⟨_, rest⟩ := Option.ite_none_left_eq_some.mp stepped
      obtain rfl := Option.some.inj rest
      exact lockChange_exit machine process machine.socketFile

/-- Whoever has the database of a directory open holds its lock. -/
def Locked (dir : Nat → Dir) (machine : Machine Dir) : Prop :=
  ∀ process, (machine.stage process).holdsDB = true →
    machine.lock (dir process) = some process

theorem stage_of_ne
    {event : MachineEvent}
    {process : Nat}
    (stepped : machine.step dir event = some next)
    (other : process ≠ event.process) : next.stage process = machine.stage process := by
  obtain ⟨stage, changed, _⟩ := stage_step stepped
  rw [changed, Function.update_of_ne other]

theorem Locked.step
    {event : MachineEvent}
    (locked : Locked dir machine)
    (stepped : machine.step dir event = some next) : Locked dir next := by
  intro process holds
  by_cases own : process = event.process
  · subst own
    cases lockChange_step stepped with
    | kept same kept =>
        rw [same]
        exact locked event.process (kept holds)
    | taken _ taken => rw [taken, Function.update_self]
    | given _ _ given => exact absurd (given.symm.trans holds) Bool.false_ne_true
  · rw [stage_of_ne stepped own] at holds
    have held := locked process holds
    cases lockChange_step stepped with
    | kept same => rw [same, held]
    | taken free taken =>
        rw [taken, Function.update_of_ne, held]
        intro sameDir
        rw [sameDir, free] at held
        exact absurd held.symm (Option.some_ne_none process)
    | given holder freed =>
        rw [freed, Function.update_of_ne, held]
        intro sameDir
        have holding : machine.lock (dir event.process) = some event.process :=
          holder.elim (locked event.process) id
        rw [sameDir, holding] at held
        exact own (Option.some.inj held).symm

/-- A process that does not have the database open, beside one of its directory
that has, can only fail to open it. -/
theorem Locked.step_of_held
    {event : MachineEvent}
    {holder : Nat}
    (locked : Locked dir machine)
    (holds : (machine.stage holder).holdsDB = true)
    (other : holder ≠ event.process)
    (sameDir : dir holder = dir event.process)
    (stepped : machine.step dir event = some next) :
    next.socketFile = machine.socketFile ∧ (next.stage event.process).holdsDB = false := by
  have held := locked holder holds
  rw [sameDir] at held
  have closed : (machine.stage event.process).holdsDB = false := by
    rw [Bool.eq_false_iff]
    intro opened
    rw [locked event.process opened] at held
    exact other (Option.some.inj held).symm
  cases event with
  | openDB process =>
      obtain ⟨_, rest⟩ := Option.ite_none_right_eq_some.mp stepped
      dsimp only [MachineEvent.process] at held
      rw [held] at rest
      obtain rfl := Option.some.inj rest
      refine ⟨rfl, ?_⟩
      rw [exit_stage]
      dsimp only [MachineEvent.process]
      rw [Function.update_self]
      rfl
  | unlink process | listen process | chmod process | giveUp process | bind process
  | signal process | stop process | remove process | closeDB process =>
      obtain ⟨before, _⟩ := Option.ite_none_right_eq_some.mp stepped
      dsimp only [MachineEvent.process] at closed
      rw [before] at closed
      exact absurd closed.symm Bool.false_ne_true
  | crash process =>
      obtain ⟨alive, _⟩ := Option.ite_none_left_eq_some.mp stepped
      dsimp only [MachineEvent.process] at closed
      cases stage : machine.stage process with
      | ready => exact absurd (Or.inl stage) alive
      | ended => exact absurd (Or.inr stage) alive
      | _ =>
          rw [stage] at closed
          exact absurd closed.symm Bool.false_ne_true

/-! ## Engines on one directory -/

/-- A start that has removed the old socket file finds the path free, an open
listener is at its path, and no start fails at the permissions. -/
structure Reachable (dir : Nat → Dir) (machine : Machine Dir) : Prop where
  locked : Locked dir machine
  free : ∀ process, machine.stage process = .unlinked → machine.socketFile = none
  bound : ∀ process, (machine.stage process).listens = true →
    machine.socketFile = some process
  permitted : ∀ process, machine.stage process ≠ .failing

theorem holdsDB_of_listens {stage : Stage} (listens : stage.listens = true) :
    stage.holdsDB = true := by
  cases stage with
  | ready | ended => exact absurd listens Bool.false_ne_true
  | _ => rfl

/-- A process's own step. -/
theorem Reachable.own_step
    {event : MachineEvent}
    (reachable : Reachable dir machine)
    (stepped : machine.step dir event = some next) :
    (next.stage event.process = .unlinked → next.socketFile = none) ∧
      ((next.stage event.process).listens = true →
        next.socketFile = some event.process) ∧
      next.stage event.process ≠ .failing := by
  have exits : ∀ (state : Machine Dir) (process : Nat),
      ((state.exit dir process).stage process = .unlinked →
          (state.exit dir process).socketFile = none) ∧
        (((state.exit dir process).stage process).listens = true →
          (state.exit dir process).socketFile = some process) ∧
        (state.exit dir process).stage process ≠ .failing := by
    intro state process
    rw [exit_stage, Function.update_self]
    exact ⟨by simp, by simp [Stage.listens], by simp⟩
  cases event with
  | openDB process =>
      obtain ⟨_, rest⟩ := Option.ite_none_right_eq_some.mp stepped
      split at rest
      · obtain rfl := Option.some.inj rest
        simp [goOn, MachineEvent.process, Stage.listens]
      · obtain rfl := Option.some.inj rest
        exact exits machine process
  | listen process =>
      obtain ⟨_, rest⟩ := Option.ite_none_right_eq_some.mp stepped
      split at rest
      · obtain rfl := Option.some.inj rest
        simp [goOn, MachineEvent.process]
      · obtain rfl := Option.some.inj rest
        exact exits machine process
  | chmod process =>
      obtain ⟨before, rest⟩ := Option.ite_none_right_eq_some.mp stepped
      obtain rfl := Option.some.inj rest
      have bound := reachable.bound process (congrArg Stage.listens before)
      simp [goOn, MachineEvent.process, bound]
  | bind process =>
      obtain ⟨before, rest⟩ := Option.ite_none_right_eq_some.mp stepped
      have bound := reachable.bound process (congrArg Stage.listens before)
      split at rest
      · obtain rfl := Option.some.inj rest
        simp [goOn, MachineEvent.process, bound]
      · obtain rfl := Option.some.inj rest
        exact exits machine process
  | signal process =>
      obtain ⟨before, rest⟩ := Option.ite_none_right_eq_some.mp stepped
      obtain rfl := Option.some.inj rest
      have bound := reachable.bound process (congrArg Stage.listens before)
      simp [goOn, MachineEvent.process, bound]
  | unlink process | stop process | remove process | closeDB process =>
      obtain ⟨_, rest⟩ := Option.ite_none_right_eq_some.mp stepped
      obtain rfl := Option.some.inj rest
      simp [goOn, MachineEvent.process, Stage.listens]
  | giveUp process =>
      obtain ⟨before, _⟩ := Option.ite_none_right_eq_some.mp stepped
      exact absurd before (reachable.permitted process)
  | crash process =>
      obtain ⟨_, rest⟩ := Option.ite_none_left_eq_some.mp stepped
      obtain rfl := Option.some.inj rest
      exact exits machine process

theorem Reachable.step
    {event : MachineEvent}
    (reachable : Reachable dir machine)
    (sameDir : ∀ first second, dir first = dir second)
    (stepped : machine.step dir event = some next) : Reachable dir next := by
  obtain ⟨free, bound, permitted⟩ := reachable.own_step stepped
  have untouched : ∀ process, process ≠ event.process →
      (machine.stage process).holdsDB = true → next.socketFile = machine.socketFile :=
    fun process other holds =>
      (reachable.locked.step_of_held holds other (sameDir _ _) stepped).1
  refine ⟨reachable.locked.step stepped, fun process => ?_, fun process => ?_,
    fun process => ?_⟩
  · by_cases own : process = event.process
    · exact own ▸ free
    · rw [stage_of_ne stepped own]
      intro unlinked
      rw [untouched process own (congrArg Stage.holdsDB unlinked)]
      exact reachable.free process unlinked
  · by_cases own : process = event.process
    · exact own ▸ bound
    · rw [stage_of_ne stepped own]
      intro listens
      rw [untouched process own (holdsDB_of_listens listens)]
      exact reachable.bound process listens
  · by_cases own : process = event.process
    · exact own ▸ permitted
    · rw [stage_of_ne stepped own]
      exact reachable.permitted process

/-- However many engines are started, stopped and killed on one directory, and
whatever socket file was left over: the socket leads to every engine whose
listener is open, of which there is at most one, and a start that has opened the
database gets to bind the socket and to set its permissions. -/
theorem listener_reached
    (dir : Nat → Dir)
    (sameDir : ∀ first second, dir first = dir second)
    (left : Option Nat)
    (events : List MachineEvent)
    (machine : Machine Dir)
    (reached : Transition.run (step dir) (start left) events = some machine)
    (process : Nat) :
    ((machine.stage process).listens = true →
        machine.socketFile = some process ∧
          ∀ other, (machine.stage other).holdsDB = true → other = process) ∧
      (machine.stage process = .unlinked →
        ∃ next, machine.step dir (.listen process) = some next ∧
          next.stage process = .listening ∧ next.socketFile = some process) ∧
      machine.stage process ≠ .failing := by
  have reachable : Reachable dir machine := by
    refine Transition.run_history (fun _ state => Reachable dir state) ?_ ?_ reached
    · exact {
        locked := fun _ holds => absurd holds Bool.false_ne_true
        free := fun _ unlinked => absurd unlinked (by simp [start])
        bound := fun _ listens => absurd listens Bool.false_ne_true
        permitted := fun _ => by simp [start] }
    · exact fun _ _ _ _ _ reachable stepped => reachable.step sameDir stepped
  refine ⟨fun listens => ⟨reachable.bound process listens, fun other holds => ?_⟩,
    fun unlinked => ?_, reachable.permitted process⟩
  · have first := reachable.locked other holds
    rw [sameDir other process,
      reachable.locked process (holdsDB_of_listens listens)] at first
    exact (Option.some.inj first).symm
  · refine ⟨{ machine with socketFile := some process }.goOn process .listening, ?_, ?_, rfl⟩
    · rw [step, if_pos unlinked, reachable.free process unlinked]
      rfl
    · exact Function.update_self process Stage.listening machine.stage

/-- An engine comes up. -/
def startUp (process : Nat) : List MachineEvent :=
  [.openDB process, .unlink process, .listen process, .chmod process, .bind process]

/-- The second engine finds the socket file of the first, which was killed. -/
theorem listener_reached_killedEngine :
    ∃ machine : Machine Unit, Transition.run (step fun _ => ()) (start none)
        (startUp 0 ++ .crash 0 :: startUp 1) = some machine ∧
      machine.stage 1 = .running ∧ machine.socketFile = some 1 := by
  obtain ⟨machine, reached, running⟩ := (Option.any_eq_true _ _).mp
    (by decide +kernel : (Transition.run (step fun _ => ()) (start none)
      (startUp 0 ++ .crash 0 :: startUp 1)).any (fun machine : Machine Unit =>
        decide (machine.stage 1 = .running)) = true)
  have stage := of_decide_eq_true running
  obtain ⟨bound, _, _⟩ := listener_reached (fun _ => ()) (fun _ _ => rfl) none
    (startUp 0 ++ .crash 0 :: startUp 1) machine reached 1
  exact ⟨machine, reached, stage, (bound (congrArg Stage.listens stage)).1⟩

/-! ## Engines on any directories -/

/-- A process comes by no stage twice. -/
theorem rank_mono
    {event : MachineEvent}
    (stepped : machine.step dir event = some next)
    (process : Nat) : (machine.stage process).rank ≤ (next.stage process).rank := by
  by_cases own : process = event.process
  · subst own
    obtain ⟨stage, changed, later⟩ := stage_step stepped
    rw [changed, Function.update_self]
    exact Nat.le_of_lt later
  · exact Nat.le_of_eq (congrArg Stage.rank (stage_of_ne stepped own).symm)

theorem rank_mono_run
    {events : List MachineEvent}
    (reached : Transition.run (step dir) machine events = some next)
    (process : Nat) : (machine.stage process).rank ≤ (next.stage process).rank :=
  Transition.run_history
    (fun _ state => (machine.stage process).rank ≤ (state.stage process).rank) (Nat.le_refl _)
    (fun _ _ _ _ _ before stepped => Nat.le_trans before (rank_mono stepped process)) reached

/-- As long as its listener is open, the socket leads to a process exactly if it
did before and nobody has unlinked the path. -/
theorem socketFile_run
    {events : List MachineEvent}
    {process : Nat}
    (listening : (machine.stage process).listens = true)
    (reached : Transition.run (step dir) machine events = some next)
    (listens : (next.stage process).listens = true) :
    next.socketFile = some process ↔
      machine.socketFile = some process ∧ ∀ event ∈ events, event.unlinks = false := by
  induction events generalizing machine with
  | nil =>
      obtain rfl := Option.some.inj reached
      simp
  | cons event events inductionHypothesis =>
      obtain ⟨middle, stepped, continued⟩ := Option.bind_eq_some_iff.mp reached
      have still : (middle.stage process).listens = true := by
        rw [Stage.listens_iff] at listening listens ⊢
        exact ⟨Nat.le_trans listening.1 (rank_mono stepped process),
          Nat.le_trans (rank_mono_run continued process) listens.2⟩
      rw [inductionHypothesis still continued, List.forall_mem_cons, ← and_assoc]
      refine and_congr_left fun _ => ?_
      rw [socketFile_step stepped]
      by_cases unlinks : event.unlinks = true
      · simp [unlinks]
      · rw [if_neg unlinks, Bool.eq_false_iff.mpr unlinks, and_iff_left rfl]
        cases event with
        | listen other =>
            have different : other ≠ process := by
              rintro rfl
              obtain ⟨before, _⟩ := Option.ite_none_right_eq_some.mp stepped
              rw [before] at listening
              exact absurd listening Bool.false_ne_true
            cases machine.socketFile with
            | none => simp [different]
            | some bound => rfl
        | _ => rfl

/-- An engine whose listener is open is reached by its socket exactly as long as
no engine of any directory has unlinked the path since it was bound. -/
theorem reached_iff_not_unlinked
    (dir : Nat → Dir)
    (left : Option Nat)
    (before after : List MachineEvent)
    (process : Nat)
    (machine : Machine Dir)
    (reached : Transition.run (step dir) (start left)
      (before ++ .listen process :: after) = some machine)
    (listens : (machine.stage process).listens = true) :
    machine.socketFile = some process ↔ ∀ event ∈ after, event.unlinks = false := by
  obtain ⟨earlier, _, rest⟩ := Transition.run_append_eq_some.mp reached
  obtain ⟨bound, stepped, continued⟩ := Option.bind_eq_some_iff.mp rest
  obtain ⟨unlinked, tried⟩ := Option.ite_none_right_eq_some.mp stepped
  split at tried
  next =>
    obtain rfl := Option.some.inj tried
    have listening : (({ earlier with socketFile := some process }.goOn process
        .listening).stage process).listens = true := by
      change (Function.update earlier.stage process Stage.listening process).listens = true
      rw [Function.update_self]
      rfl
    rw [socketFile_run listening continued listens]
    exact and_iff_right rfl
  next =>
    -- the listener of an engine that could not bind is never open
    obtain rfl := Option.some.inj tried
    have ended := rank_mono_run continued process
    rw [exit_stage, Function.update_self] at ended
    exact absurd (Nat.le_trans ended (Stage.listens_iff.mp listens).2) (by decide)

/-- An engine on another directory takes the socket away and then fails to bind the
UDP port: the first one goes on without a socket. -/
theorem reached_iff_not_unlinked_otherDirectory :
    ∃ machine : Machine Nat, Transition.run (step id) (start none)
        ([.openDB 0, .unlink 0] ++ .listen 0 :: ([.chmod 0, .bind 0] ++ startUp 1)) =
          some machine ∧
      machine.stage 0 = .running ∧ machine.stage 1 = .ended ∧
        machine.socketFile ≠ some 0 := by
  obtain ⟨machine, reached, stages⟩ := (Option.any_eq_true _ _).mp
    (by decide +kernel : (Transition.run (step id) (start none)
      ([.openDB 0, .unlink 0] ++ .listen 0 :: ([.chmod 0, .bind 0] ++ startUp 1))).any
        (fun machine : Machine Nat => decide
          (machine.stage 0 = .running ∧ machine.stage 1 = .ended)) = true)
  obtain ⟨running, ended⟩ := of_decide_eq_true stages
  refine ⟨machine, reached, running, ended, ?_⟩
  rw [Ne, reached_iff_not_unlinked id none [.openDB 0, .unlink 0]
    ([.chmod 0, .bind 0] ++ startUp 1) 0 machine reached (congrArg Stage.listens running)]
  decide

end Machine

end Server
end Chronolog
