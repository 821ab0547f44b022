import Chronolog.Foundation.Feed
import Chronolog.Web.App

/-!
# Frames in batches

The frames of a live tail are buffered as they arrive and put in front of the
displayed list a batch at a time.  A batch keeps its order, oldest first, so the
list is that of single frames only where the batches read the same from both
ends.
-/

namespace Chronolog
namespace Web

variable {Key : Type} (builtins : Builtins)

/-! ## Frames and flushes -/

/-- A log frame: the socket it arrives on, what it says, and the readings of the
clock. -/
structure LiveFrame (Key : Type) where
  socket : Nat
  entry : Entry Key
  clock : Nat → Int

namespace LiveFrame

def event (frame : LiveFrame Key) : AppEvent Key :=
  .message frame.socket (.log frame.entry) frame.clock

/-- The row that is buffered for a frame. -/
def row (frame : LiveFrame Key) : Row Key :=
  liveRow builtins frame.entry frame.clock

def log (frame : LiveFrame Key) : DisplayLog :=
  (frame.row builtins).log

/-- The socket of a frame is open and its handler is in place. -/
def Heard (frame : LiveFrame Key) (app : App Key) : Prop :=
  ∃ socket, app.sockets[frame.socket]? = some socket ∧ socket.readyState = .open ∧
    socket.listening = true

end LiveFrame

namespace App

/-- The flush interval of a run of the live effect is set. -/
def Flushing (app : App Key) (effect : Nat) : Prop :=
  ∃ live, app.effects[effect]? = some live ∧ live.flushing = true

/-- The flush timer cuts the frames into batches. -/
def cut (effect : Nat) (batches : List (List (LiveFrame Key))) : List (AppEvent Key) :=
  batches.flatMap fun batch => batch.map LiveFrame.event ++ [.flush effect]

/-- Frames are buffered in the order of their arrival. -/
theorem run_frames
    (app : App Key)
    {frames : List (LiveFrame Key)}
    (heard : ∀ frame ∈ frames, frame.Heard app) :
    Transition.run (App.step builtins) app (frames.map LiveFrame.event) =
      some { app with bufferRef := app.bufferRef ++ frames.map (LiveFrame.row builtins) } := by
  induction frames generalizing app with
  | nil => rw [List.map_nil, List.map_nil, List.append_nil, Transition.run_nil]
  | cons frame frames inductionHypothesis =>
      obtain ⟨⟨socket, found, isOpen, listening⟩, later⟩ := List.forall_mem_cons.mp heard
      have stepped : app.step builtins frame.event =
          some { app with bufferRef := app.bufferRef ++ [frame.row builtins] } := by
        rw [LiveFrame.event, App.step, found]
        dsimp only
        rw [if_pos isOpen, if_pos listening]
        rfl
      have rest := inductionHypothesis
        { app with bufferRef := app.bufferRef ++ [frame.row builtins] } later
      rw [List.map_cons, Transition.run_cons, stepped, Option.bind_some, rest,
        List.append_assoc, List.map_cons, List.singleton_append]

theorem logs_flush (app : App Key) :
    app.flush.logs = Feed.push liveMaxLines app.logs app.bufferRef ∧
      app.flush.bufferRef = [] ∧ app.flush.sockets = app.sockets ∧
      app.flush.effects = app.effects := by
  rw [flush, Feed.push]
  split
  next empty => exact ⟨rfl, empty, rfl, rfl⟩
  next => exact ⟨rfl, rfl, rfl, rfl⟩

/-- A batch is put in front of the displayed list. -/
theorem run_batch
    {app : App Key}
    {effect : Nat}
    {batch : List (LiveFrame Key)}
    (heard : ∀ frame ∈ batch, frame.Heard app)
    (flushing : app.Flushing effect) :
    ∃ next, Transition.run (App.step builtins) app
        (batch.map LiveFrame.event ++ [.flush effect]) = some next ∧
      next.logs = Feed.push liveMaxLines app.logs
        (app.bufferRef ++ batch.map (LiveFrame.row builtins)) ∧
      next.bufferRef = [] ∧ next.sockets = app.sockets ∧ next.effects = app.effects := by
  obtain ⟨live, found, set⟩ := flushing
  refine ⟨App.flush { app with
    bufferRef := app.bufferRef ++ batch.map (LiveFrame.row builtins) }, ?_, logs_flush _⟩
  rw [Transition.run_append, run_frames builtins app heard, Option.bind_some, Transition.run_cons,
    App.step, found]
  dsimp only
  rw [if_pos set]
  rfl

/-- A run of batches puts one after the other in front. -/
theorem run_cut
    (app : App Key)
    {effect : Nat}
    {batches : List (List (LiveFrame Key))}
    (heard : ∀ frame ∈ batches.flatten, frame.Heard app)
    (flushing : app.Flushing effect) :
    ∃ next, Transition.run (App.step builtins) app (cut effect batches) = some next ∧
      next.logs = (Feed.merged app.bufferRef
        (batches.map (List.map (LiveFrame.row builtins)))).foldl
          (Feed.push liveMaxLines) app.logs := by
  induction batches generalizing app with
  | nil => exact ⟨app, rfl, rfl⟩
  | cons batch batches inductionHypothesis =>
      rw [List.flatten_cons, List.forall_mem_append] at heard
      obtain ⟨middle, reached, logs, bufferRef, sockets, effects⟩ :=
        run_batch builtins heard.1 flushing
      have heardLater : ∀ frame ∈ batches.flatten, frame.Heard middle := by
        intro frame member
        rw [LiveFrame.Heard, sockets]
        exact heard.2 frame member
      have stillFlushing : middle.Flushing effect := by
        rw [Flushing, effects]
        exact flushing
      obtain ⟨next, finished, shown⟩ := inductionHypothesis middle heardLater stillFlushing
      refine ⟨next, ?_, ?_⟩
      · rw [cut, List.flatMap_cons, Transition.run_append, reached, Option.bind_some]
        exact finished
      · rw [shown, logs, bufferRef, Feed.merged_nil, List.map_cons, Feed.merged,
          List.foldl_cons]

/-- What is displayed after a run of batches. -/
theorem displayed_cut
    {app : App Key}
    {effect : Nat}
    {batches : List (List (LiveFrame Key))}
    (empty : app.bufferRef = [])
    (heard : ∀ frame ∈ batches.flatten, frame.Heard app)
    (flushing : app.Flushing effect) :
    ∃ next, Transition.run (App.step builtins) app (cut effect batches) = some next ∧
      next.displayed = (batches.map (List.map (LiveFrame.log builtins))).foldl
        (Feed.push liveMaxLines) app.displayed := by
  obtain ⟨next, reached, logs⟩ := run_cut builtins app heard flushing
  refine ⟨next, reached, ?_⟩
  rw [displayed, logs, empty, Feed.merged_nil, Feed.map_foldl_push, List.map_map]
  congr 1
  apply List.map_congr_left
  intro batch _
  exact List.map_map

/-- The list after the flushes is that of the frames put in front one by one
exactly when what is kept of each batch reads the same from both ends. -/
theorem batched_eq_single_iff
    (app : App Key)
    (effect : Nat)
    (batches : List (List (LiveFrame Key)))
    (empty : app.bufferRef = [])
    (bounded : app.logs.length ≤ liveMaxLines)
    (heard : ∀ frame ∈ batches.flatten, frame.Heard app)
    (flushing : app.Flushing effect) :
    ∃ next, Transition.run (App.step builtins) app (cut effect batches) = some next ∧
      (next.displayed =
          batches.flatten.foldl
            (fun shown frame => (frame.log builtins :: shown).take liveMaxLines)
            app.displayed ↔
        Feed.Mirrored liveMaxLines
          (batches.map (List.map (LiveFrame.log builtins)))) := by
  obtain ⟨next, reached, shown⟩ := displayed_cut builtins empty heard flushing
  refine ⟨next, reached, ?_⟩
  have bounded' : app.displayed.length ≤ liveMaxLines := by
    rwa [displayed, List.length_map]
  have frames : (batches.map (List.map (LiveFrame.log builtins))).flatten =
      batches.flatten.map (LiveFrame.log builtins) :=
    List.map_flatten.symm
  have singles : (batches.flatten.map (LiveFrame.log builtins)).foldl
        (fun shown log => (log :: shown).take liveMaxLines) app.displayed =
      batches.flatten.foldl
        (fun shown frame => (frame.log builtins :: shown).take liveMaxLines)
        app.displayed :=
    List.foldl_map
  rw [shown, ← Feed.foldl_push_eq_foldl_cons_iff bounded', frames, singles]

/-- A live tail whose socket is open. -/
def tailing : App Key :=
  let mounted : App Key := App.mount "| \"error\"".toList 15 true 0
  (mounted.step asciiBuiltins (.opened 0)).getD mounted

/-- A frame of the engine that arrives at a time. -/
def frameAt (message : String) (now : Int) : LiveFrame Unit where
  socket := 0
  entry := { raw := { timestampNano := some 0, message := message.toList, id := [],
                      timestamp := [], app := [], host := [], env := [], metadata := [] }
             record := () }
  clock _ := now

theorem heard_tailing (frame : LiveFrame Key) (first : frame.socket = 0) :
    frame.Heard tailing := by
  rw [LiveFrame.Heard, first]
  exact ⟨_, rfl, rfl, rfl⟩

theorem flushing_tailing : (tailing : App Key).Flushing 0 := ⟨_, rfl, rfl⟩

theorem batched_eq_single_iff_twoFlushes :
    ∃ next, Transition.run (App.step asciiBuiltins) tailing
        (cut 0 [[frameAt "error one" 1], [frameAt "error two" 2]]) = some next ∧
      next.displayed =
        [frameAt "error one" 1, frameAt "error two" 2].foldl
          (fun shown frame => (frame.log asciiBuiltins :: shown).take liveMaxLines)
          (tailing : App Unit).displayed := by
  obtain ⟨next, reached, same⟩ := batched_eq_single_iff asciiBuiltins tailing 0
    [[frameAt "error one" 1], [frameAt "error two" 2]] rfl (Nat.zero_le _)
    (fun frame member => heard_tailing frame (by revert frame; simp [frameAt]))
    flushing_tailing
  exact ⟨next, reached, same.mpr (Feed.mirrored_of_length_le_one (by simp))⟩

/-- Two frames in one flush are listed oldest first. -/
theorem one_flush_oldest_first :
    ¬ ∀ (app next : App Unit) (effect : Nat) (batches : List (List (LiveFrame Unit))),
      app.bufferRef = [] → app.logs.length ≤ liveMaxLines →
      (∀ frame ∈ batches.flatten, frame.Heard app) → app.Flushing effect →
      Transition.run (App.step asciiBuiltins) app (cut effect batches) = some next →
      next.displayed = batches.flatten.foldl
        (fun shown frame => (frame.log asciiBuiltins :: shown).take liveMaxLines)
        app.displayed := by
  intro claim
  have heard : ∀ frame ∈ [[frameAt "error one" 1, frameAt "error two" 2]].flatten,
      frame.Heard tailing := by
    intro frame member
    refine heard_tailing frame ?_
    revert frame
    simp [frameAt]
  have empty : (tailing : App Unit).bufferRef = [] := rfl
  obtain ⟨next, reached, shown⟩ :=
    displayed_cut asciiBuiltins empty heard flushing_tailing
  have same := claim tailing next 0 _ empty (Nat.zero_le _) heard flushing_tailing reached
  rw [shown] at same
  revert same
  decide +kernel

end App

end Web
end Chronolog
