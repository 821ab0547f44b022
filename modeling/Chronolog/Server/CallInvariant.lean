import Chronolog.Server.Concurrent

/-!
# The invariant of an interleaved call

What is true of a call at every point of every schedule, and what follows for
the answer it returns.
-/

namespace Chronolog
namespace Server

open Pipeline Search Storage

section Definitions

variable (unicode : UnicodeTables) (request : SearchRequest)

/-- No scan for the term stops short of a hit: a negative timestamp is stored
after all others, so one past the window hides it. -/
def HitsReached (items : List Arrival) : Prop :=
  ∀ hit ∈ items, Hit unicode request hit →
    0 ≤ hit.now ∨ ∀ other ∈ items, request.term ∈ other.tokens unicode →
      0 ≤ other.now → other.now ≤ request.endNano

/-- What the loop's events must satisfy for the answer to be determined: hits
keep their record keys to themselves and are reached by a scan, and there are
fewer stored ones than the limit. -/
structure Admissible (events : List LoopEvent) : Prop where
  alone : HitsAlone unicode request (received events)
  reached : HitsReached unicode request (received events)
  room : (hitIDs unicode request (storedAfter unicode events)).card <
    request.effectiveLimit

/-- How far a call has worked through its snapshot. -/
structure WorkedThrough (snapshot : DB) (state : SearchState)
    (remaining : List LogRecordID) : Prop where
  within : ∀ id data, (id, data) ∈ state.results → Matches request snapshot id
  covered : ∀ id, Matches request snapshot id → id ∈ state.seen ∨ id ∈ remaining
  expected : ∀ id ∈ remaining, Matches request snapshot id

variable (before : List LoopEvent) (engine : Engine)

/-- What the point of a call adds to the state of its lookups. -/
def AtPoint (history : List SystemEvent) (state : SearchState) :
    SearchPoint → Prop
  | .memoryTier => ∀ snapshot, ¬ Opened unicode request engine history snapshot
  | .pointReads rest =>
      (∀ snapshot, ¬ Opened unicode request engine history snapshot) ∧
        ∀ entry ∈ rest, ∃ arrival ∈ received (before ++ loopEvents history),
          Hit unicode request arrival ∧ recordID arrival = entry.id
  | .openIterator => ∀ snapshot, ¬ Opened unicode request engine history snapshot
  | .scan keys _ =>
      (∃ snapshot, Opened unicode request engine history snapshot) ∧
        ∀ snapshot, Opened unicode request engine history snapshot →
          WorkedThrough request snapshot.engine.db state (scanIDs request keys)
  | .returned _ =>
      (∃ snapshot, Opened unicode request engine history snapshot) ∧
        ∀ snapshot, Opened unicode request engine history snapshot →
          WorkedThrough request snapshot.engine.db state []

/-- What holds of a call after any history. -/
structure CallInvariant (history : List SystemEvent) (system : System) : Prop where
  faithful : Faithful unicode request
    (storedAfter unicode (before ++ loopEvents history))
    (ReadEarly unicode request engine history) system.call.state
  point : AtPoint unicode request before engine history system.call.state
    system.call.point

end Definitions

variable {unicode : UnicodeTables} {request : SearchRequest}
variable {before : List LoopEvent} {engine : Engine}

instance (items : List Arrival) :
    Decidable (HitsReached unicode request items) :=
  inferInstanceAs (Decidable (∀ hit ∈ items, _ → _ ∨ ∀ other ∈ items, _ → _ → _))

theorem Admissible.of_append
    {first second : List LoopEvent}
    (admissible : Admissible unicode request (first ++ second)) :
    Admissible unicode request first := by
  have included : received first ⊆ received (first ++ second) := by
    rw [received_append]
    exact List.subset_append_left _ _
  refine ⟨?_, ?_, ?_⟩
  · intro hit member isHit other otherMember same
    exact admissible.alone hit (included member) isHit other (included otherMember) same
  · intro hit member isHit
    refine (admissible.reached hit (included member) isHit).imp_right ?_
    exact fun bound other otherMember => bound other (included otherMember)
  · refine Nat.lt_of_le_of_lt (Finset.card_le_card ?_) admissible.room
    exact hitIDs_mono (storedAfter_grows first second).subset

/-! ## Steps of the loop -/

/-- A step of the loop leaves the call alone. -/
theorem CallInvariant.loop
    {history : List SystemEvent}
    {system : System}
    {event : LoopEvent}
    {advanced : Engine}
    (invariant : CallInvariant unicode request before engine history system) :
    CallInvariant unicode request before engine (history ++ [.loop event])
      { system with engine := advanced } where
  faithful := invariant.faithful.mono (stored_grows unicode before history _).subset
    fun _ => readEarly_loop
  point := by
    have point := invariant.point
    change AtPoint _ _ _ _ _ system.call.state system.call.point
    cases current : system.call.point with
    | memoryTier =>
        rw [current] at point
        exact fun snapshot opened => point snapshot (opened_loop.mp opened)
    | pointReads rest =>
        rw [current] at point
        refine ⟨fun snapshot opened => point.1 snapshot (opened_loop.mp opened), ?_⟩
        intro entry member
        obtain ⟨arrival, present, expected⟩ := point.2 entry member
        exact ⟨arrival, (received_grows history _).subset present, expected⟩
    | openIterator =>
        rw [current] at point
        exact fun snapshot opened => point snapshot (opened_loop.mp opened)
    | scan keys iterError =>
        rw [current] at point
        obtain ⟨⟨snapshot, opened⟩, worked⟩ := point
        exact ⟨⟨snapshot, opened_loop.mpr opened⟩,
          fun other openedOther => worked other (opened_loop.mp openedOther)⟩
    | returned err =>
        rw [current] at point
        obtain ⟨⟨snapshot, opened⟩, worked⟩ := point
        exact ⟨⟨snapshot, opened_loop.mpr opened⟩,
          fun other openedOther => worked other (opened_loop.mp openedOther)⟩

/-! ## Steps of the call -/

section Search

variable {history : List SystemEvent} {system : System}

/-- A step that looks nothing up early keeps the lookups faithful. -/
theorem faithful_unchanged
    (invariant : CallInvariant unicode request before engine history system)
    (current : Transition.run (System.step unicode request) (System.start engine)
      history = some system)
    (noRead : ∀ entry rest, system.call.point ≠ .pointReads (entry :: rest)) :
    Faithful unicode request
      (storedAfter unicode (before ++ loopEvents (history ++ [.search])))
      (ReadEarly unicode request engine (history ++ [.search]))
      system.call.state := by
  refine invariant.faithful.mono (stored_grows unicode before history _).subset fun id => ?_
  rw [readEarly_search current, or_iff_left]
  rintro ⟨entry, rest, point, _⟩
  exact noRead entry rest point

/-- A lookup of a received hit finds room for its result. -/
theorem afterFetch_of_room
    {early : LogRecordID → Prop}
    {fetched : SearchState × Bool}
    {events : List LoopEvent}
    (admissible : Admissible unicode request events)
    (faithful : Faithful unicode request (storedAfter unicode events) early fetched.1)
    (next : SearchPoint) :
    SearchCall.afterFetch request.effectiveLimit fetched next =
      { point := next, state := fetched.1 } := by
  apply if_neg
  rintro ⟨_, full⟩
  have bound := Nat.lt_of_le_of_lt faithful.length_le admissible.room
  exact Nat.not_le.mpr bound full

theorem loopEvents_concat_search (history : List SystemEvent) :
    loopEvents (history ++ [.search]) = loopEvents history := by
  rw [loopEvents_append, loopEvents_search, List.append_nil]

/-- While the iterator is not being opened, the snapshot stays what it is. -/
theorem opened_unchanged
    (current : Transition.run (System.step unicode request) (System.start engine)
      history = some system)
    (notOpening : system.call.point ≠ .openIterator)
    {moment : System} :
    Opened unicode request engine (history ++ [.search]) moment ↔
      Opened unicode request engine history moment := by
  rw [opened_search current, or_iff_left]
  exact fun opening => notOpening opening.2

/-- The postings a call finds belong to received hits. -/
theorem memMatches_received
    (reached : Engine.Reaches unicode before engine)
    (current : Transition.run (System.step unicode request) (System.start engine)
      history = some system)
    {entry : PostingEntry}
    (member : entry ∈ memMatches (some system.engine.memIndex) request) :
    ∃ arrival ∈ received (before ++ loopEvents history),
      Hit unicode request arrival ∧ recordID arrival = entry.id := by
  obtain ⟨posted, covers⟩ := MemoryIndex.mem_query.mp member
  have represents := represents_ofEvents (engine_reached reached current)
  obtain ⟨arrival, registered, token, same⟩ :=
    represents.exists_item_of_posting posted
  refine ⟨arrival, ?_, ⟨token, ?_⟩, same⟩
  · rw [← Ledger.received_ofEvents unicode]
    exact Ledger.registered_subset _ registered
  · have now : arrival.now = entry.timestampNano := congrArg LogRecordID.ts same
    rw [now]
    exact covers

/-- A point read keeps the invariant. -/
theorem CallInvariant.pointRead
    (invariant : CallInvariant unicode request before engine history system)
    (reached : Engine.Reaches unicode before engine)
    (current : Transition.run (System.step unicode request) (System.start engine)
      history = some system)
    (admissible : Admissible unicode request (before ++ loopEvents history))
    {entry : PostingEntry}
    {rest : List PostingEntry}
    (point : system.call.point = .pointReads (entry :: rest)) :
    CallInvariant unicode request before engine (history ++ [.search])
      { system with
        call := SearchCall.afterFetch request.effectiveLimit
          (fetchLog (Reader.ofDB system.engine.db) entry.id system.call.state)
          (.pointReads rest) } := by
  have allowed := invariant.point
  rw [point] at allowed
  have fetched := invariant.faithful.fetch admissible.alone
    (storedAfter_subset_received unicode _) (allowed.2 entry List.mem_cons_self)
  rw [← db_eq_storeOf reached current] at fetched
  rw [afterFetch_of_room admissible fetched]
  constructor
  · rw [loopEvents_concat_search]
    refine fetched.mono (List.Subset.refl _) fun id => ?_
    rw [readEarly_search current, point]
    refine or_congr Iff.rfl ⟨?_, ?_⟩
    · rintro ⟨other, others, same, rfl, facts⟩
      obtain ⟨rfl, _⟩ := List.cons.inj (SearchPoint.pointReads.inj same)
      exact ⟨rfl, facts⟩
    · rintro ⟨rfl, facts⟩
      exact ⟨entry, rest, rfl, rfl, facts⟩
  · refine ⟨fun snapshot opened => ?_, fun other member => ?_⟩
    · exact allowed.1 snapshot
        ((opened_unchanged current (by simp [point])).mp opened)
    · rw [loopEvents_concat_search]
      exact allowed.2 other (List.mem_cons_of_mem _ member)

/-- Opening the iterator turns the stored hits into the remaining candidates. -/
theorem CallInvariant.openIterator
    (invariant : CallInvariant unicode request before engine history system)
    (reached : Engine.Reaches unicode before engine)
    (current : Transition.run (System.step unicode request) (System.start engine)
      history = some system)
    (admissible : Admissible unicode request (before ++ loopEvents history))
    (nulFree : (0x00 : UInt8) ∉ request.term)
    (point : system.call.point = .openIterator)
    (iterError : Option ReadError) :
    CallInvariant unicode request before engine (history ++ [.search])
      { system with
        call := { system.call with
          point := .scan (system.engine.db.scan
            (hasPrefix (indexPrefix request.term))) iterError } } := by
  have unopened := invariant.point
  rw [point] at unopened
  have db := db_eq_storeOf reached current
  have candidates : ∀ id, id ∈ scanIDs request (system.engine.db.scan
      (hasPrefix (indexPrefix request.term))) ↔
        Matches request system.engine.db id := by
    intro id
    rw [db, mem_scanIDs_storeOf nulFree, matches_storeOf]
    constructor
    · rintro ⟨covers, ⟨arrival, stored, token, rfl⟩, _⟩
      exact ⟨arrival, stored, ⟨token, covers⟩, rfl⟩
    · rintro ⟨arrival, stored, ⟨token, covers⟩, rfl⟩
      refine ⟨covers, ⟨arrival, stored, token, rfl⟩, ?_⟩
      refine (admissible.reached arrival (storedAfter_subset_received unicode _ stored)
        ⟨token, covers⟩).imp_right ?_
      exact fun bound other otherStored =>
        bound other (storedAfter_subset_received unicode _ otherStored)
  have faithful := faithful_unchanged invariant current (by simp [point])
  refine ⟨faithful, ⟨system, (opened_search current).mpr (Or.inr ⟨rfl, point⟩)⟩, ?_⟩
  intro snapshot opened
  rcases (opened_search current).mp opened with earlier | ⟨rfl, _⟩
  · exact absurd earlier (unopened snapshot)
  refine ⟨fun id data result => ?_, fun id matching => ?_, fun id remaining => ?_⟩
  · obtain ⟨arrival, stored, hit, same, _⟩ := invariant.faithful.records id data result
    rw [db, matches_storeOf]
    exact ⟨arrival, stored, hit, same⟩
  · exact Or.inr ((candidates id).mpr matching)
  · exact (candidates id).mp remaining

/-- A lookup of a candidate of the scan keeps the invariant. -/
theorem CallInvariant.scanLookup
    (invariant : CallInvariant unicode request before engine history system)
    (reached : Engine.Reaches unicode before engine)
    (current : Transition.run (System.step unicode request) (System.start engine)
      history = some system)
    (admissible : Admissible unicode request (before ++ loopEvents history))
    {key : Bytes}
    {keys : List Bytes}
    {iterError : Option ReadError}
    {id : LogRecordID}
    (point : system.call.point = .scan (key :: keys) iterError)
    (candidate : scanIDs request (key :: keys) = id :: scanIDs request keys) :
    CallInvariant unicode request before engine (history ++ [.search])
      { system with
        call := SearchCall.afterFetch request.effectiveLimit
          (fetchLog (Reader.ofDB system.engine.db) id system.call.state)
          (.scan keys iterError) } := by
  have allowed := invariant.point
  rw [point] at allowed
  obtain ⟨⟨first, firstOpened⟩, worked⟩ := allowed
  rw [candidate] at worked
  obtain ⟨snapshot, snapshotDB, _, included⟩ := opened_db reached firstOpened
  have matching := (worked first firstOpened).expected id List.mem_cons_self
  rw [snapshotDB, matches_storeOf] at matching
  obtain ⟨arrival, inSnapshot, hit, same⟩ := matching
  have stored := included inSnapshot
  have fetched := invariant.faithful.fetch admissible.alone
    (storedAfter_subset_received unicode _)
    ⟨arrival, storedAfter_subset_received unicode _ stored, hit, same⟩
  have present : id.logKey ∈ system.engine.db := by
    rw [db_eq_storeOf reached current]
    exact logKey_mem_storeOf.mpr ⟨arrival, stored, same⟩
  rw [← db_eq_storeOf reached current] at fetched
  rw [afterFetch_of_room admissible fetched]
  constructor
  · rw [loopEvents_concat_search]
    refine fetched.mono (List.Subset.refl _) fun other => ?_
    rw [readEarly_search current, point]
    simp [present]
  · have unchanged : ∀ moment, Opened unicode request engine
        (history ++ [.search]) moment ↔
          Opened unicode request engine history moment :=
      fun _ => opened_unchanged current (by simp [point])
    refine ⟨⟨first, (unchanged first).mpr firstOpened⟩, fun other opened => ?_⟩
    have workedOther := worked other ((unchanged other).mp opened)
    refine ⟨fun found data result => ?_, fun found matchingFound => ?_,
      fun found remaining => ?_⟩
    · rcases mem_results_fetchLog result with earlier | rfl
      · exact workedOther.within found data earlier
      · exact workedOther.expected found List.mem_cons_self
    · rw [mem_seen_fetchLog]
      have cases := workedOther.covered found matchingFound
      rw [List.mem_cons] at cases
      tauto
    · exact workedOther.expected found (List.mem_cons_of_mem _ remaining)

/-- A step of the scan that looks nothing up keeps the invariant when it leaves
the candidates as they are. -/
theorem CallInvariant.scanOn
    (invariant : CallInvariant unicode request before engine history system)
    (current : Transition.run (System.step unicode request) (System.start engine)
      history = some system)
    {keys : List Bytes}
    {iterError : Option ReadError}
    (point : system.call.point = .scan keys iterError)
    {next : SearchPoint}
    (kept : next = .scan keys.tail iterError ∧
        scanIDs request keys = scanIDs request keys.tail ∨
      (∃ err, next = .returned err) ∧ scanIDs request keys = []) :
    CallInvariant unicode request before engine (history ++ [.search])
      { system with call := { system.call with point := next } } := by
  have allowed := invariant.point
  rw [point] at allowed
  obtain ⟨⟨first, firstOpened⟩, worked⟩ := allowed
  have faithful := faithful_unchanged invariant current (by simp [point])
  have unchanged : ∀ moment, Opened unicode request engine
      (history ++ [.search]) moment ↔
        Opened unicode request engine history moment :=
    fun _ => opened_unchanged current (by simp [point])
  refine ⟨faithful, ?_⟩
  rcases kept with ⟨rfl, same⟩ | ⟨⟨err, rfl⟩, none⟩
  · refine ⟨⟨first, (unchanged first).mpr firstOpened⟩, fun other opened => ?_⟩
    rw [← same]
    exact worked other ((unchanged other).mp opened)
  · refine ⟨⟨first, (unchanged first).mpr firstOpened⟩, fun other opened => ?_⟩
    rw [← none]
    exact worked other ((unchanged other).mp opened)

/-- A step of the scan keeps the invariant, whatever the next key is. -/
theorem CallInvariant.scanStep
    (invariant : CallInvariant unicode request before engine history system)
    (reached : Engine.Reaches unicode before engine)
    (current : Transition.run (System.step unicode request) (System.start engine)
      history = some system)
    (admissible : Admissible unicode request (before ++ loopEvents history))
    {keys : List Bytes}
    {iterError : Option ReadError}
    (point : system.call.point = .scan keys iterError)
    {call : SearchCall}
    (stepped : system.call.step request (some system.engine.memIndex)
      (Reader.ofDB system.engine.db) = some call) :
    CallInvariant unicode request before engine (history ++ [.search])
      { system with call } := by
  cases keys with
  | nil =>
      simp only [SearchCall.step, point, Option.some.injEq] at stepped
      subst stepped
      exact invariant.scanOn current point (Or.inr ⟨⟨_, rfl⟩, rfl⟩)
  | cons key keys =>
      simp only [SearchCall.step, point] at stepped
      split at stepped
      next undecodable =>
        rw [Option.some.injEq] at stepped
        subst stepped
        refine invariant.scanOn current point (Or.inl ⟨rfl, ?_⟩)
        rw [scanIDs, undecodable]
        rfl
      next term ts streamID decoded =>
        by_cases early : ts < request.startNano
        · rw [if_pos early, Option.some.injEq] at stepped
          subst stepped
          refine invariant.scanOn current point (Or.inl ⟨rfl, ?_⟩)
          rw [scanIDs, decoded]
          exact if_pos early
        rw [if_neg early] at stepped
        by_cases late : request.endNano < ts
        · rw [if_pos late, Option.some.injEq] at stepped
          subst stepped
          refine invariant.scanOn current point (Or.inr ⟨⟨_, rfl⟩, ?_⟩)
          rw [scanIDs, decoded]
          dsimp only
          rw [if_neg early, if_pos late]
        · rw [if_neg late, Option.some.injEq] at stepped
          subst stepped
          refine invariant.scanLookup reached current admissible point ?_
          rw [scanIDs, decoded]
          dsimp only
          rw [if_neg early, if_neg late]

/-- Every step of a call keeps the invariant. -/
theorem CallInvariant.search
    (invariant : CallInvariant unicode request before engine history system)
    (reached : Engine.Reaches unicode before engine)
    (current : Transition.run (System.step unicode request) (System.start engine)
      history = some system)
    (admissible : Admissible unicode request (before ++ loopEvents history))
    (nulFree : (0x00 : UInt8) ∉ request.term)
    {call : SearchCall}
    (stepped : system.call.step request (some system.engine.memIndex)
      (Reader.ofDB system.engine.db) = some call) :
    CallInvariant unicode request before engine (history ++ [.search])
      { system with call } := by
  have allowed := invariant.point
  cases point : system.call.point with
  | memoryTier =>
      rw [point] at allowed
      simp only [SearchCall.step, point, Option.some.injEq] at stepped
      subst stepped
      have faithful := faithful_unchanged invariant current (by simp [point])
      refine ⟨faithful, fun snapshot opened => ?_, fun entry member => ?_⟩
      · exact allowed snapshot ((opened_unchanged current (by simp [point])).mp opened)
      · rw [loopEvents_concat_search]
        exact memMatches_received reached current member
  | pointReads rest =>
      cases rest with
      | nil =>
          rw [point] at allowed
          simp only [SearchCall.step, point, Option.some.injEq] at stepped
          subst stepped
          have faithful := faithful_unchanged invariant current (by simp [point])
          refine ⟨faithful, fun snapshot opened => ?_⟩
          exact allowed.1 snapshot
            ((opened_unchanged current (by simp [point])).mp opened)
      | cons entry rest =>
          simp only [SearchCall.step, point, Option.some.injEq] at stepped
          subst stepped
          exact invariant.pointRead reached current admissible point
  | openIterator =>
      simp only [SearchCall.step, point, Option.some.injEq] at stepped
      subst stepped
      exact invariant.openIterator reached current admissible nulFree point none
  | scan keys iterError =>
      exact invariant.scanStep reached current admissible point stepped
  | returned err => simp [SearchCall.step, point] at stepped

end Search

/-! ## Runs -/

/-- The invariant holds after every admissible schedule. -/
theorem callInvariant
    (reached : Engine.Reaches unicode before engine)
    (nulFree : (0x00 : UInt8) ∉ request.term)
    {events : List SystemEvent}
    {final : System}
    (ran : Transition.run (System.step unicode request) (System.start engine) events =
      some final)
    (admissible : Admissible unicode request (before ++ loopEvents events)) :
    CallInvariant unicode request before engine events final := by
  revert admissible
  refine Transition.run_history (fun history (system : System) =>
    Admissible unicode request (before ++ loopEvents history) →
      CallInvariant unicode request before engine history system) ?_ ?_ ran
  · intro _
    refine ⟨(Faithful.start []).mono (List.nil_subset _) fun id => ?_, ?_⟩
    · refine iff_of_false ?_ not_false
      rintro ⟨_, _, _, performed, _⟩
      exact Transition.not_performs_nil performed
    · exact fun snapshot opened => Transition.not_performs_nil opened.1
  · intro history system event next current invariant stepped admissible
    rw [loopEvents_append, ← List.append_assoc] at admissible
    have earlier := admissible.of_append
    cases event with
    | loop event =>
        obtain ⟨advanced, _, rfl⟩ := System.step_loop stepped
        exact (invariant earlier).loop
    | search =>
        obtain ⟨call, callStepped, rfl⟩ := System.step_search stepped
        exact (invariant earlier).search reached current earlier nulFree callStepped

end Server
end Chronolog
