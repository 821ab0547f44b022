import Chronolog.Foundation.FirstOccurrence
import Chronolog.Server.Process
import Chronolog.Storage.ScanOrder

/-!
# The order of the lines of a request

Lines keep their order on the way to the workers: through the handler, the
channel, the forwarder and the raw queue.  The timestamp, though, is the clock
reading of whichever worker parses the line, and a worker that holds a line can
be overtaken.  Timestamps follow the order of the lines in every run in which
no worker reads the clock ahead of a worker with an earlier line of the request.
-/

namespace Chronolog
namespace Server

open Ingestion Pipeline Search Storage Channels

/-- The second line does not come before the first one in one request. -/
def Follows (first second : Line) : Prop :=
  match first.origin, second.origin with
  | .line request index, .line otherRequest otherIndex =>
      request = otherRequest → index ≤ otherIndex
  | _, _ => True

instance : DecidableRel Follows := fun first second => by
  unfold Follows
  split <;> infer_instance

theorem follows_iff {first second : Line} :
    Follows first second ↔
      ∀ request index otherIndex, first.origin = .line request index →
        second.origin = .line request otherIndex → index ≤ otherIndex := by
  unfold Follows
  split
  next request index otherRequest otherIndex firstOrigin secondOrigin =>
    rw [firstOrigin, secondOrigin]
    constructor
    · rintro bound _ _ _ ⟨rfl, rfl⟩ ⟨rfl, rfl⟩
      exact bound rfl
    · rintro bound rfl
      exact bound _ _ _ rfl rfl
  next other =>
    refine iff_of_true trivial ?_
    intro request index otherIndex firstOrigin secondOrigin
    exact (other _ _ _ _ firstOrigin secondOrigin).elim

theorem follows_of_datagram
    {first second : Line}
    (datagram : first.origin = .datagram ∨ second.origin = .datagram) :
    Follows first second := by
  rw [follows_iff]
  intro request index otherIndex firstOrigin secondOrigin
  rcases datagram with origin | origin
  · exact nomatch origin.symm.trans firstOrigin
  · exact nomatch origin.symm.trans secondOrigin

theorem follows_of_ne
    {first second : Line}
    {request otherRequest index otherIndex : Nat}
    (firstOrigin : first.origin = .line request index)
    (secondOrigin : second.origin = .line otherRequest otherIndex)
    (apart : request ≠ otherRequest) :
    Follows first second := by
  unfold Follows
  rw [firstOrigin, secondOrigin]
  exact fun same => absurd same apart

/-- A job's line does not come before another's in one request. -/
def JobFollows (first second : Job Line) : Prop := Follows first.content second.content

instance : DecidableRel JobFollows := fun first second =>
  inferInstanceAs (Decidable (Follows first.content second.content))

namespace Process

variable {workers : Nat}

/-- The lines on their way from the HTTP handlers and all that was submitted, in
the order in which the workers take them. -/
def sent (process : Process workers) : List Line :=
  process.pipe.submitted.map Job.content ++
    ((process.forwarder .http).toList ++ (process.channel .http).queue)

/-- Lines are sent in the order of their requests. -/
structure SendsInOrder (process : Process workers) : Prop where
  sent : process.sent.Pairwise Follows
  known : ∀ line ∈ process.sent, ∀ request index, line.origin = .line request index →
    request < process.handlers.length
  handlers : ∀ request lines, process.handlers[request]? = some lines →
    lines.Pairwise Follows ∧
      ∀ line ∈ lines, (∃ index, line.origin = .line request index) ∧
        ∀ earlier ∈ process.sent, Follows earlier line
  reader : ∀ line, process.reader = some line → line.origin = .datagram
  udpChannel : ∀ line ∈ (process.channel .udp).queue, line.origin = .datagram
  udpForwarder : ∀ line, process.forwarder .udp = some line → line.origin = .datagram

variable {unicode : UnicodeTables} {base : DB} {process next : Process workers}

/-- The lines of a request are counted in their order. -/
theorem requestLines_inOrder
    (request : Nat)
    (isPost : Bool)
    (body : Bytes)
    (readError : Option ScanError) :
    (requestLines request isPost body readError).Pairwise Follows ∧
      ∀ line ∈ requestLines request isPost body readError,
        ∃ index, line.origin = .line request index := by
  constructor
  · rw [requestLines, List.pairwise_iff_getElem]
    intro i j iBound jBound less
    rw [List.getElem_mapIdx, List.getElem_mapIdx]
    exact fun _ => Nat.le_of_lt less
  · intro line member
    obtain ⟨index, bound, rfl⟩ := List.mem_mapIdx.mp member
    exact ⟨index, rfl⟩

namespace SendsInOrder

theorem start : (Process.start workers base).SendsInOrder where
  sent := by simp [Process.sent, Process.start, Farm.start, Channel.make]
  known := by simp [Process.sent, Process.start, Farm.start, Channel.make]
  handlers := by simp [Process.start]
  reader := by simp [Process.start]
  udpChannel := by simp [Process.start, Channel.make]
  udpForwarder := by simp [Process.start]

/-- What was sent stays, at most without its packets in hand. -/
theorem of_sublist
    (inOrder : process.SendsInOrder)
    (sent : next.sent.Sublist process.sent)
    (handlers : next.handlers = process.handlers)
    (reader : next.reader = process.reader)
    (udpChannel : ∀ line ∈ (next.channel .udp).queue, line.origin = .datagram)
    (udpForwarder : ∀ line, next.forwarder .udp = some line → line.origin = .datagram) :
    next.SendsInOrder where
  sent := inOrder.sent.sublist sent
  known := by
    rw [handlers]
    exact fun line member => inOrder.known line (sent.subset member)
  handlers := by
    rw [handlers]
    intro request lines handler
    obtain ⟨pairwise, each⟩ := inOrder.handlers request lines handler
    exact ⟨pairwise, fun line member => ⟨(each line member).1,
      fun earlier past => (each line member).2 earlier (sent.subset past)⟩⟩
  reader := by
    rw [reader]
    exact inOrder.reader
  udpChannel := udpChannel
  udpForwarder := udpForwarder

theorem of_sent
    (inOrder : process.SendsInOrder)
    (sent : next.sent = process.sent)
    (handlers : next.handlers = process.handlers)
    (reader : next.reader = process.reader)
    (udpChannel : ∀ line ∈ (next.channel .udp).queue, line.origin = .datagram)
    (udpForwarder : ∀ line, next.forwarder .udp = some line → line.origin = .datagram) :
    next.SendsInOrder :=
  inOrder.of_sublist (sent ▸ List.Sublist.refl _) handlers reader udpChannel udpForwarder

theorem sendLine
    {request : Nat}
    (inOrder : process.SendsInOrder)
    (advanced : process.advance unicode (.sendLine request) = some next) :
    next.SendsInOrder := by
  obtain ⟨line, remaining, handler, rfl⟩ := advance_sendLine advanced
  obtain ⟨pairwise, each⟩ := inOrder.handlers request _ handler
  obtain ⟨follows, rest⟩ := List.pairwise_cons.mp pairwise
  obtain ⟨⟨index, origin⟩, behind⟩ := each line List.mem_cons_self
  have bound : request < process.handlers.length :=
    (List.getElem?_eq_some_iff.mp handler).1
  have extended : Process.sent { process with
      handlers := process.handlers.set request remaining
      channel := Function.update process.channel .http
        ((process.channel .http).push line) } = process.sent ++ [line] := by
    simp only [Process.sent, Function.update_self, Channel.push_queue, List.append_assoc]
  exact {
    sent := by
      rw [extended, List.pairwise_append]
      exact ⟨inOrder.sent, List.pairwise_singleton _ _, by simpa using behind⟩
    known := by
      intro other member otherRequest otherIndex otherOrigin
      rw [extended, List.mem_append, List.mem_singleton] at member
      rw [List.length_set]
      rcases member with earlier | rfl
      · exact inOrder.known other earlier otherRequest otherIndex otherOrigin
      · obtain ⟨rfl, _⟩ := Origin.line.inj (origin.symm.trans otherOrigin)
        exact bound
    handlers := by
      intro other lines otherHandler
      by_cases same : other = request
      · subst same
        rw [List.getElem?_set_self bound] at otherHandler
        obtain rfl := Option.some.inj otherHandler
        refine ⟨rest, fun later member => ⟨(each later (List.mem_cons_of_mem _ member)).1, ?_⟩⟩
        intro earlier past
        rw [extended, List.mem_append, List.mem_singleton] at past
        rcases past with past | rfl
        · exact (each later (List.mem_cons_of_mem _ member)).2 earlier past
        · exact follows later member
      · rw [List.getElem?_set_ne (Ne.symm same)] at otherHandler
        obtain ⟨otherPairwise, otherEach⟩ := inOrder.handlers other lines otherHandler
        refine ⟨otherPairwise, fun later member => ⟨(otherEach later member).1, ?_⟩⟩
        intro earlier past
        rw [extended, List.mem_append, List.mem_singleton] at past
        rcases past with past | rfl
        · exact (otherEach later member).2 earlier past
        · obtain ⟨laterIndex, laterOrigin⟩ := (otherEach later member).1
          exact follows_of_ne origin laterOrigin (Ne.symm same)
    reader := inOrder.reader
    udpChannel := inOrder.udpChannel
    udpForwarder := inOrder.udpForwarder }

theorem request
    {isPost : Bool}
    {body : Bytes}
    {readError : Option ScanError}
    (inOrder : process.SendsInOrder)
    (advanced : process.advance unicode (.request isPost body readError) = some next) :
    next.SendsInOrder := by
  obtain rfl := advance_request advanced
  obtain ⟨pairwise, origins⟩ :=
    requestLines_inOrder process.handlers.length isPost body readError
  exact { inOrder with
    known := by
      intro line member request index origin
      rw [List.length_append]
      exact Nat.lt_add_right _ (inOrder.known line member request index origin)
    handlers := by
      intro request lines handler
      rcases Nat.lt_or_ge request process.handlers.length with old | new
      · rw [List.getElem?_append_left old] at handler
        exact inOrder.handlers request lines handler
      · rw [List.getElem?_append_right new, List.getElem?_singleton] at handler
        obtain ⟨first, same⟩ := Option.ite_none_right_eq_some.mp handler
        obtain rfl := Option.some.inj same
        obtain rfl : request = process.handlers.length := by omega
        refine ⟨pairwise, fun line member => ⟨origins line member, ?_⟩⟩
        intro earlier past
        rw [follows_iff]
        intro sameRequest index _ earlierOrigin lineOrigin
        obtain ⟨_, origin⟩ := origins line member
        obtain ⟨rfl, _⟩ := Origin.line.inj (origin.symm.trans lineOrigin)
        exact absurd (inOrder.known earlier past _ index earlierOrigin)
          (Nat.lt_irrefl _) }

theorem forward
    {ingress : Ingress}
    (inOrder : process.SendsInOrder)
    (advanced : process.advance unicode (.forward ingress) = some next) :
    next.SendsInOrder := by
  obtain ⟨line, channel, free, popped, rfl⟩ := advance_forward advanced
  obtain ⟨queue, _⟩ := Channel.pop_eq_some.mp popped
  cases ingress with
  | udp =>
      refine inOrder.of_sent rfl rfl rfl ?_ ?_
      · intro other member
        simp only [Function.update_self] at member
        exact inOrder.udpChannel other (queue ▸ List.mem_cons_of_mem _ member)
      · intro other held
        simp only [Function.update_self] at held
        obtain rfl := Option.some.inj held
        exact inOrder.udpChannel _ (queue ▸ List.mem_cons_self)
  | http =>
      refine inOrder.of_sent ?_ rfl rfl inOrder.udpChannel
        inOrder.udpForwarder
      simp only [Process.sent, Function.update_self, Option.toList_some, free, queue,
        Option.toList_none, List.nil_append, List.singleton_append]

/-- A datagram may be put anywhere. -/
theorem insert_datagram
    {before after : List Line}
    {line : Line}
    (datagram : line.origin = .datagram)
    (pairwise : (before ++ after).Pairwise Follows) :
    ((before ++ [line]) ++ after).Pairwise Follows := by
  obtain ⟨first, second, across⟩ := List.pairwise_append.mp pairwise
  have apart := List.pairwise_append.mpr ⟨first, List.pairwise_singleton Follows line,
    fun earlier _ last isLast => follows_of_datagram
      (Or.inr (List.mem_singleton.mp isLast ▸ datagram))⟩
  refine List.pairwise_append.mpr ⟨apart, second, ?_⟩
  intro earlier member later laterMember
  rcases List.mem_append.mp member with past | inserted
  · exact across earlier past later laterMember
  · exact follows_of_datagram (Or.inl (List.mem_singleton.mp inserted ▸ datagram))

theorem submit
    {ingress : Ingress}
    (inOrder : process.SendsInOrder)
    (advanced : process.advance unicode (.submit ingress) = some next) :
    next.SendsInOrder := by
  obtain ⟨line, pipe, held, moved, rfl⟩ := advance_submit advanced
  rcases Farm.step_submit moved with ⟨_, rfl⟩ | ⟨_, _, rfl⟩
  · cases ingress with
    | udp =>
        refine inOrder.of_sent rfl rfl rfl inOrder.udpChannel ?_
        intro other impossible
        simp only [Function.update_self] at impossible
        exact absurd impossible.symm (Option.some_ne_none _)
    | http =>
        refine inOrder.of_sublist ?_ rfl rfl inOrder.udpChannel inOrder.udpForwarder
        simp only [Process.sent, Function.update_self, Option.toList_none, List.nil_append]
        exact (List.Sublist.refl _).append (List.sublist_append_right _ _)
  · cases ingress with
    | udp =>
        have datagram := inOrder.udpForwarder line held
        have inserted : Process.sent { process with
            pipe := process.pipe.put line
            forwarder := Function.update process.forwarder .udp none } =
              (process.pipe.submitted.map Job.content ++ [line]) ++
                ((process.forwarder .http).toList ++ (process.channel .http).queue) := by
          simp only [Process.sent, Farm.put, List.map_append, List.map_singleton]
          rfl
        have mem_sent : ∀ other, other ∈ Process.sent { process with
            pipe := process.pipe.put line
            forwarder := Function.update process.forwarder .udp none } →
              other = line ∨ other ∈ process.sent := by
          intro other member
          rw [inserted] at member
          simp only [Process.sent, List.mem_append, List.mem_singleton] at member ⊢
          tauto
        exact { inOrder with
          sent := by
            rw [inserted]
            exact insert_datagram datagram inOrder.sent
          known := by
            intro other member request index origin
            rcases mem_sent other member with rfl | past
            · rw [datagram] at origin
              cases origin
            · exact inOrder.known other past request index origin
          handlers := by
            intro request lines handler
            obtain ⟨pairwise, each⟩ := inOrder.handlers request lines handler
            refine ⟨pairwise, fun later member => ⟨(each later member).1, ?_⟩⟩
            intro earlier past
            rcases mem_sent earlier past with rfl | past
            · exact follows_of_datagram (Or.inl datagram)
            · exact (each later member).2 earlier past
          udpForwarder := by
            intro other impossible
            simp only [Function.update_self] at impossible
            exact absurd impossible.symm (Option.some_ne_none _) }
    | http =>
        refine inOrder.of_sent ?_ rfl rfl inOrder.udpChannel
          inOrder.udpForwarder
        simp only [Process.sent, Farm.put, List.map_append, List.map_singleton,
          Function.update_self, held, Option.toList_none, Option.toList_some,
          List.nil_append, List.append_assoc]

/-- Whatever happens, lines are sent in the order of their requests. -/
theorem step
    {event : ProcessEvent workers}
    (inOrder : process.SendsInOrder)
    (stepped : process.step unicode event = some next) :
    next.SendsInOrder := by
  obtain ⟨_, advanced⟩ := step_eq_some.mp stepped
  cases event with
  | readDatagram =>
      obtain ⟨line, datagram, rfl⟩ := advance_readDatagram advanced
      exact { inOrder with
        reader := fun other read => Option.some.inj read ▸ datagram }
  | sendDatagram =>
      obtain ⟨line, read, rfl⟩ := advance_sendDatagram advanced
      exact { inOrder with
        reader := nofun
        udpChannel := by
          intro other member
          simp only [Function.update_self, Channel.push_queue, List.mem_append,
            List.mem_singleton] at member
          rcases member with earlier | rfl
          · exact inOrder.udpChannel other earlier
          · exact inOrder.reader other read }
  | request => exact inOrder.request advanced
  | sendLine => exact inOrder.sendLine advanced
  | forward => exact inOrder.forward advanced
  | submit => exact inOrder.submit advanced
  | worker event =>
      obtain ⟨pipe, moved, rfl⟩ := advance_worker advanced
      refine inOrder.of_sent ?_ rfl rfl inOrder.udpChannel
        inOrder.udpForwarder
      simp only [Process.sent]
      rw [Farm.submitted_eq_step moved event.submits_farm]
  | receive =>
      obtain ⟨_, _, _, _, _, moved, _, rfl⟩ := advance_receive advanced
      refine inOrder.of_sent ?_ rfl rfl inOrder.udpChannel
        inOrder.udpForwarder
      simp only [Process.sent]
      rw [Farm.submitted_eq_step moved rfl]
  | loop =>
      obtain ⟨_, _, _, _, rfl⟩ := advance_loop advanced
      exact { inOrder with }
  | signal =>
      obtain ⟨_, _, rfl⟩ := advance_signal advanced
      exact { inOrder with }
  | close =>
      obtain ⟨_, _, _, ⟨_, _, _, moved, rfl⟩ | ⟨_, _, moved, rfl⟩ | ⟨_, rfl⟩⟩ :=
        advance_close advanced
      · obtain ⟨_, rfl⟩ := Farm.step_close moved
        exact { inOrder with }
      · obtain ⟨_, _, rfl⟩ := Farm.step_closeOutput moved
        exact { inOrder with }
      · exact { inOrder with }

end SendsInOrder

/-! ## Timestamps -/

/-- The condition on a step: a worker that reads the clock for a line holds the
earliest line of the request among those the workers have not parsed. -/
def WaitsItsTurn (process : Process workers) : ProcessEvent workers → Prop
  | .worker event => process.pipe.Waits JobFollows event.farm
  | _ => True

instance (process : Process workers) (event : ProcessEvent workers) :
    Decidable (process.WaitsItsTurn event) :=
  match event with
  | .worker event => inferInstanceAs (Decidable (process.pipe.Waits JobFollows event.farm))
  | .readDatagram _ _ | .sendDatagram | .request _ _ _ | .sendLine _ | .forward _
  | .submit _ | .receive | .loop _ | .signal _ | .close => inferInstanceAs (Decidable True)

/-- A clock reading is later than all earlier ones. -/
def ReadsLater (process : Process workers) : ProcessEvent workers → Prop
  | .worker (.parse _ now) => ∀ done ∈ process.pipe.stamped, done.stamp < now
  | _ => True

instance (process : Process workers) (event : ProcessEvent workers) :
    Decidable (process.ReadsLater event) :=
  match event with
  | .worker (.parse _ now) => inferInstanceAs (Decidable
      (∀ done ∈ process.pipe.stamped, done.stamp < now))
  | .worker (.take _) | .worker (.emit _) | .worker (.exit _) | .readDatagram _ _
  | .sendDatagram | .request _ _ _ | .sendLine _ | .forward _ | .submit _ | .receive
  | .loop _ | .signal _ | .close => inferInstanceAs (Decidable True)

/-- The clock of a run is strictly increasing. -/
def Increasing
    (unicode : UnicodeTables) (base : DB) (events : List (ProcessEvent workers)) : Prop :=
  ∀ moment event,
    Transition.Performs (step unicode) (start workers base) events moment event →
      moment.ReadsLater event

/-- Every step of a run waits its turn. -/
def AllWait
    (unicode : UnicodeTables) (base : DB) (events : List (ProcessEvent workers)) : Prop :=
  ∀ moment event,
    Transition.Performs (step unicode) (start workers base) events moment event →
      moment.WaitsItsTurn event

/-- The first line comes before the second one in a request. -/
def Precedes (first second : Stamped Line Int64) : Prop :=
  ∃ request index otherIndex, first.job.content.origin = .line request index ∧
    second.job.content.origin = .line request otherIndex ∧ index < otherIndex

/-- Of two stored lines of a request the first has the smaller timestamp, and an
ascending scan for a term of both returns it first, unless the clock turned
from negative to non-negative between them. -/
structure LinesInOrder (unicode : UnicodeTables) (process : Process workers) : Prop where
  timestamps : ∀ first ∈ process.pipe.stamped, ∀ second ∈ process.pipe.stamped,
    Precedes first second → Stored unicode process.engine.db (arrival first) →
      Stored unicode process.engine.db (arrival second) → first.stamp < second.stamp
  scans : ∀ first ∈ process.pipe.stamped, ∀ second ∈ process.pipe.stamped,
    Precedes first second → Stored unicode process.engine.db (arrival first) →
      Stored unicode process.engine.db (arrival second) →
        (second.stamp < 0 ∨ 0 ≤ first.stamp) →
          ∀ term ∈ (arrival first).tokens unicode, term ∈ (arrival second).tokens unicode →
            [(recordID (arrival first)).indexKey term,
              (recordID (arrival second)).indexKey term].Sublist
                (process.engine.db.scan (hasPrefix (indexPrefix term)))

/-- Lines are parsed in the order of their requests as long as every parse waits
its turn. -/
theorem inTurn_of_run
    {events : List (ProcessEvent workers)}
    (reached : Transition.run (Process.step unicode) (start workers base) events =
      some process)
    (waits : AllWait unicode base events) :
    process.SendsInOrder ∧ process.pipe.InTurn JobFollows := by
  refine Transition.run_history_meeting
    (fun _ process => process.SendsInOrder ∧ process.pipe.InTurn JobFollows)
    ⟨.start, .start _ _⟩ ?_ reached waits
  rintro history process event next current ⟨inOrder, inTurn⟩ turn stepped
  have after := inOrder.step stepped
  refine ⟨after, ?_⟩
  rcases pipe_step stepped with same | ⟨farmEvent, moved, drives⟩
  · rw [same]
    exact inTurn
  · have sorted := (List.pairwise_append.mp after.sent).1
    rw [List.pairwise_map] at sorted
    refine inTurn.step (accounted_of_run current) sorted ?_ moved
    cases farmEvent with
    | stamp worker now =>
        obtain rfl := drives.stamp
        exact turn
    | _ => exact trivial

/-- Under an increasing clock the stamps increase. -/
theorem stamps_increase
    {events : List (ProcessEvent workers)}
    (reached : Transition.run (Process.step unicode) (start workers base) events =
      some process)
    (clock : Increasing unicode base events) :
    process.pipe.stamped.Pairwise fun first second => first.stamp < second.stamp := by
  refine Transition.run_history_meeting
    (fun _ process => process.pipe.stamped.Pairwise fun first second =>
      first.stamp < second.stamp) List.Pairwise.nil ?_ reached clock
  intro history process event next _ sorted later stepped
  rcases pipe_step stepped with same | ⟨farmEvent, moved, drives⟩
  · rw [same]
    exact sorted
  · rcases Farm.stamped_step moved with same | ⟨worker, done, rfl, grown⟩
    · rw [same]
      exact sorted
    · obtain rfl := drives.stamp
      rw [grown]
      refine List.pairwise_append.mpr ⟨sorted, List.pairwise_singleton _ _, ?_⟩
      intro earlier member last isLast
      exact List.mem_singleton.mp isLast ▸ later earlier member

/-- Of any two parsed lines of a request the first has the smaller timestamp. -/
theorem stamp_lt_of_precedes
    {events : List (ProcessEvent workers)}
    {first second : Stamped Line Int64}
    (reached : Transition.run (Process.step unicode) (start workers base) events =
      some process)
    (clock : Increasing unicode base events)
    (waits : AllWait unicode base events)
    (firstMember : first ∈ process.pipe.stamped)
    (secondMember : second ∈ process.pipe.stamped)
    (precedes : Precedes first second) :
    first.stamp < second.stamp := by
  have increasing := stamps_increase reached clock
  have inTurn := (inTurn_of_run reached waits).2.stamped
  obtain ⟨request, index, otherIndex, firstOrigin, secondOrigin, less⟩ := precedes
  have apart : ¬ JobFollows second.job first.job := fun follows =>
    Nat.not_le.mpr less (follows_iff.mp follows request _ _ secondOrigin firstOrigin)
  obtain ⟨i, iBound, rfl⟩ := List.getElem_of_mem firstMember
  obtain ⟨j, jBound, rfl⟩ := List.getElem_of_mem secondMember
  rcases Nat.lt_trichotomy i j with before | rfl | behind
  · exact List.pairwise_iff_getElem.mp increasing i j iBound jBound before
  · obtain ⟨_, rfl⟩ := Origin.line.inj (firstOrigin.symm.trans secondOrigin)
    exact absurd less (Nat.lt_irrefl _)
  · exact absurd (List.pairwise_iff_getElem.mp inTurn j i jBound iBound behind) apart

/-- The index key of a stored item is found by a scan for the term. -/
theorem indexKey_mem_scan
    {db : DB}
    {item : Arrival}
    {term : Bytes}
    (stored : Stored unicode db item)
    (token : term ∈ item.tokens unicode) :
    (recordID item).indexKey term ∈ db.scan (hasPrefix (indexPrefix term)) := by
  have read := stored _ _ (indexKey_mem_puts.mpr ⟨rfl, token, rfl⟩)
  refine (OrderedStore.mem_scan _ _ _).mpr ⟨?_, ?_⟩
  · exact (OrderedStore.mem_iff_getElem? _ _).mpr ⟨[], read⟩
  · rw [hasPrefix, List.isPrefixOf_iff_prefix]
    exact ⟨putUint64 item.now.toUInt64 ++ putUint64 item.streamID, by
      simp [indexPrefix, LogRecordID.indexKey, encodeIndexKey, recordID]⟩

/-- Keys of one term are in the order of their timestamps. -/
theorem compare_indexKey_lt
    {first second : LogRecordID}
    (term : Bytes)
    (less : first.ts < second.ts)
    (sign : second.ts < 0 ∨ 0 ≤ first.ts) :
    compare (first.indexKey term) (second.indexKey term) = .lt := by
  have stored : first.ts.toUInt64.toNat < second.ts.toUInt64.toNat := by
    by_contra reversed
    have signs : first.ts < 0 → second.ts < 0 := fun negative =>
      sign.resolve_right (Int64.not_le.mpr negative)
    exact Int64.not_le.mpr less (le_of_toUInt64_le signs (Nat.le_of_not_lt reversed))
  rw [LogRecordID.indexKey, LogRecordID.indexKey, compare_encodeIndexKey,
    Nat.compare_eq_lt.mpr stored]
  rfl

/-- For any requests, any number of workers and any schedule over a strictly
increasing clock: as long as every worker that reads the clock for a line waits
its turn, the stored lines of a request are in order at every moment. -/
theorem linesInOrder_of_waits
    (unicode : UnicodeTables)
    (workers : Nat)
    (base : DB)
    (events : List (ProcessEvent workers))
    (process : Process workers)
    (reached : Transition.run (Process.step unicode) (start workers base) events =
      some process)
    (clock : Increasing unicode base events)
    (waits : AllWait unicode base events) :
    ∀ moment, Transition.Passes (Process.step unicode) (start workers base) events moment →
      moment.LinesInOrder unicode := by
  rintro moment ⟨before, after, rfl, current⟩
  have ordered : ∀ first ∈ moment.pipe.stamped, ∀ second ∈ moment.pipe.stamped,
      Precedes first second → first.stamp < second.stamp :=
    fun first firstMember second secondMember => stamp_lt_of_precedes current
      (fun past event performed => clock past event (Transition.performs_append performed))
      (fun past event performed => waits past event (Transition.performs_append performed))
      firstMember secondMember
  constructor
  · intro first firstMember second secondMember precedes _ _
    exact ordered first firstMember second secondMember precedes
  · intro first firstMember second secondMember precedes firstStored secondStored sign
      term firstToken secondToken
    have less := ordered first firstMember second secondMember precedes
    refine FirstOccurrence.pair_sublist_of_pairwise (OrderedStore.scan_sorted _ _) ?_
      (indexKey_mem_scan firstStored firstToken) (indexKey_mem_scan secondStored secondToken)
      (compare_indexKey_lt term less sign)
    intro left right less greater
    exact Std.OrientedCmp.not_lt_of_lt greater less

/-- Two lines of one request go through two workers.  The worker with the
second line reads the clock before the other one or after it. -/
def twoLineRun (overtake : Bool) : List (ProcessEvent 2) :=
  let first : Fin 2 := ⟨0, Nat.zero_lt_two⟩
  let second : Fin 2 := ⟨1, Nat.one_lt_two⟩
  [.request true "h first\nh later".toUTF8.toList none, .sendLine 0, .sendLine 0,
    .forward .http, .submit .http, .forward .http, .submit .http,
    .worker (.take first), .worker (.take second)] ++
  (if overtake then [.worker (.parse second 7), .worker (.parse first 8)]
    else [.worker (.parse first 7), .worker (.parse second 8)]) ++
  [.worker (.emit first), .worker (.emit second),
    .receive, .loop .register, .loop (.endItem true),
    .receive, .loop .register, .loop (.endItem true), .loop (.tick true)]

theorem linesInOrder_of_waits_twoLineRun :
    ∃ process, Transition.run (step asciiTables) (start 2 ∅) (twoLineRun false) =
        some process ∧
      process.pipe.delivered.length = 2 ∧ process.LinesInOrder asciiTables := by
  obtain ⟨process, guarded, delivered⟩ := (Option.any_eq_true _ _).mp
    (by decide +kernel : (Transition.run (Transition.guarded (step asciiTables)
      fun moment event => decide (moment.ReadsLater event) &&
        decide (moment.WaitsItsTurn event)) (start 2 ∅) (twoLineRun false)).any
          (fun process => decide (process.pipe.delivered.length = 2)) = true)
  obtain ⟨reached, accepted⟩ := Transition.run_guarded guarded
  have clock : Increasing asciiTables ∅ (twoLineRun false) := fun moment event performed =>
    of_decide_eq_true (Bool.and_eq_true_iff.mp (accepted moment event performed)).1
  have waits : AllWait asciiTables ∅ (twoLineRun false) := fun moment event performed =>
    of_decide_eq_true (Bool.and_eq_true_iff.mp (accepted moment event performed)).2
  exact ⟨process, reached, of_decide_eq_true delivered,
    linesInOrder_of_waits asciiTables 2 ∅ (twoLineRun false) process reached clock waits
      process (Transition.passes_final reached)⟩

/-- A worker overtakes another one between taking the line and reading the
clock, and the second line is stored with the smaller timestamp. -/
theorem overtaken_line_has_larger_timestamp :
    ¬ ∀ workers base events (process : Process workers),
      Transition.run (step asciiTables) (start workers base) events = some process →
      Increasing asciiTables base events →
      ∀ moment, Transition.Passes (step asciiTables) (start workers base) events moment →
        moment.LinesInOrder asciiTables := by
  intro claim
  obtain ⟨process, guarded, facts⟩ := (Option.any_eq_true _ _).mp
    (by decide +kernel : (Transition.run (Transition.guarded (step asciiTables)
      fun moment event => decide (moment.ReadsLater event)) (start 2 ∅)
        (twoLineRun true)).any (fun process => decide
          (∃ first ∈ process.pipe.stamped, ∃ second ∈ process.pipe.stamped,
            first.job.content.origin = .line 0 0 ∧
            second.job.content.origin = .line 0 1 ∧
            Stored asciiTables process.engine.db (arrival first) ∧
            Stored asciiTables process.engine.db (arrival second) ∧
            ¬ first.stamp < second.stamp)) = true)
  obtain ⟨reached, accepted⟩ := Transition.run_guarded guarded
  have clock : Increasing asciiTables ∅ (twoLineRun true) := fun moment event performed =>
    of_decide_eq_true (accepted moment event performed)
  obtain ⟨first, firstMember, second, secondMember, firstOrigin, secondOrigin,
    firstStored, secondStored, reversed⟩ := of_decide_eq_true facts
  exact reversed ((claim 2 ∅ (twoLineRun true) process reached clock process
    (Transition.passes_final reached)).timestamps first firstMember second secondMember
      ⟨0, 0, 1, firstOrigin, secondOrigin, Nat.zero_lt_one⟩ firstStored secondStored)

end Process
end Server
end Chronolog
