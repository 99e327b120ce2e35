import Libp2p.Network.Dispatch

/-! # Streams that a peer opens

A peer opens a stream and negotiates on it with the coroutine that serves the connection. The stream does not fail;
meanwhile handlers are registered, other streams arrive and are served, the connection closes. What the two sides move is
a session of the negotiation, whose responder offers the names that have a handler when the stream is taken from the
channel, and what the listener does is one of its runs.
-/

namespace Libp2p.Network

open Library Multiselect

namespace StreamDispatcher

variable {events : List Input} {event : Input} {state before after : StreamDispatcher} {stream : StreamPtr}
  {offered : List ProtocolName} {coro : CoroOutcome (ℕ ⊕ ProtocolName)}

/-- The coroutine neither touches the channel nor the protocols while it has a stream in hand, and it reports on it. -/
structure Kept (before after : StreamDispatcher) : Prop where
  signal : after.streamSignal = before.streamSignal
  protocols : after.protocols = before.protocols
  arrived : after.arrived = before.arrived
  log : before.log <:+ after.log

theorem Kept.trans {middle : StreamDispatcher} (first : Kept before middle) (second : Kept middle after) :
    Kept before after :=
  ⟨second.signal.trans first.signal, second.protocols.trans first.protocols, second.arrived.trans first.arrived,
    first.log.trans second.log⟩

theorem kept_record (report : Report) : Kept state (state.record report) := ⟨rfl, rfl, rfl, List.suffix_cons ..⟩

theorem kept_loopTop : Kept state state.loopTop := by
  unfold loopTop
  split_ifs
  · exact ⟨rfl, rfl, rfl, List.suffix_cons ..⟩
  · exact ⟨rfl, rfl, rfl, List.suffix_rfl⟩

theorem kept_handle (name : ProtocolName) : Kept state (state.handle stream name) := by
  unfold handle
  split
  · exact kept_record _
  · exact kept_record _

theorem kept_conclude (result : Except StreamError (ℕ ⊕ ProtocolName)) : Kept state (state.conclude stream result) := by
  unfold conclude
  split
  · exact (kept_handle _).trans kept_loopTop
  · have kept := @kept_record state (.reset stream)
    exact ⟨kept.signal, kept.protocols, kept.arrived, kept.log⟩
  · exact (kept_record _).trans kept_loopTop

theorem kept_settle : Kept state (state.settle stream offered coro) := by
  unfold settle
  split
  · exact kept_conclude _
  · exact ⟨rfl, rfl, rfl, List.suffix_rfl⟩

theorem kept_onItem (item : Except QuicError StreamPtr) : Kept state (state.onItem item) := by
  unfold onItem
  split
  · exact kept_loopTop
  · dsimp only
    split_ifs
    · exact (kept_record _).trans kept_loopTop
    · exact kept_settle

theorem Kept.grown (kept : Kept before after) :
    (∀ name ∈ before.protocols, name ∈ after.protocols) ∧ before.log <:+ after.log :=
  ⟨fun name member => by rwa [kept.protocols], kept.log⟩

/-- Names stay registered and reports stay. -/
theorem grown_step (taken : before.step event = some after) :
    (∀ name ∈ before.protocols, name ∈ after.protocols) ∧ before.log <:+ after.log := by
  cases steps_of_step taken with
  | listenProtocol ids protocol => exact ⟨fun _ => Protocols.mem_listenProtocol, List.suffix_rfl⟩
  | onStream opened => exact ⟨fun _ => id, List.suffix_rfl⟩
  | onClose opened => exact ⟨fun _ => id, List.suffix_rfl⟩
  | start spawned => exact kept_loopTop.grown
  | @receive item rest accepting pending => exact (@kept_onItem { before with streamSignal := rest } item).grown
  | complete negotiating outcome advanced => exact kept_settle.grown

/-- The stream has not arrived yet, or it waits in the channel. -/
def Awaits (state : StreamDispatcher) (stream : StreamPtr) : Prop :=
  state.arrived ≤ stream ∨ .ok stream ∈ state.streamSignal

theorem Awaits.of_kept (awaits : before.Awaits stream) (kept : Kept before after) : after.Awaits stream := by
  rw [Awaits, kept.arrived, kept.signal]
  exact awaits

/-- A stream that has arrived stays in the channel until the coroutine takes it. -/
theorem awaits_step (taken : before.step event = some after) (awaits : before.Awaits stream) :
    after.Awaits stream ∨ ∃ rest, before.streamSignal = .ok stream :: rest ∧
      after = { before with streamSignal := rest }.onItem (.ok stream) := by
  cases steps_of_step taken with
  | listenProtocol ids protocol => exact .inl awaits
  | onStream opened =>
    rcases awaits with coming | queued
    · rcases Nat.eq_or_lt_of_le coming with rfl | later
      · exact .inl (.inr (List.mem_append_right _ (List.mem_singleton_self _)))
      · exact .inl (.inl later)
    · exact .inl (.inr (List.mem_append_left _ queued))
  | onClose opened => exact .inl (awaits.imp id fun queued => List.mem_append_left _ queued)
  | start spawned => exact .inl (awaits.of_kept kept_loopTop)
  | @receive item rest accepting pending =>
    have kept := @kept_onItem { before with streamSignal := rest } item
    rcases awaits with coming | queued
    · exact .inl (.inl (kept.arrived.trans_le coming))
    · rw [pending] at queued
      rcases List.mem_cons.mp queued with rfl | later
      · exact .inr ⟨rest, pending, rfl⟩
      · exact .inl (.inr (by rwa [kept.signal]))
  | complete negotiating outcome advanced => exact .inl (awaits.of_kept kept_settle)

/-- The stream whose negotiation has ended is settled, and handed over if a name was negotiated. -/
theorem settled_conclude {result : Except StreamError (ℕ ⊕ ProtocolName)} (chooses : Chooses offered (.ret result))
    (known : ∀ name ∈ offered, name ∈ state.protocols) : 1 ≤ (state.conclude stream result).settled stream ∧
      ∀ name, result = .ok (.inr name) →
        ∃ protocol, .handled stream name protocol ∈ (state.conclude stream result).log := by
  have settles {report : Report} (about : report.Settles stream) {log : List Report} (member : report ∈ log) :
      1 ≤ log.countP (Report.Settles stream) := List.countP_pos_iff.mpr ⟨report, member, decide_eq_true about⟩
  have last {report : Report} : report ∈ (state.record report).loopTop.log :=
    kept_loopTop.log.subset List.mem_cons_self
  unfold conclude
  split
  · next name =>
    obtain ⟨protocol, found⟩ := Option.isSome_iff_exists.mp (AList.lookup_isSome.mpr (known name (chooses name rfl)))
    rw [handle, Protocols.getProtocol_of_lookup found]
    refine ⟨@settles (.handled stream name protocol) rfl _ last, ?_⟩
    rintro other ⟨⟩
    exact ⟨protocol, last⟩
  · refine ⟨@settles (.reset stream) rfl _ List.mem_cons_self, fun name same => ?_⟩
    cases same
  · next other _ =>
    exact ⟨@settles (.reset stream) rfl _ last, fun name same => absurd same (other name)⟩

theorem Sound.untaken (sound : Sound events state) (awaits : state.Awaits stream) :
    state.phase.stream ≠ some stream := by
  intro inside
  have placed := sound.underway.placed stream
  rw [if_pos inside] at placed
  rcases awaits with coming | queued
  · rw [if_neg (not_lt.mpr coming)] at placed
    omega
  · have waiting := List.count_pos_iff.mpr queued
    split_ifs at placed <;> omega

theorem Sound.unsettled (sound : Sound events state) (given : 1 ≤ state.settled stream) :
    state.phase.stream ≠ some stream := by
  intro inside
  have placed := sound.underway.placed stream
  rw [if_pos inside] at placed
  split_ifs at placed <;> omega

/-- The completion of an operation of a stream. -/
def Input.completes : Input → Bool
  | .complete _ => true
  | _ => false

/-- Only the negotiation itself ends a negotiation. -/
theorem phase_step (taken : before.step event = some after) (phase : before.phase = .negotiating stream offered coro)
    (other : event.completes = false) : after.phase = .negotiating stream offered coro := by
  cases steps_of_step taken with
  | listenProtocol ids protocol => exact phase
  | onStream opened => exact phase
  | onClose opened => exact phase
  | start spawned => rw [spawned] at phase; cases phase
  | receive accepting pending => rw [accepting] at phase; cases phase
  | complete negotiating outcome advanced => cases other

end StreamDispatcher

/-- A peer that has opened a stream, and the listener at its other end. -/
structure Opening where
  peer : CoroOutcome (ℕ ⊕ ProtocolName)
  toListener : Pipe := {}
  toPeer : Pipe := {}
  listener : StreamDispatcher

namespace Opening

open StreamDispatcher (Phase Report Input Kept Sound Chooses)

/-- One side moves bytes of the stream, or something else happens to the listener. -/
inductive Event where
  | peer (count : ℕ)
  | serve (count : ℕ)
  | input (input : Input)

def Event.moves : Event → Bool
  | .input _ => false
  | _ => true

/-- One event; the listener moves bytes of the stream while it negotiates on it. -/
def step (proposals : List ProtocolName) (stream : StreamPtr) (state : Opening) : Event → Option Opening
  | .peer count => (complete (selectLoop proposals true) state.peer state.toPeer state.toListener count).map
      fun (peer, toPeer, toListener) => { state with peer, toPeer, toListener }
  | .serve count =>
    match state.listener.phase with
    | .negotiating other offered coro =>
      if other = stream then
        (complete (selectLoop offered false) coro state.toListener state.toPeer count).map fun (coro, toListener, toPeer) =>
          { state with toListener, toPeer, listener := state.listener.settle stream offered coro }
      else none
    | _ => none
  | .input input =>
    if state.listener.phase.stream = some stream ∧ input.completes then none
    else (state.listener.step input).map fun listener => { state with listener }

abbrev Runs (proposals : List ProtocolName) (stream : StreamPtr) (source : Opening) : List Event → Opening → Prop :=
  Run (fun before event after => before.step proposals stream event = some after) source

/-- The peer with its proposals, and a listener. -/
def start (proposals : List ProtocolName) (listener : StreamDispatcher) : Opening where
  peer := selectOneOf proposals true true
  listener

/-- The listener has taken the stream, and neither side can move any bytes of it. -/
structure Quiet (proposals : List ProtocolName) (stream : StreamPtr) (state : Opening) : Prop where
  taken : ¬ state.listener.Awaits stream
  peer : ∀ count, state.step proposals stream (.peer count) = none
  serve : ∀ count, state.step proposals stream (.serve count) = none

/-- The two sides of the stream. -/
def sides (state : Opening) (right : CoroOutcome (ℕ ⊕ ProtocolName)) : Duplex StreamError ℕ ℕ ProtocolName where
  left := state.peer
  right
  toRight := state.toListener
  toLeft := state.toPeer

variable {inputs : List Input} {events : List Event} {event : Event} {state before after final : Opening}
  {stream : StreamPtr} {proposals offered : List ProtocolName} {proposal : ProtocolName}
  {coro : CoroOutcome (ℕ ⊕ ProtocolName)} {moves : ℕ}

/-- The listener negotiates on the stream, and moves bytes of it. -/
theorem serve_of_step {count : ℕ} (taken : before.step proposals stream (.serve count) = some after) :
    ∃ offered coro next toListener toPeer, before.listener.phase = .negotiating stream offered coro ∧
      complete (selectLoop offered false) coro before.toListener before.toPeer count = some (next, toListener, toPeer) ∧
      after = { before with toListener, toPeer, listener := before.listener.settle stream offered next } := by
  simp only [step] at taken
  split at taken
  · next other offered coro phase =>
    obtain ⟨rfl, moved⟩ := Option.ite_none_right_eq_some.mp taken
    obtain ⟨⟨next, toListener, toPeer⟩, completed, rfl⟩ := Option.map_eq_some_iff.mp moved
    exact ⟨offered, coro, next, toListener, toPeer, phase, completed, rfl⟩
  · cases taken

/-- The listener takes a step of its own or stands still. -/
theorem listener_step (taken : before.step proposals stream event = some after) :
    after.listener = before.listener ∨ ∃ input, before.listener.step input = some after.listener := by
  cases event with
  | peer count =>
    obtain ⟨moved, -, rfl⟩ := Option.map_eq_some_iff.mp taken
    exact .inl rfl
  | serve count =>
    obtain ⟨offered, coro, next, toListener, toPeer, phase, completed, rfl⟩ := serve_of_step taken
    obtain ⟨completion, advanced, outcome⟩ := complete_advance completed
    refine .inr ⟨.complete completion, ?_⟩
    simp only [StreamDispatcher.step, phase]
    rw [if_neg (outcome _), advanced]
    rfl
  | input input =>
    obtain ⟨-, moved⟩ := Option.ite_none_left_eq_some.mp taken
    obtain ⟨listener, stepped, rfl⟩ := Option.map_eq_some_iff.mp moved
    exact .inr ⟨input, stepped⟩

/-- How far the stream has got: it is on its way to the listener, the listener negotiates on it, or its negotiation has
ended. What the two sides have moved is a session of the negotiation. -/
inductive Served (proposals : List ProtocolName) (proposal : ProtocolName) (stream : StreamPtr) (state : Opening)
    (moves : ℕ) : Prop
  | waiting (awaits : state.listener.Awaits stream)
      (session : ∀ supported, ∃ turns, SessionRuns proposals supported true turns
        (state.sides (selectOneOf supported false true)) ∧ turns.length = moves)
  | negotiating {offered : List ProtocolName} {coro : CoroOutcome (ℕ ⊕ ProtocolName)} {turns : List Turn}
      (phase : state.listener.phase = .negotiating stream offered coro) (pending : ∀ result, coro ≠ .ret result)
      (known : ∀ name ∈ offered, name ∈ state.listener.protocols) (proposed : proposal ∈ offered)
      (session : SessionRuns proposals offered true turns (state.sides coro)) (length : turns.length = moves)
  | settled {offered : List ProtocolName} {result : Except StreamError (ℕ ⊕ ProtocolName)} {turns : List Turn}
      (given : 1 ≤ state.listener.settled stream)
      (handled : ∀ name, result = .ok (.inr name) → ∃ protocol, .handled stream name protocol ∈ state.listener.log)
      (known : ∀ name ∈ offered, name ∈ state.listener.protocols) (proposed : proposal ∈ offered)
      (session : SessionRuns proposals offered true turns (state.sides (.ret result))) (length : turns.length = moves)

/-- The negotiation goes on or its result is acted upon. -/
theorem served_of_settle {turns : List Turn} (chooses : Chooses offered coro)
    (known : ∀ name ∈ offered, name ∈ state.listener.protocols) (proposed : proposal ∈ offered)
    (session : SessionRuns proposals offered true turns (state.sides coro)) (length : turns.length = moves) :
    Served proposals proposal stream { state with listener := state.listener.settle stream offered coro } moves := by
  have kept : ∀ name ∈ offered, name ∈ (state.listener.settle stream offered coro).protocols := by
    rw [StreamDispatcher.kept_settle.protocols]
    exact known
  cases coro with
  | ret result =>
    obtain ⟨given, handled⟩ := StreamDispatcher.settled_conclude chooses known
    exact .settled given handled kept proposed session length
  | readSome want resume => exact .negotiating rfl (fun _ => nofun) kept proposed session length
  | writeSome data resume => exact .negotiating rfl (fun _ => nofun) kept proposed session length

/-- The listener takes the stream, with the names that have a handler then. -/
theorem served_of_received {rest : List (Except QuicError StreamPtr)}
    (proposed : proposal ∈ state.listener.protocols)
    (session : ∀ supported, ∃ turns, SessionRuns proposals supported true turns
      (state.sides (selectOneOf supported false true)) ∧ turns.length = moves) :
    Served proposals proposal stream
      { state with listener := { state.listener with streamSignal := rest }.onItem (.ok stream) } moves := by
  have offers : proposal ∈ state.listener.protocols.getSupportedProtocols := AList.mem_keys.mp proposed
  obtain ⟨turns, session, length⟩ := session state.listener.protocols.getSupportedProtocols
  unfold StreamDispatcher.onItem
  dsimp only
  rw [if_neg (List.ne_nil_of_mem offers)]
  exact @served_of_settle { state with listener := { state.listener with streamSignal := rest } } _ _ _ _ _ _ _
    StreamDispatcher.chooses_selectOneOf (fun name member => AList.mem_keys.mpr member) offers session length

/-- One step of the system. -/
theorem Served.step (served : Served proposals proposal stream before moves) (sound : Sound inputs before.listener)
    (proposed : proposal ∈ before.listener.protocols) (taken : before.step proposals stream event = some after) :
    Served proposals proposal stream after (moves + if event.moves then 1 else 0) := by
  cases event with
  | peer count =>
    obtain ⟨⟨peer, inbound, outbound⟩, completed, rfl⟩ := Option.map_eq_some_iff.mp taken
    have moved (right : CoroOutcome (ℕ ⊕ ProtocolName)) (supported : List ProtocolName) :
        Duplex.step (selectLoop proposals true) (selectLoop supported false) (before.sides right) (.left count) =
          some { left := peer, right, toRight := outbound, toLeft := inbound } :=
      Option.map_eq_some_iff.mpr ⟨_, completed, rfl⟩
    cases served with
    | waiting awaits session =>
      refine .waiting awaits fun supported => ?_
      obtain ⟨turns, session, length⟩ := session supported
      exact ⟨_, session.snoc (moved _ supported), by rw [List.length_append, length]; rfl⟩
    | @negotiating offered coro turns phase pending known proposed session length =>
      exact .negotiating phase pending known proposed (session.snoc (moved _ offered))
        (by rw [List.length_append, length]; rfl)
    | @settled offered result turns given handled known proposed session length =>
      exact .settled given handled known proposed (session.snoc (moved _ offered)) (by rw [List.length_append, length]; rfl)
  | serve count =>
    obtain ⟨offered, coro, next, toListener, toPeer, phase, completed, rfl⟩ := serve_of_step taken
    have inside : before.listener.phase.stream = some stream := by rw [phase]; rfl
    cases served with
    | waiting awaits session => exact absurd inside (sound.untaken awaits)
    | settled given handled known proposed session length => exact absurd inside (sound.unsettled given)
    | negotiating phase' pending known proposed session length =>
      obtain ⟨-, rfl, rfl⟩ := Phase.negotiating.inj (phase.symm.trans phase')
      obtain ⟨chooses, -⟩ := sound.offers _ _ _ phase
      obtain ⟨completion, advanced, outcome⟩ := complete_advance completed
      have moved : Duplex.step (selectLoop proposals true) (selectLoop offered false) (before.sides coro) (.right count) =
          some { left := before.peer, right := next, toRight := toListener, toLeft := toPeer } :=
        Option.map_eq_some_iff.mpr ⟨_, completed, rfl⟩
      exact @served_of_settle { before with toListener, toPeer } _ _ _ _ _ _ _
        (StreamDispatcher.chooses_advance chooses (outcome _) advanced) known proposed (session.snoc moved)
        (by rw [List.length_append, length]; rfl)
  | input input =>
    obtain ⟨other, moved⟩ := Option.ite_none_left_eq_some.mp taken
    obtain ⟨listener, stepped, rfl⟩ := Option.map_eq_some_iff.mp moved
    obtain ⟨grown, log⟩ := StreamDispatcher.grown_step stepped
    cases served with
    | waiting awaits session =>
      rcases StreamDispatcher.awaits_step stepped awaits with later | ⟨rest, -, rfl⟩
      · exact .waiting later session
      · exact served_of_received proposed session
    | negotiating phase pending known proposed session length =>
      have other : input.completes = false := by
        rw [phase] at other
        simpa [Phase.stream] using other
      exact .negotiating (StreamDispatcher.phase_step stepped phase other) pending
        (fun name member => grown name (known name member)) proposed session length
    | settled given handled known proposed session length =>
      refine .settled (given.trans log.sublist.countP_le) (fun name same => ?_)
        (fun name member => grown name (known name member)) proposed session length
      obtain ⟨protocol, member⟩ := handled name same
      exact ⟨protocol, log.subset member⟩

theorem served_of_runs {listener : StreamDispatcher} (reached : StreamDispatcher.Runs inputs listener)
    (awaits : listener.Awaits stream) (proposed : proposal ∈ listener.protocols)
    (run : Runs proposals stream (start proposals listener) events final) :
    (∃ later, StreamDispatcher.Runs (inputs ++ later) final.listener) ∧ proposal ∈ final.listener.protocols ∧
      Served proposals proposal stream final (events.countP Event.moves) := by
  refine run.preserves_history (fun events state =>
    (∃ later, StreamDispatcher.Runs (inputs ++ later) state.listener) ∧ proposal ∈ state.listener.protocols ∧
      Served proposals proposal stream state (events.countP Event.moves)) ?_ ?_
  · exact ⟨⟨[], by rwa [List.append_nil]⟩, proposed, .waiting awaits fun _ => ⟨[], .nil, rfl⟩⟩
  · rintro events event before after ⟨⟨later, ran⟩, proposed, served⟩ taken
    have sound := StreamDispatcher.sound_of_runs ran
    rw [List.countP_append, List.countP_singleton]
    refine ⟨?_, ?_, served.step sound proposed taken⟩
    · rcases listener_step taken with same | ⟨input, stepped⟩
      · exact ⟨later, same ▸ ran⟩
      · exact ⟨later ++ [input], List.append_assoc .. ▸ ran.snoc stepped⟩
    · rcases listener_step taken with same | ⟨input, stepped⟩
      · rwa [same]
      · exact (StreamDispatcher.grown_step stepped).1 proposal proposed

/-- A session in which the responder offers the proposal moves its bytes and those of the answer, twice each. -/
theorem length_le_of_session {others supported : List ProtocolName} {turns : List Turn}
    {sides : Duplex StreamError ℕ ℕ ProtocolName} (proposes : Names (proposal :: others)) (supports : Names supported)
    (proposed : proposal ∈ supported) (session : SessionRuns (proposal :: others) supported true turns sides) :
    turns.length ≤ 4 * (hello true ++ frame proposal).length := by
  have bound := (Nat.le_add_right _ _).trans (session.length_le.trans (explained proposes supports session).progress_le)
  simp only [initiatorScript, responderScript, secondProposal, answer, if_pos proposed, Option.map_none, Option.getD_none,
    List.append_nil] at bound
  omega

/-- Once nobody can move, both sides have the proposal. -/
theorem returned_of_stuck {others supported : List ProtocolName} {turns : List Turn}
    {sides : Duplex StreamError ℕ ℕ ProtocolName} (proposes : Names (proposal :: others)) (supports : Names supported)
    (proposed : proposal ∈ supported) (session : SessionRuns (proposal :: others) supported true turns sides)
    (stuck : Duplex.Stuck (selectLoop (proposal :: others) true) (selectLoop supported false) sides) :
    sides.left = returned proposal ∧ sides.right = returned proposal := by
  obtain ⟨left, -, right⟩ := (explained proposes supports session).settled stuck
  have notNA : proposal ≠ kNA := (proposes.2 proposal (by simp)).2.1
  exact ⟨by simpa [reaction, answer, proposed, notNA] using left, right proposed⟩

theorem peer_stuck {right : CoroOutcome (ℕ ⊕ ProtocolName)}
    (still : ∀ count, state.step proposals stream (.peer count) = none) (supported : List ProtocolName) (count : ℕ) :
    Duplex.step (selectLoop proposals true) (selectLoop supported false) (state.sides right) (.left count) = none := by
  have none := Option.map_eq_none_iff.mp (still count)
  exact Option.map_eq_none_iff.mpr none

theorem serve_stuck (still : ∀ count, state.step proposals stream (.serve count) = none)
    (phase : state.listener.phase = .negotiating stream offered coro) (count : ℕ) :
    Duplex.step (selectLoop proposals true) (selectLoop offered false) (state.sides coro) (.right count) = none := by
  have none := still count
  simp only [step, phase, if_true] at none
  exact Option.map_eq_none_iff.mpr (Option.map_eq_none_iff.mp none)

/-- A peer opens a stream and proposes a protocol that has a handler. Whatever else happens to the listener, the two sides
move a bounded number of times; once the stream was taken from the channel and nobody can move on it, the peer has its
protocol, and the stream was handed over to the first handler of it. -/
theorem opened_stream_handled {listener : StreamDispatcher} {others : List ProtocolName} {protocol : ProtocolPtr}
    (reached : StreamDispatcher.Runs inputs listener) (awaits : listener.Awaits stream)
    (proposes : Names (proposal :: others)) (served : StreamDispatcher.registrant inputs proposal = some protocol)
    (run : Runs (proposal :: others) stream (start (proposal :: others) listener) events final)
    (supports : Names final.listener.protocols.getSupportedProtocols) :
    (∃ later, StreamDispatcher.Runs (inputs ++ later) final.listener) ∧
      events.countP Event.moves ≤ 4 * (hello true ++ frame proposal).length ∧
      (final.Quiet (proposal :: others) stream →
        final.peer = returned proposal ∧ .handled stream proposal protocol ∈ final.listener.log) := by
  have found : listener.protocols.lookup proposal = some protocol :=
    ((StreamDispatcher.sound_of_runs reached).underway.registered proposal).trans served
  obtain ⟨⟨later, ran⟩, offers, stage⟩ := served_of_runs reached awaits (AList.lookup_isSome.mp (by rw [found]; rfl)) run
  have first : StreamDispatcher.registrant (inputs ++ later) proposal = some protocol :=
    StreamDispatcher.registrant_of_some served
  -- the names that were offered are still registered
  have names {offered : List ProtocolName} (proposed : proposal ∈ offered)
      (known : ∀ name ∈ offered, name ∈ final.listener.protocols) : Names offered :=
    ⟨List.ne_nil_of_mem proposed, fun name member => supports.2 name (AList.mem_keys.mp (known name member))⟩
  refine ⟨⟨later, ran⟩, ?_, fun quiet => ?_⟩
  · cases stage with
    | waiting awaits session =>
      obtain ⟨turns, session, length⟩ := session final.listener.protocols.getSupportedProtocols
      exact length ▸ length_le_of_session proposes supports (AList.mem_keys.mp offers) session
    | negotiating phase pending known proposed session length =>
      exact length ▸ length_le_of_session proposes (names proposed known) proposed session
    | settled given handled known proposed session length =>
      exact length ▸ length_le_of_session proposes (names proposed known) proposed session
  · cases stage with
    | waiting awaits session => exact absurd awaits quiet.taken
    | @negotiating offered coro turns phase pending known proposed session length =>
      have stuck : Duplex.Stuck (selectLoop (proposal :: others) true) (selectLoop offered false) (final.sides coro)
        | .left count => peer_stuck quiet.peer offered count
        | .right count => serve_stuck quiet.serve phase count
      exact absurd (returned_of_stuck proposes (names proposed known) proposed session stuck).2 (pending _)
    | @settled offered result turns given handled known proposed session length =>
      have stuck : Duplex.Stuck (selectLoop (proposal :: others) true) (selectLoop offered false)
          (final.sides (.ret result))
        | .left count => peer_stuck quiet.peer offered count
        | .right count => rfl
      obtain ⟨left, right⟩ := returned_of_stuck proposes (names proposed known) proposed session stuck
      obtain ⟨other, member⟩ := handled proposal (Coro.ret.inj right)
      have same := (StreamDispatcher.sound_of_runs ran).underway.handled stream proposal other member
      exact ⟨left, Option.some.inj (first.symm.trans same) ▸ member⟩

/-- The peer's negotiation and the listener's coroutine have ended. -/
def finished (state : Opening) : Bool :=
  match state.peer, state.listener.phase with
  | .ret _, .ended => true
  | _, _ => false

theorem quiet_of_finished (finished : state.finished = true) (taken : ¬ state.listener.Awaits stream) :
    state.Quiet proposals stream := by
  unfold Opening.finished at finished
  split at finished
  · next peer phase =>
    refine ⟨taken, fun count => ?_, fun count => ?_⟩
    · simp only [step, peer, complete, Option.map_none]
    · simp only [step, phase]
  · cases finished

/-- A listener with one protocol, and a peer that opens a stream and proposes it; the connection closes meanwhile. -/
def oneStream : List Event :=
  [.peer (hello true).length, .input .start, .input .onStream, .input .receive, .peer (frame (ascii ['/', 'a'])).length,
    .serve (hello true).length, .serve 1, .serve ((hello true).length - 1), .input .onClose, .serve 1,
    .serve ((frame (ascii ['/', 'a'])).length - 1), .serve (frame (ascii ['/', 'a'])).length, .peer 1,
    .peer ((hello true).length - 1), .peer 1, .peer ((frame (ascii ['/', 'a'])).length - 1)]

/-- Both sides come to an end, and the stream is handed over. -/
theorem opened_stream_handled_single : ∃ final, Runs [ascii ['/', 'a']] 0
    (start [ascii ['/', 'a']] { protocols := Protocols.listenProtocol [ascii ['/', 'a']] 7 ∅ }) oneStream final ∧
    final.Quiet [ascii ['/', 'a']] 0 ∧ final.peer = returned (ascii ['/', 'a']) ∧
    .handled 0 (ascii ['/', 'a']) 7 ∈ final.listener.log := by
  have names : Names [ascii ['/', 'a']] := by decide
  have reached : StreamDispatcher.Runs [.listenProtocol [ascii ['/', 'a']] 7]
      { protocols := Protocols.listenProtocol [ascii ['/', 'a']] 7 ∅ } := .of_foldlM rfl
  have followed : (oneStream.foldlM (step [ascii ['/', 'a']] 0) (start [ascii ['/', 'a']]
      { protocols := Protocols.listenProtocol [ascii ['/', 'a']] 7 ∅ })).map
      (fun final => (final.finished, final.listener.arrived, final.listener.streamSignal.count (.ok 0),
        final.listener.protocols.getSupportedProtocols)) = some (true, 1, 0, [ascii ['/', 'a']]) := by decide +kernel
  obtain ⟨final, followed, same⟩ := Option.map_eq_some_iff.mp followed
  simp only [Prod.mk.injEq, List.count_eq_zero] at same
  obtain ⟨finished, arrived, taken, supported⟩ := same
  have run : Runs _ 0 _ oneStream final := .of_foldlM followed
  have quiet : final.Quiet [ascii ['/', 'a']] 0 :=
    quiet_of_finished finished (not_or.mpr ⟨by omega, taken⟩)
  obtain ⟨-, -, settled⟩ := opened_stream_handled reached (.inl (Nat.le_refl 0)) names rfl run (supported ▸ names)
  exact ⟨final, run, quiet, settled quiet⟩

end Opening

end Libp2p.Network
