import Libp2p.Library.Run
import Libp2p.Network.ListenerManager
import Libp2p.Network.Routing

/-! # Inbound streams of a connection

A coroutine takes the streams of a connection one after another from the connection's channel, negotiates a protocol on
each with the names that have a handler at that time, and hands the stream over or resets it. The remote peer decides
what negotiation reads, the stream how it is cut, and both whether it fails; handlers may be registered meanwhile. When
the connection closes, the channel gets an error after the streams that wait there.
-/

namespace Libp2p.Network

open Library Multiselect

/-- Stream objects of one connection, in the order of their arrival. -/
abbrev StreamPtr := ℕ

namespace StreamDispatcher

/-- Where the coroutine is. -/
inductive Phase where
  | spawned
  | accepting
  | negotiating (stream : StreamPtr) (offered : List ProtocolName) (coro : CoroOutcome (ℕ ⊕ ProtocolName))
  | ended
  | thrown

inductive Report where
  | handled (stream : StreamPtr) (name : ProtocolName) (protocol : ProtocolPtr)
  | reset (stream : StreamPtr)
  | connectionClosed
deriving DecidableEq

inductive Input where
  | listenProtocol (ids : List ProtocolName) (protocol : ProtocolPtr)
  | onStream
  | onClose
  | start
  | receive
  | complete (completion : Coro.Completion StreamError)

end StreamDispatcher

open StreamDispatcher (Phase Report Input)

/-- The registered protocols, a connection with its channel, and the coroutine that serves it. -/
structure StreamDispatcher where
  protocols : Protocols := ∅
  streamSignal : List (Except QuicError StreamPtr) := []
  closed : Bool := false
  phase : Phase := .spawned
  arrived : ℕ := 0
  log : List Report := []

namespace StreamDispatcher

def record (report : Report) (state : StreamDispatcher) : StreamDispatcher :=
  { state with log := report :: state.log }

/-- The test at the top of the loop; behind the loop the connection manager is told. -/
def loopTop (state : StreamDispatcher) : StreamDispatcher :=
  if state.closed then { state with phase := .ended, log := .connectionClosed :: state.log }
  else { state with phase := .accepting }

/-- Hand the stream to the handler of its protocol. -/
def handle (stream : StreamPtr) (name : ProtocolName) (state : StreamDispatcher) : StreamDispatcher :=
  match state.protocols.getProtocol name with
  | .ok protocol => state.record (.handled stream name protocol)
  | .error _ => state.record (.reset stream)

/-- What follows the result of the negotiation. An exception leaves the coroutine; the stream goes with it, and its
destructor resets it. -/
def conclude (stream : StreamPtr) (result : Except StreamError (ℕ ⊕ ProtocolName)) (state : StreamDispatcher) :
    StreamDispatcher :=
  match result with
  | .ok (.inr name) => (state.handle stream name).loopTop
  | .error .badAccess => { state.record (.reset stream) with phase := .thrown }
  | _ => (state.record (.reset stream)).loopTop

/-- Suspend with the negotiation, or go on with its result. -/
def settle (stream : StreamPtr) (offered : List ProtocolName) (coro : CoroOutcome (ℕ ⊕ ProtocolName))
    (state : StreamDispatcher) : StreamDispatcher :=
  match coro with
  | .ret result => state.conclude stream result
  | _ => { state with phase := .negotiating stream offered coro }

/-- An item from the channel. -/
def onItem (item : Except QuicError StreamPtr) (state : StreamDispatcher) : StreamDispatcher :=
  match item with
  | .error _ => state.loopTop
  | .ok stream =>
    let offered := state.protocols.getSupportedProtocols
    if offered = [] then (state.record (.reset stream)).loopTop
    else state.settle stream offered (selectOneOf offered false true)

/-- One event; `none` where it cannot happen. -/
def step (state : StreamDispatcher) : Input → Option StreamDispatcher
  | .listenProtocol ids protocol => some { state with protocols := state.protocols.listenProtocol ids protocol }
  | .onStream =>
    if state.closed then none
    else some { state with streamSignal := state.streamSignal ++ [.ok state.arrived], arrived := state.arrived + 1 }
  | .onClose =>
    if state.closed then none
    else some { state with closed := true, streamSignal := state.streamSignal ++ [.error .connClosed] }
  | .start =>
    match state.phase with
    | .spawned => some state.loopTop
    | _ => none
  | .receive =>
    match state.phase, state.streamSignal with
    | .accepting, item :: rest => some ({ state with streamSignal := rest }.onItem item)
    | _, _ => none
  | .complete completion =>
    match state.phase with
    | .negotiating stream offered coro =>
      -- the operations of a stream return their failures and throw nothing
      if completion = .failed .badAccess then none
      else (advance (selectLoop offered false) coro completion).map fun coro => state.settle stream offered coro
    | _ => none

abbrev Runs : List Input → StreamDispatcher → Prop :=
  Run (fun before event after => before.step event = some after) {}

/-- The handler that an event registers for a name. -/
def Input.registers (name : ProtocolName) : Input → Option ProtocolPtr
  | .listenProtocol ids protocol => if name ∈ ids then some protocol else none
  | _ => none

/-- The first handler that was registered for a name. -/
def registrant (events : List Input) (name : ProtocolName) : Option ProtocolPtr :=
  events.findSome? (Input.registers name)

/-- The stream was given to a handler or reset. -/
def Report.Settles (stream : StreamPtr) : Report → Prop
  | .handled other _ _ => other = stream
  | .reset other => other = stream
  | .connectionClosed => False

instance (stream : StreamPtr) : DecidablePred (Report.Settles stream)
  | .handled other _ _ => inferInstanceAs (Decidable (other = stream))
  | .reset other => inferInstanceAs (Decidable (other = stream))
  | .connectionClosed => inferInstanceAs (Decidable False)

/-- The stream that is being negotiated. -/
def Phase.stream : Phase → Option StreamPtr
  | .negotiating stream _ _ => some stream
  | _ => none

/-- How often the stream was given to a handler or reset. -/
def settled (state : StreamDispatcher) (stream : StreamPtr) : ℕ :=
  state.log.countP (Report.Settles stream)

/-- In how many places a stream is. -/
def places (state : StreamDispatcher) (stream : StreamPtr) : ℕ :=
  state.streamSignal.count (.ok stream) + (if state.phase.stream = some stream then 1 else 0) + state.settled stream

/-- How often the connection manager was told that the connection is closed. -/
def announcements (state : StreamDispatcher) : ℕ := state.log.count .connectionClosed

/-- The coroutine has nothing to do until something arrives, and no exception has left it. -/
def Quiet (state : StreamDispatcher) : Prop :=
  match state.phase with
  | .accepting => state.streamSignal = []
  | .ended => True
  | _ => False

variable {events : List Input} {event : Input} {state before after : StreamDispatcher} {stream : StreamPtr}
  {offered : List ProtocolName} {coro : CoroOutcome (ℕ ⊕ ProtocolName)} {hand : Option StreamPtr}

/-- What each input does, and when. -/
inductive Steps (before : StreamDispatcher) : Input → StreamDispatcher → Prop
  | listenProtocol (ids : List ProtocolName) (protocol : ProtocolPtr) : Steps before (.listenProtocol ids protocol)
      { before with protocols := before.protocols.listenProtocol ids protocol }
  | onStream (opened : ¬ before.closed) : Steps before .onStream
      { before with streamSignal := before.streamSignal ++ [.ok before.arrived], arrived := before.arrived + 1 }
  | onClose (opened : ¬ before.closed) : Steps before .onClose
      { before with closed := true, streamSignal := before.streamSignal ++ [.error .connClosed] }
  | start (spawned : before.phase = .spawned) : Steps before .start before.loopTop
  | receive {item : Except QuicError StreamPtr} {rest : List (Except QuicError StreamPtr)}
      (accepting : before.phase = .accepting) (pending : before.streamSignal = item :: rest) :
      Steps before .receive ({ before with streamSignal := rest }.onItem item)
  | complete {completion : Coro.Completion StreamError} {stream : StreamPtr} {offered : List ProtocolName}
      {coro next : CoroOutcome (ℕ ⊕ ProtocolName)} (negotiating : before.phase = .negotiating stream offered coro)
      (outcome : completion ≠ .failed .badAccess)
      (advanced : advance (selectLoop offered false) coro completion = some next) :
      Steps before (.complete completion) (before.settle stream offered next)

theorem steps_of_step (taken : before.step event = some after) : before.Steps event after := by
  cases event with
  | listenProtocol ids protocol =>
    obtain rfl := Option.some.inj taken
    exact .listenProtocol ids protocol
  | onStream =>
    obtain ⟨opened, ⟨⟩⟩ := Option.ite_none_left_eq_some.mp taken
    exact .onStream opened
  | onClose =>
    obtain ⟨opened, ⟨⟩⟩ := Option.ite_none_left_eq_some.mp taken
    exact .onClose opened
  | start =>
    simp only [step] at taken
    split at taken
    · next spawned =>
      obtain rfl := Option.some.inj taken
      exact .start spawned
    · cases taken
  | receive =>
    simp only [step] at taken
    split at taken
    · next item rest accepting pending =>
      obtain rfl := Option.some.inj taken
      exact .receive accepting pending
    · cases taken
  | complete completion =>
    simp only [step] at taken
    split at taken
    · next stream offered coro negotiating =>
      obtain ⟨outcome, moved⟩ := Option.ite_none_left_eq_some.mp taken
      obtain ⟨next, advanced, rfl⟩ := Option.map_eq_some_iff.mp moved
      exact .complete negotiating outcome advanced
    · cases taken

theorem registrant_snoc (name : ProtocolName) :
    registrant (events ++ [event]) name = (registrant events name).or (event.registers name) := by
  rw [registrant, List.findSome?_append, List.findSome?_singleton]
  rfl

/-- Registering more handlers changes no first one. -/
theorem registrant_of_some {more : List Input} {name : ProtocolName} {protocol : ProtocolPtr}
    (first : registrant events name = some protocol) : registrant (events ++ more) name = some protocol := by
  rw [registrant] at first ⊢
  rw [List.findSome?_append, first]
  rfl

/-- The negotiation returns one of the names it was given, and throws only for one that cannot be framed. -/
def Chooses (offered : List ProtocolName) (coro : CoroOutcome (ℕ ⊕ ProtocolName)) : Prop :=
  coro.Yields (fun failure => failure = .badAccess → ∃ name ∈ offered, ¬ Framable name)
    fun result => ∀ name, result = .inr name → name ∈ offered

theorem chooses_of_trivial {next : ℕ ⊕ ProtocolName} (none : ∀ name, next ≠ .inr name) :
    Chooses offered (pure next) := fun name same => (none name same).elim

theorem chooses_responderLoop (i : ℕ) : Chooses offered (responderLoop offered i) := by
  unfold responderLoop
  refine (yields_read1 fun _ other same => absurd same other).bind fun name _ => ?_
  split_ifs with member
  · exact (yields_write1 (fun _ other same => absurd same other) fun long _ => ⟨name, member, long⟩).bind
      fun _ _ => fun other same => Sum.inr.inj same ▸ member
  · exact (yields_write1 (fun _ other same => absurd same other) fun long => absurd framable_kNA long).bind
      fun _ _ => chooses_of_trivial fun _ => Sum.inl_ne_inr

theorem chooses_selectOneOf : Chooses offered (selectOneOf offered false true) := by
  have other : ∀ failure : StreamError, failure ≠ .badAccess → failure = .badAccess → ∃ name ∈ offered, ¬ Framable name :=
    fun _ other same => absurd same other
  refine yields_unroll _ chooses_responderLoop ?_
  by_cases none : offered = []
  · rw [selectPrologue, if_pos none]
    exact other _ (by decide)
  · rw [selectPrologue, if_neg none]
    refine (yields_write1 other fun long => absurd framable_kProtocolId long).bind fun _ _ =>
      (yields_read1 other).bind fun protocol _ => ?_
    split_ifs
    · exact other _ (by decide)
    · exact chooses_of_trivial fun _ => Sum.inl_ne_inr

theorem chooses_advance {completion : Coro.Completion StreamError} {next : CoroOutcome (ℕ ⊕ ProtocolName)}
    (chooses : Chooses offered coro) (outcome : completion ≠ .failed .badAccess)
    (advanced : advance (selectLoop offered false) coro completion = some next) : Chooses offered next := by
  have yields := yields_advance (selectLoop offered false) chooses_responderLoop chooses advanced
  cases completion with
  | failed failure =>
    rw [yields]
    exact fun same => absurd (congrArg Coro.Completion.failed same) outcome
  | _ => exact yields

section Invariant

/-- The coroutine is on its way with the stream in `hand`, if any. -/
structure Underway (events : List Input) (hand : Option StreamPtr) (state : StreamDispatcher) : Prop where
  registered : ∀ name, state.protocols.lookup name = registrant events name
  handled : ∀ stream name protocol, .handled stream name protocol ∈ state.log → registrant events name = some protocol
  placed : ∀ stream, state.streamSignal.count (.ok stream) + (if hand = some stream then 1 else 0) +
    state.settled stream = if stream < state.arrived then 1 else 0

/-- What is true between two inputs. -/
structure Sound (events : List Input) (state : StreamDispatcher) : Prop where
  underway : Underway events state.phase.stream state
  offers : ∀ stream offered coro, state.phase = .negotiating stream offered coro →
    Chooses offered coro ∧ ∀ name ∈ offered, name ∈ state.protocols
  waking : state.closed → state.phase = .accepting → .error .connClosed ∈ state.streamSignal
  announced : (state.phase = .ended ∧ state.closed ∧ state.announcements = 1) ∨
    (state.phase ≠ .ended ∧ state.announcements = 0)
  thrown : state.phase = .thrown → ∃ name ∈ state.protocols, ¬ Framable name

theorem countP_connectionClosed (log : List Report) (stream : StreamPtr) :
    (Report.connectionClosed :: log).countP (Report.Settles stream) = log.countP (Report.Settles stream) :=
  List.countP_cons_of_neg fun settles => of_decide_eq_true settles

theorem Underway.loopTop (underway : Underway events none state) (silent : state.announcements = 0) :
    Sound events state.loopTop := by
  unfold StreamDispatcher.loopTop
  split_ifs with closed
  · refine ⟨⟨underway.registered, ?_, ?_⟩, fun _ _ _ => nofun, fun _ => nofun, .inl ⟨rfl, closed, ?_⟩, nofun⟩
    · intro stream name protocol member
      exact underway.handled stream name protocol ((List.mem_cons.mp member).resolve_left (by simp))
    · intro stream
      rw [settled, countP_connectionClosed]
      exact underway.placed stream
    · simpa [announcements] using silent
  · exact ⟨⟨underway.registered, underway.handled, underway.placed⟩, fun _ _ _ => nofun,
      fun also => absurd also closed, .inr ⟨nofun, silent⟩, nofun⟩

/-- The stream in hand is given away. -/
theorem Underway.record {report : Report} (underway : Underway events (some stream) state)
    (settles : ∀ other, report.Settles other ↔ other = stream)
    (handled : ∀ other name protocol, report = .handled other name protocol → registrant events name = some protocol) :
    Underway events none (state.record report) := by
  refine ⟨underway.registered, fun other name protocol member => ?_, fun other => ?_⟩
  · rcases List.mem_cons.mp member with same | earlier
    · exact handled other name protocol same.symm
    · exact underway.handled other name protocol earlier
  · have placed := underway.placed other
    rw [settled] at placed
    rw [settled, StreamDispatcher.record, List.countP_cons]
    simp only [settles, Option.some.injEq, reduceCtorEq, if_false, decide_eq_true_eq, eq_comm (a := stream)] at placed ⊢
    omega

theorem announcements_record {report : Report} (other : report ≠ .connectionClosed) :
    (state.record report).announcements = state.announcements := by
  rw [announcements, StreamDispatcher.record, List.count_cons_of_ne other]
  rfl

theorem Underway.reset (underway : Underway events (some stream) state) (silent : state.announcements = 0) :
    Sound events (state.record (.reset stream)).loopTop :=
  Underway.loopTop (underway.record (fun _ => eq_comm) (by simp)) ((announcements_record (by simp)).trans silent)

/-- An exception takes the coroutine down, and the stream in hand with it. -/
theorem Underway.throw (underway : Underway events (some stream) state) (silent : state.announcements = 0)
    (unframable : ∃ name ∈ state.protocols, ¬ Framable name) :
    Sound events { state.record (.reset stream) with phase := .thrown } := by
  have given : Underway events none (state.record (.reset stream)) := underway.record (fun _ => eq_comm) (by simp)
  exact ⟨⟨given.registered, given.handled, given.placed⟩, fun _ _ _ => nofun, fun _ => nofun,
    .inr ⟨nofun, (announcements_record (by simp)).trans silent⟩, fun _ => unframable⟩

/-- A name with a handler goes to the handler that was registered first. -/
theorem Underway.handle {name : ProtocolName} (underway : Underway events (some stream) state)
    (silent : state.announcements = 0) (member : name ∈ state.protocols) :
    Sound events (state.handle stream name).loopTop := by
  obtain ⟨protocol, found⟩ := Option.isSome_iff_exists.mp (AList.lookup_isSome.mpr member)
  rw [StreamDispatcher.handle, Protocols.getProtocol_of_lookup found]
  refine Underway.loopTop (underway.record (fun _ => eq_comm) ?_) ((announcements_record (by simp)).trans silent)
  rintro other name' protocol' ⟨⟩
  exact (underway.registered name).symm.trans found

theorem Underway.settle (underway : Underway events (some stream) state) (silent : state.announcements = 0)
    (chooses : Chooses offered coro) (known : ∀ name ∈ offered, name ∈ state.protocols) :
    Sound events (state.settle stream offered coro) := by
  unfold StreamDispatcher.settle
  split
  · next result =>
    unfold StreamDispatcher.conclude
    split
    · next name => exact underway.handle silent (known name (chooses name rfl))
    · obtain ⟨name, member, long⟩ := chooses rfl
      exact underway.throw silent ⟨name, known name member, long⟩
    · exact underway.reset silent
  · refine ⟨⟨underway.registered, underway.handled, underway.placed⟩, ?_, fun _ => nofun, .inr ⟨nofun, silent⟩, nofun⟩
    rintro _ _ _ ⟨⟩
    exact ⟨chooses, known⟩

/-- The coroutine takes the first item of the channel. -/
theorem Sound.receive {item : Except QuicError StreamPtr} {rest : List (Except QuicError StreamPtr)}
    (sound : Sound events state) (accepting : state.phase = .accepting) (pending : state.streamSignal = item :: rest) :
    Sound events ({ state with streamSignal := rest }.onItem item) := by
  obtain ⟨⟨registered, handled, placed⟩, -, -, announced, -⟩ := sound
  have silent := (announced.resolve_left fun ended => nomatch accepting.symm.trans ended.1).2
  cases item with
  | error failure =>
    refine Underway.loopTop ⟨registered, handled, fun stream => ?_⟩ silent
    simpa [pending, accepting, Phase.stream, settled] using placed stream
  | ok stream =>
    have underway : Underway events (some stream) { state with streamSignal := rest } := by
      refine ⟨registered, handled, fun other => ?_⟩
      have placed := placed other
      rw [pending, List.count_cons, accepting] at placed
      simp only [Phase.stream, reduceCtorEq, if_false, beq_iff_eq, Except.ok.injEq, Option.some.injEq] at placed ⊢
      simp only [settled] at placed ⊢
      omega
    simp only [onItem]
    split_ifs
    · exact underway.reset silent
    · exact underway.settle silent chooses_selectOneOf fun name member => AList.mem_keys.mpr member

theorem sound_initial : Sound [] {} :=
  ⟨⟨fun _ => rfl, fun _ _ _ => nofun, fun _ => by simp [settled, Phase.stream]⟩, fun _ _ _ => nofun, nofun,
    .inr ⟨nofun, rfl⟩, nofun⟩

/-- An input that registers nothing adds nothing to the history. -/
theorem Sound.snoc (sound : Sound events state) (silent : ∀ name, event.registers name = none) :
    Sound (events ++ [event]) state := by
  have same : registrant (events ++ [event]) = registrant events := by
    funext name
    rw [registrant_snoc, silent, Option.or_none]
  obtain ⟨⟨registered, handled, placed⟩, offers, waking, announced, thrown⟩ := sound
  exact ⟨⟨by rwa [same], by rwa [same], placed⟩, offers, waking, announced, thrown⟩

theorem Sound.listenProtocol (ids : List ProtocolName) (protocol : ProtocolPtr) (sound : Sound events state) :
    Sound (events ++ [.listenProtocol ids protocol])
      { state with protocols := state.protocols.listenProtocol ids protocol } := by
  obtain ⟨⟨registered, handled, placed⟩, offers, waking, announced, thrown⟩ := sound
  refine ⟨⟨fun name => ?_, fun stream name protocol member => ?_, placed⟩, fun stream offered coro same => ?_, waking,
    announced, fun gone => ?_⟩
  · rw [Protocols.lookup_listenProtocol, registered, registrant_snoc]
    rfl
  · exact registrant_of_some (handled stream name protocol member)
  · obtain ⟨chooses, known⟩ := offers stream offered coro same
    exact ⟨chooses, fun name member => Protocols.mem_listenProtocol (known name member)⟩
  · obtain ⟨name, member, long⟩ := thrown gone
    exact ⟨name, Protocols.mem_listenProtocol member, long⟩

theorem Sound.onStream (sound : Sound events state) (opened : ¬ state.closed) :
    Sound events { state with
      streamSignal := state.streamSignal ++ [.ok state.arrived], arrived := state.arrived + 1 } := by
  obtain ⟨⟨registered, handled, placed⟩, offers, waking, announced, thrown⟩ := sound
  refine ⟨⟨registered, handled, fun stream => ?_⟩, offers, fun closed => absurd closed opened, announced, thrown⟩
  have placed := placed stream
  rw [settled] at placed ⊢
  rw [List.count_append, List.count_singleton]
  by_cases new : stream = state.arrived
  · subst new
    rw [if_neg (lt_irrefl _)] at placed
    simp only [beq_self_eq_true, if_true, Nat.lt_succ_self]
    omega
  · have other : (Except.ok state.arrived : Except QuicError StreamPtr) ≠ .ok stream := by simpa using Ne.symm new
    have known : stream < state.arrived + 1 ↔ stream < state.arrived :=
      Nat.lt_succ_iff.trans (Ne.le_iff_lt new)
    simpa only [beq_eq_false_iff_ne.mpr other, Bool.false_eq_true, if_false, Nat.add_zero, known] using placed

theorem Sound.onClose (sound : Sound events state) (opened : ¬ state.closed) :
    Sound events { state with closed := true, streamSignal := state.streamSignal ++ [.error .connClosed] } := by
  obtain ⟨⟨registered, handled, placed⟩, offers, -, announced, thrown⟩ := sound
  refine ⟨⟨registered, handled, fun stream => ?_⟩, offers, fun _ _ => by simp, ?_, thrown⟩
  · have placed := placed stream
    simpa [settled] using placed
  · exact .inr (announced.resolve_left fun ended => opened ended.2.1)

theorem Sound.step (sound : Sound events before) (taken : before.step event = some after) :
    Sound (events ++ [event]) after := by
  cases steps_of_step taken with
  | listenProtocol ids protocol => exact sound.listenProtocol ids protocol
  | onStream opened => exact (sound.onStream opened).snoc fun _ => rfl
  | onClose opened => exact (sound.onClose opened).snoc fun _ => rfl
  | start spawned =>
    obtain ⟨underway, -, -, announced, -⟩ := sound
    rw [spawned] at underway announced
    exact (Underway.loopTop underway (announced.resolve_left nofun).2).snoc fun _ => rfl
  | receive accepting pending => exact (sound.receive accepting pending).snoc fun _ => rfl
  | complete negotiating outcome advanced =>
    obtain ⟨underway, offers, -, announced, -⟩ := sound
    obtain ⟨chooses, known⟩ := offers _ _ _ negotiating
    rw [negotiating] at underway announced
    have silent := (announced.resolve_left nofun).2
    exact (underway.settle silent (chooses_advance chooses outcome advanced) known).snoc fun _ => rfl

end Invariant

theorem sound_of_runs (run : Runs events state) : Sound events state :=
  run.preserves_history Sound sound_initial fun _ _ _ _ sound taken => sound.step taken

/-- Whatever the remote peer, the stream and the registrations do: a stream that has arrived waits, is being negotiated,
or was handed over or reset once; what was handed over went to the first handler registered for the negotiated name;
the end of the connection is told once, by a coroutine that is over; an exception leaves the coroutine only where a
registered name is too long to be framed. Whenever the coroutine has nothing left to do, all streams of an open connection
are settled, and of a closed one the end was told. -/
theorem dispatched_once (run : Runs events state) :
    (∀ stream < state.arrived, state.places stream = 1) ∧
      (∀ stream name protocol, .handled stream name protocol ∈ state.log → registrant events name = some protocol) ∧
      state.announcements ≤ 1 ∧ (state.announcements = 1 → state.closed) ∧
      (state.phase = .thrown → ∃ name ∈ state.protocols, ¬ Framable name) ∧
      (state.Quiet →
        if state.closed then state.announcements = 1 else ∀ stream < state.arrived, state.settled stream = 1) := by
  obtain ⟨⟨-, handled, placed⟩, -, waking, announced, thrown⟩ := sound_of_runs run
  have once : ∀ stream < state.arrived, state.places stream = 1 := fun stream present =>
    (placed stream).trans (if_pos present)
  refine ⟨once, handled, ?_, ?_, thrown, fun quiet => ?_⟩
  · rcases announced with ⟨-, -, one⟩ | ⟨-, none⟩ <;> omega
  · rcases announced with ⟨-, closed, -⟩ | ⟨-, none⟩
    · exact fun _ => closed
    · omega
  · unfold Quiet at quiet
    split at quiet
    · next accepting =>
      split_ifs with closed
      · rw [quiet] at waking
        exact absurd (waking closed accepting) List.not_mem_nil
      · intro stream present
        simpa [places, quiet, accepting, Phase.stream] using once stream present
    · next ended =>
      obtain ⟨-, closed, one⟩ := announced.resolve_right fun other => other.1 ended
      rwa [if_pos closed]
    · exact quiet.elim

/-- The bytes of a stream arrive in pieces, one protocol has a handler, and the connection closes after it. -/
def oneStream : List Input :=
  [.listenProtocol [ascii ['/', 'a']] 7, .start, .onStream, .receive, .complete (.wrote (hello true).length),
    .complete (.read ((hello true).take 1)), .complete (.read ((hello true).drop 1)),
    .complete (.read ((frame (ascii ['/', 'a'])).take 1)), .complete (.read ((frame (ascii ['/', 'a'])).drop 1)),
    .complete (.wrote (frame (ascii ['/', 'a'])).length), .onClose, .receive]

/-- The stream goes to that handler, and the end of the connection is told. -/
theorem dispatched_once_single : ∃ state, Runs oneStream state ∧
    state.log = [.connectionClosed, .handled 0 (ascii ['/', 'a']) 7] ∧ state.places 0 = 1 ∧ state.announcements ≤ 1 := by
  have followed : (oneStream.foldlM step {}).map (fun state => (state.log, state.arrived)) =
      some ([.connectionClosed, .handled 0 (ascii ['/', 'a']) 7], 1) := by decide +kernel
  obtain ⟨state, followed, same⟩ := Option.map_eq_some_iff.mp followed
  obtain ⟨log, arrived⟩ := Prod.mk.inj same
  obtain ⟨once, -, few, -⟩ := dispatched_once (.of_foldlM followed)
  exact ⟨state, .of_foldlM followed, log, once 0 (by omega), few⟩

end StreamDispatcher

end Libp2p.Network
