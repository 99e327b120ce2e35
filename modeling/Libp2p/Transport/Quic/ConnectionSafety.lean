import Libp2p.Library.Tokens
import Libp2p.Transport.Quic.Connections

/-! # Handshakes that end once

Every call of `connect` waits in one context or has its result, and a connection that it was given has the peer that it
asked for. What the library reports goes to one place: inbound connections to the engine's channel, streams to the call
that opens one or to the channel of their connection, in the order in which they come.
-/

namespace Libp2p.Transport.Quic.Connections

open Library Network

/-- Where the handler of a call can be: in the engine, or in the context of a connection. -/
inductive Handler where
  | engine
  | conn (ptr : ConnPtr)
deriving DecidableEq, Repr

def waiting (state : Connections) (ptr : ConnPtr) : Option CallPtr :=
  ((state.ctxs ptr).bind ConnCtx.connecting).map Connecting.cb

/-- The calls without a result; one of them may be in hand. -/
def handlers (hand : Option CallPtr) (state : Connections) : Handler → Option CallPtr
  | .engine => hand
  | .conn ptr => state.waiting ptr

/-- The pointers between a context and its object, and what the context holds. -/
structure Fine (state : Connections) (ptr : ConnPtr) : Prop where
  live : (state.ctxs ptr).isSome ↔ state.phase ptr ≠ .closed
  object : ∀ object, state.objects ptr = some object → state.phase ptr ≠ .handshaking ∧
    object.connCtx = if state.phase ptr = .closed then none else some ptr
  back : ∀ ctx, state.ctxs ptr = some ctx → ctx.conn = some ptr ∨ (ctx.conn = none ∧ state.objects ptr = none)
  idle : ∀ ctx, state.ctxs ptr = some ctx → ctx.newStream = none
  waits : ∀ ctx op, state.ctxs ptr = some ctx → ctx.connecting = some op →
    state.phase ptr = .handshaking ∧ state.requests[op.cb]? = some op.peer

/-- The streams with a fate, in the order in which the library opened them. -/
def streamsOf (fate : Fate) (fates : List Fate) : List StreamPtr :=
  (fates.zipIdx.filter fun entry => entry.1 = fate).map Prod.snd

/-- The streams that `newStream` has returned for a connection. -/
def returnedBy (conn : ConnPtr) (newStreams : List (ConnPtr × Except QuicError StreamPtr)) : List StreamPtr :=
  newStreams.filterMap fun entry => if entry.1 = conn then entry.2.toOption else none

/-- The connections that calls were given. -/
def givenIds (results : List (CallPtr × AcceptResult)) : List ConnPtr :=
  results.filterMap fun entry => (entry.2.map Connection.id).toOption

/-- The channel of a connection: what was received and what waits is what was offered, with the closing at the end. -/
structure Channel (state : Connections) (conn : ConnPtr) : Prop where
  fifo : ∀ object, state.objects conn = some object → state.received conn ++ object.streamSignal =
    (streamsOf (.offered conn) state.fates).map .ok ++ if state.phase conn = .closed then [.error .connClosed] else []
  unused : state.phase conn = .handshaking ∨ state.created ≤ conn →
    state.received conn = [] ∧ streamsOf (.offered conn) state.fates = []

/-- The connection that a call was given. -/
structure Given (identity : ConnPtr → Except TlsError PeerId) (state : Connections) (call : CallPtr)
    (connection : Connection) : Prop where
  old : connection.id < state.created
  settled : state.phase connection.id ≠ .handshaking
  asked : state.requests[call]? = some connection.remotePeer
  proved : identity connection.id = .ok connection.remotePeer
  outbound : connection.id ∉ state.inbound

structure Sound (identity : ConnPtr → Except TlsError PeerId) (hand : Option CallPtr) (state : Connections) : Prop where
  fine : ∀ ptr, state.Fine ptr
  fresh : ∀ ptr, state.created ≤ ptr → state.phase ptr = .closed ∧ state.objects ptr = none
  accounted : Accounted (handlers hand state) (state.results.map Prod.fst) state.requests.length
  given : ∀ call connection, (call, .ok connection) ∈ state.results → Given identity state call connection
  distinct : (givenIds state.results).Nodup
  inbound : ∀ ptr ∈ state.inbound, ptr < state.created ∧ state.phase ptr ≠ .handshaking
  once : state.inbound.Nodup
  reported : state.accepted ++ state.connSignal =
    state.inbound.map fun ptr => Network.onHskDone true (identity ptr) ptr
  channel : ∀ conn, state.Channel conn
  returned : ∀ conn, returnedBy conn state.newStreams = streamsOf (.returned conn) state.fates

variable {identity : ConnPtr → Except TlsError PeerId} {state before after : Connections} {ptr conn : ConnPtr}
  {call : CallPtr} {hand : Option CallPtr} {ctx : ConnCtx} {op : Connecting} {connection : Connection}

section Frames

/-- Requests are not forgotten. -/
def Keeps (before after : Connections) : Prop :=
  ∀ (call : CallPtr) (peer : PeerId), before.requests[call]? = some peer → after.requests[call]? = some peer

theorem Keeps.of_eq (same : after.requests = before.requests) : Keeps before after :=
  fun _ _ asked => by rwa [same]

theorem Fine.congr (fine : before.Fine ptr) (phase : after.phase ptr = before.phase ptr)
    (ctxs : after.ctxs ptr = before.ctxs ptr) (objects : after.objects ptr = before.objects ptr)
    (keeps : Keeps before after) : after.Fine ptr := by
  obtain ⟨live, object, back, idle, waits⟩ := fine
  refine ⟨by rw [ctxs, phase, live], by rw [objects, phase]; exact object, by rw [ctxs, objects]; exact back,
    by rw [ctxs]; exact idle, ?_⟩
  rw [ctxs, phase]
  exact fun ctx op allocated connecting => (waits ctx op allocated connecting).imp_right (keeps _ _)

theorem Channel.congr (channel : before.Channel conn) (phase : after.phase conn = before.phase conn)
    (objects : after.objects conn = before.objects conn) (received : after.received conn = before.received conn)
    (fates : streamsOf (.offered conn) after.fates = streamsOf (.offered conn) before.fates)
    (created : before.created ≤ after.created) : after.Channel conn := by
  obtain ⟨fifo, unused⟩ := channel
  rw [← objects, ← received, ← fates, ← phase] at fifo
  rw [← received, ← fates, ← phase] at unused
  exact ⟨fifo, fun early => unused (early.imp_right created.trans)⟩

theorem Given.congr (given : Given identity before call connection) (created : before.created ≤ after.created)
    (phase : after.phase connection.id = before.phase connection.id ∨ after.phase connection.id ≠ .handshaking)
    (keeps : Keeps before after) (inbound : after.inbound = before.inbound) : Given identity after call connection := by
  obtain ⟨old, settled, asked, proved, outbound⟩ := given
  refine ⟨old.trans_le created, ?_, keeps _ _ asked, proved, by rwa [inbound]⟩
  exact phase.elim (fun same => by rwa [same]) id

/-- A held object of a connection that is not closed points to the context, and the context to it. -/
theorem Fine.pointers (fine : state.Fine ptr) {object : QuicConnection} (held : state.objects ptr = some object)
    (opened : state.phase ptr ≠ .closed) :
    object.connCtx = some ptr ∧ ∃ ctx, state.ctxs ptr = some ctx ∧ ctx.conn = some ptr ∧ ctx.newStream = none := by
  obtain ⟨ctx, allocated⟩ := Option.isSome_iff_exists.mp (fine.live.mpr opened)
  refine ⟨(fine.object object held).2.trans (if_neg opened), ctx, allocated, ?_, fine.idle ctx allocated⟩
  refine (fine.back ctx allocated).resolve_right fun none => ?_
  rw [none.2] at held
  cases held

theorem Fine.detached (fine : state.Fine ptr) {object : QuicConnection} (held : state.objects ptr = some object)
    (closed : state.phase ptr = .closed) : object.connCtx = none :=
  (fine.object object held).2.trans (if_pos closed)

/-- What a context's weak pointer leads to. -/
theorem Fine.lock (fine : state.Fine ptr) (allocated : state.ctxs ptr = some ctx) :
    state.lock ctx.conn = (state.objects ptr).map (ptr, ·) := by
  rcases fine.back ctx allocated with points | ⟨points, gone⟩
  · rw [Connections.lock, points, Option.bind_some]
  · rw [Connections.lock, points, gone, Option.bind_none, Option.map_none]

theorem Fine.missing (fine : state.Fine ptr) (closed : state.phase ptr = .closed) : state.ctxs ptr = none := by
  rw [← Option.not_isSome_iff_eq_none, fine.live]
  exact not_not_intro closed

theorem deref_eq (allocated : state.ctxs ptr = some ctx) : state.deref ptr = .ok ctx := by
  rw [deref, allocated]

theorem object_eq {object : QuicConnection} (held : state.objects conn = some object) :
    state.object conn = .ok object := by
  rw [Connections.object, held]

theorem setCtx_setCtx (state : Connections) (ptr : ConnPtr) (first second : Option ConnCtx) :
    (state.setCtx ptr first).setCtx ptr second = state.setCtx ptr second :=
  congrArg (fun ctxs => { state with ctxs }) (Function.update_idem ..)

theorem streamsOf_append (fate other : Fate) (fates : List Fate) : streamsOf fate (fates ++ [other]) =
    streamsOf fate fates ++ if other = fate then [fates.length] else [] := by
  unfold streamsOf
  rw [List.zipIdx_append, List.filter_append, List.map_append]
  split_ifs with same <;> simp [same]

theorem returnedBy_append (conn other : ConnPtr) (newStreams : List (ConnPtr × Except QuicError StreamPtr))
    (result : Except QuicError StreamPtr) : returnedBy conn (newStreams ++ [(other, result)]) =
      returnedBy conn newStreams ++ if other = conn then result.toOption.toList else [] := by
  unfold returnedBy
  rw [List.filterMap_append]
  split_ifs with same <;> cases result <;> simp [same, Except.toOption]

end Frames

section Handlers

theorem handlers_hand (hand other : Option CallPtr) (state : Connections) :
    handlers other state = Function.update (handlers hand state) .engine other := by
  funext place
  cases place <;> rfl

theorem handlers_setCtx (hand : Option CallPtr) {next : Option ConnCtx}
    (changed : after.ctxs = Function.update before.ctxs ptr next) : handlers hand after =
      Function.update (handlers hand before) (.conn ptr) ((next.bind ConnCtx.connecting).map Connecting.cb) := by
  funext place
  cases place with
  | engine => rfl
  | conn other => by_cases same : other = ptr <;> simp [handlers, waiting, changed, same]

theorem handlers_congr (hand : Option CallPtr) (ctxs : after.ctxs = before.ctxs) :
    handlers hand after = handlers hand before := by
  funext place
  cases place with
  | engine => rfl
  | conn other => simp only [handlers, waiting, ctxs]

/-- A context in which nobody waits comes or goes. -/
theorem handlers_quiet (hand : Option CallPtr) {next : Option ConnCtx}
    (changed : after.ctxs = Function.update before.ctxs ptr next) (idle : before.waiting ptr = none)
    (quiet : next.bind ConnCtx.connecting = none) : handlers hand after = handlers hand before := by
  rw [handlers_setCtx hand changed, quiet, Option.map_none, ← idle]
  exact Function.update_eq_self ..

theorem waiting_eq (allocated : state.ctxs ptr = some ctx) : state.waiting ptr = ctx.connecting.map Connecting.cb := by
  rw [waiting, allocated, Option.bind_some]

end Handlers

section Calls

theorem Sound.lt_created (sound : Sound identity hand state) (opened : state.phase ptr ≠ .closed) :
    ptr < state.created :=
  lt_of_not_ge fun fresh => opened (sound.fresh ptr fresh).1

/-- A connection whose handshake is not done was neither given to a call nor reported. -/
theorem Sound.unsettled (sound : Sound identity hand state)
    (early : state.phase ptr = .handshaking ∨ state.created ≤ ptr) :
    ptr ∉ givenIds state.results ∧ ptr ∉ state.inbound := by
  constructor
  · intro member
    obtain ⟨⟨call, result⟩, entry, same⟩ := List.mem_filterMap.mp member
    cases result with
    | error error => cases same
    | ok connection =>
      obtain rfl : connection.id = ptr := Option.some.inj same
      obtain ⟨old, settled, -⟩ := sound.given call connection entry
      exact early.elim settled (not_le_of_gt old)
  · intro member
    obtain ⟨old, settled⟩ := sound.inbound ptr member
    exact early.elim settled (not_le_of_gt old)

/-- A call of `connect` is made. -/
theorem Sound.begin (sound : Sound identity none state) (peer : PeerId) (connecting : Option Connecting) :
    Sound identity (some state.requests.length)
      { state with requests := state.requests ++ [peer], connecting } := by
  obtain ⟨fine, fresh, accounted, given, distinct, inbound, once, reported, channel, returned⟩ := sound
  have keeps : Keeps state { state with requests := state.requests ++ [peer], connecting } := by
    intro call other asked
    exact (List.getElem?_append_left (List.getElem?_eq_some_iff.mp asked).1).trans asked
  refine ⟨fun ptr => (fine ptr).congr rfl rfl rfl keeps, fresh, ?_, fun call connection entry =>
    (given call connection entry).congr le_rfl (.inl rfl) keeps rfl, distinct, inbound, once, reported,
    fun conn => (channel conn).congr rfl rfl rfl rfl le_rfl, returned⟩
  dsimp only
  rw [handlers_hand none, handlers_congr none rfl, List.length_append]
  exact accounted.issue .engine rfl

/-- The call in hand gets its result. -/
theorem Sound.finish (sound : Sound identity (some call) state) (result : AcceptResult) (connecting : Option Connecting)
    (right : ∀ connection, result = .ok connection →
      Given identity state call connection ∧ connection.id ∉ givenIds state.results) :
    Sound identity none ({ state with connecting }.finish call result) := by
  obtain ⟨fine, fresh, accounted, given, distinct, inbound, once, reported, channel, returned⟩ := sound
  refine ⟨fun ptr => (fine ptr).congr rfl rfl rfl (.of_eq rfl), fresh, ?_, fun other connection entry => ?_, ?_, inbound,
    once, reported, fun conn => (channel conn).congr rfl rfl rfl rfl le_rfl, returned⟩
  · rw [handlers_hand (some call)]
    exact accounted.spend .engine rfl
  · rcases List.mem_cons.mp entry with same | entry
    · obtain ⟨rfl, ended⟩ := Prod.mk.inj same
      exact (right connection ended.symm).1.congr le_rfl (.inl rfl) (.of_eq rfl) rfl
    · exact (given other connection entry).congr le_rfl (.inl rfl) (.of_eq rfl) rfl
  · cases result with
    | error error => exact distinct
    | ok connection => exact List.nodup_cons.mpr ⟨(right connection rfl).2, distinct⟩

/-- The handler of a context is taken. -/
theorem Sound.take (sound : Sound identity none state) (allocated : state.ctxs ptr = some ctx)
    (connecting : ctx.connecting = some op) :
    Sound identity (some op.cb) (state.setCtx ptr (some { ctx with connecting := none })) := by
  obtain ⟨fine, fresh, accounted, given, distinct, inbound, once, reported, channel, returned⟩ := sound
  refine ⟨fun other => ?_, fresh, ?_, fun call connection entry =>
    (given call connection entry).congr le_rfl (.inl rfl) (.of_eq rfl) rfl, distinct, inbound, once, reported,
    fun conn => (channel conn).congr rfl rfl rfl rfl le_rfl, returned⟩
  · by_cases same : other = ptr
    · subst same
      obtain ⟨live, object, back, idle, -⟩ := fine other
      have changed : (state.setCtx other (some { ctx with connecting := none })).ctxs other =
        some { ctx with connecting := none } := Function.update_self ..
      rw [allocated] at live
      refine ⟨?_, object, ?_, ?_, ?_⟩
      · rw [changed]
        exact live
      · intro _ found
        rw [changed] at found
        obtain rfl := Option.some.inj found
        exact back ctx allocated
      · intro _ found
        rw [changed] at found
        obtain rfl := Option.some.inj found
        exact idle ctx allocated
      · intro _ _ found waits
        rw [changed] at found
        obtain rfl := Option.some.inj found
        cases waits
    · exact (fine other).congr rfl (Function.update_of_ne same ..) rfl (.of_eq rfl)
  · rw [handlers_hand none, handlers_setCtx none rfl]
    refine accounted.move (.conn ptr) .engine ?_ rfl
    exact (waiting_eq allocated).trans (congrArg _ connecting)

end Calls

section Handshakes

/-- The library makes a connection, for the call in hand if there is one. -/
theorem Sound.arrive {started : Option Connecting} (sound : Sound identity (started.map Connecting.cb) state)
    (asked : ∀ op, started = some op → state.requests[op.cb]? = some op.peer) (connecting : Option Connecting) :
    Sound identity none { state with
      created := state.created + 1
      connecting
      phase := Function.update state.phase state.created (if started.isSome then .handshaking else .ready)
      ctxs := Function.update state.ctxs state.created (some { connecting := started }) } := by
  have unsettled := sound.unsettled (.inr le_rfl)
  obtain ⟨fine, fresh, accounted, given, distinct, inbound, once, reported, channel, returned⟩ := sound
  obtain ⟨closed, gone⟩ := fresh state.created le_rfl
  have missing := (fine state.created).missing closed
  refine ⟨fun other => ?_, fun other new => ?_, ?_, fun call connection entry => ?_, distinct, fun other member => ?_,
    once, reported, fun conn => ?_, returned⟩
  · by_cases same : other = state.created
    · subst same
      have changed : Function.update state.ctxs state.created (some { connecting := started }) state.created =
        some { connecting := started } := Function.update_self ..
      refine ⟨?_, ?_, ?_, ?_, ?_⟩
      · dsimp only
        rw [changed, Function.update_self]
        exact iff_of_true rfl (by split_ifs <;> nofun)
      · intro object found
        rw [gone] at found
        cases found
      · intro _ found
        obtain rfl := Option.some.inj (changed.symm.trans found)
        exact .inr ⟨rfl, gone⟩
      · intro _ found
        obtain rfl := Option.some.inj (changed.symm.trans found)
        rfl
      · intro _ op found waits
        obtain rfl := Option.some.inj (changed.symm.trans found)
        obtain rfl : started = some op := waits
        exact ⟨Function.update_self .., asked op rfl⟩
    · exact (fine other).congr (Function.update_of_ne same ..) (Function.update_of_ne same ..) rfl (.of_eq rfl)
  · dsimp only at new ⊢
    rw [Function.update_of_ne (Nat.ne_of_gt new)]
    exact fresh other (Nat.le_of_succ_le new)
  · rw [handlers_setCtx none rfl, handlers_hand (started.map Connecting.cb)]
    cases started with
    | none =>
      have same : Function.update (Function.update (handlers none state) .engine none) (.conn state.created) none =
          handlers none state := by
        rw [← handlers_hand, Function.update_eq_self_iff, handlers, waiting, missing]
        rfl
      exact (congrArg (fun slots => Accounted slots _ _) same).mpr accounted
    | some op => exact accounted.move .engine (.conn state.created) rfl (by rw [handlers, waiting, missing]; rfl)
  · have elsewhere : connection.id ≠ state.created := Nat.ne_of_lt (given call connection entry).old
    exact (given call connection entry).congr (Nat.le_succ _) (.inl (Function.update_of_ne elsewhere ..)) (.of_eq rfl) rfl
  · obtain ⟨old, settled⟩ := inbound other member
    refine ⟨Nat.lt_succ_of_lt old, ?_⟩
    dsimp only
    rw [Function.update_of_ne (Nat.ne_of_lt old)]
    exact settled
  · by_cases same : conn = state.created
    · subst same
      refine ⟨fun object found => ?_, fun _ => (channel state.created).unused (.inr le_rfl)⟩
      rw [gone] at found
      cases found
    · exact (channel conn).congr (Function.update_of_ne same ..) rfl rfl rfl (Nat.le_succ _)

/-- The phase of one connection, when it goes on to a phase in which its handshake is over. -/
theorem phase_settled (ptr : ConnPtr) (phase : ConnPhase) (later : phase ≠ .handshaking)
    (changed : after.phase = Function.update before.phase ptr phase) (other : ConnPtr) :
    after.phase other = before.phase other ∨ after.phase other ≠ .handshaking := by
  by_cases same : other = ptr
  · subst same
    exact .inr (by rwa [changed, Function.update_self])
  · exact .inl (by rw [changed, Function.update_of_ne same])

/-- A handshake succeeds. -/
theorem Sound.attach (sound : Sound identity hand state) (allocated : state.ctxs ptr = some ctx)
    (quiet : ctx.connecting = none) (unused : state.received ptr = [] ∧ streamsOf (.offered ptr) state.fates = [])
    (initiator : Bool) (peer : PeerId) : Sound identity hand
      { (state.setObject ptr (some { connCtx := some ptr, initiator, peer })).setCtx ptr (some { ctx with conn := some ptr })
        with phase := Function.update state.phase ptr .ready } := by
  have old : ptr < state.created := sound.lt_created ((sound.fine ptr).live.mp (by rw [allocated]; rfl))
  obtain ⟨fine, fresh, accounted, given, distinct, inbound, once, reported, channel, returned⟩ := sound
  let after := { (state.setObject ptr (some { connCtx := some ptr, initiator, peer })).setCtx ptr
    (some { ctx with conn := some ptr }) with phase := Function.update state.phase ptr .ready }
  have ready : after.phase ptr = .ready := Function.update_self ..
  have context : after.ctxs ptr = some { ctx with conn := some ptr } := Function.update_self ..
  have object : after.objects ptr = some { connCtx := some ptr, initiator, peer } := Function.update_self ..
  have settled : ∀ other, after.phase other = state.phase other ∨ after.phase other ≠ .handshaking :=
    phase_settled ptr .ready nofun rfl
  refine ⟨fun other => ?_, fun other new => ?_, ?_, fun call connection entry => ?_, distinct, fun other member => ?_,
    once, reported, fun conn => ?_, returned⟩
  · by_cases same : other = ptr
    · subst same
      refine ⟨?_, ?_, ?_, ?_, ?_⟩
      · rw [context, ready]
        exact iff_of_true rfl nofun
      · intro _ found
        obtain rfl := Option.some.inj (object.symm.trans found)
        rw [ready]
        exact ⟨nofun, (if_neg nofun).symm⟩
      · intro _ found
        obtain rfl := Option.some.inj (context.symm.trans found)
        exact .inl rfl
      · intro _ found
        obtain rfl := Option.some.inj (context.symm.trans found)
        exact (fine other).idle ctx allocated
      · intro _ op found waits
        obtain rfl := Option.some.inj (context.symm.trans found)
        rw [quiet] at waits
        cases waits
    · exact (fine other).congr (Function.update_of_ne same ..) (Function.update_of_ne same ..)
        (Function.update_of_ne same ..) (.of_eq rfl)
  · have elsewhere : other ≠ ptr := Nat.ne_of_gt (old.trans_le new)
    obtain ⟨closed, gone⟩ := fresh other new
    exact ⟨(Function.update_of_ne elsewhere ..).trans closed, (Function.update_of_ne elsewhere ..).trans gone⟩
  · have idle : state.waiting ptr = none := (waiting_eq allocated).trans (by rw [quiet]; rfl)
    have same : handlers hand after = handlers hand state := @handlers_quiet state after ptr hand _ rfl idle quiet
    exact (congrArg (fun slots => Accounted slots _ _) same).mpr accounted
  · exact (given call connection entry).congr le_rfl (settled connection.id) (.of_eq rfl) rfl
  · exact ⟨(inbound other member).1, (settled other).elim (fun same => same ▸ (inbound other member).2) id⟩
  · by_cases same : conn = ptr
    · subst same
      obtain ⟨received, offered⟩ := unused
      refine ⟨fun _ found => ?_, fun early => ?_⟩
      · obtain rfl := Option.some.inj (object.symm.trans found)
        rw [ready]
        dsimp only [setCtx, setObject]
        rw [received, offered]
        rfl
      · rw [ready] at early
        exact early.elim nofun fun new => absurd old (not_lt_of_ge new)
    · exact (channel conn).congr (Function.update_of_ne same ..) (Function.update_of_ne same ..) rfl rfl le_rfl

/-- A handshake fails, and the library is asked to close the connection. -/
theorem Sound.fail (sound : Sound identity hand state) (allocated : state.ctxs ptr = some ctx)
    (quiet : ctx.connecting = none) (gone : state.objects ptr = none) :
    Sound identity hand { state with
      closing := ptr :: state.closing, phase := Function.update state.phase ptr .ready } := by
  have living : state.phase ptr ≠ .closed := (sound.fine ptr).live.mp (by rw [allocated]; rfl)
  have old : ptr < state.created := sound.lt_created living
  obtain ⟨fine, fresh, accounted, given, distinct, inbound, once, reported, channel, returned⟩ := sound
  let after := { state with closing := ptr :: state.closing, phase := Function.update state.phase ptr .ready }
  have ready : after.phase ptr = .ready := Function.update_self ..
  have settled : ∀ other, after.phase other = state.phase other ∨ after.phase other ≠ .handshaking :=
    phase_settled ptr .ready nofun rfl
  refine ⟨fun other => ?_, fun other new => ?_, accounted, fun call connection entry => ?_, distinct,
    fun other member => ?_, once, reported, fun conn => ?_, returned⟩
  · by_cases same : other = ptr
    · subst same
      obtain ⟨live, -, back, idle, -⟩ := fine other
      refine ⟨?_, fun object found => (nomatch gone.symm.trans found), back, idle, ?_⟩
      · rw [ready]
        exact iff_of_true (live.mpr living) nofun
      · intro _ op found waits
        obtain rfl := Option.some.inj (allocated.symm.trans found)
        rw [quiet] at waits
        cases waits
    · exact (fine other).congr (Function.update_of_ne same ..) rfl rfl (.of_eq rfl)
  · have elsewhere : other ≠ ptr := Nat.ne_of_gt (old.trans_le new)
    obtain ⟨closed, missing⟩ := fresh other new
    exact ⟨(Function.update_of_ne elsewhere ..).trans closed, missing⟩
  · exact (given call connection entry).congr le_rfl (settled connection.id) (.of_eq rfl) rfl
  · exact ⟨(inbound other member).1, (settled other).elim (fun same => same ▸ (inbound other member).2) id⟩
  · by_cases same : conn = ptr
    · subst same
      refine ⟨fun object found => (nomatch gone.symm.trans found), fun early => ?_⟩
      rw [ready] at early
      exact early.elim nofun fun new => absurd old (not_lt_of_ge new)
    · exact (channel conn).congr (Function.update_of_ne same ..) rfl rfl rfl le_rfl

/-- An inbound handshake is reported. -/
theorem Sound.report (sound : Sound identity hand state) (old : ptr < state.created)
    (settled : state.phase ptr ≠ .handshaking) (ungiven : ptr ∉ givenIds state.results) (new : ptr ∉ state.inbound) :
    Sound identity hand { state with
      inbound := state.inbound ++ [ptr]
      connSignal := state.connSignal ++ [Network.onHskDone true (identity ptr) ptr] } := by
  obtain ⟨fine, fresh, accounted, given, distinct, inbound, once, reported, channel, returned⟩ := sound
  refine ⟨fun other => (fine other).congr rfl rfl rfl (.of_eq rfl), fresh, accounted, fun call connection entry => ?_,
    distinct, fun other member => ?_, ?_, ?_, fun conn => (channel conn).congr rfl rfl rfl rfl le_rfl, returned⟩
  · obtain ⟨before, done, asked, proved, outbound⟩ := given call connection entry
    refine ⟨before, done, asked, proved, fun member => ?_⟩
    rcases List.mem_append.mp member with member | member
    · exact outbound member
    · obtain rfl := List.mem_singleton.mp member
      exact ungiven (List.mem_filterMap.mpr ⟨(call, .ok connection), entry, rfl⟩)
  · rcases List.mem_append.mp member with member | member
    · exact inbound other member
    · obtain rfl := List.mem_singleton.mp member
      exact ⟨old, settled⟩
  · exact List.nodup_append.mpr ⟨once, List.nodup_singleton _, fun left first right second same =>
      new (List.mem_singleton.mp second ▸ same ▸ first)⟩
  · dsimp only
    rw [← List.append_assoc, reported, List.map_append, List.map_singleton]

/-- The library closes a connection in whose context nobody waits. -/
theorem Sound.closed (sound : Sound identity hand state) (allocated : state.ctxs ptr = some ctx)
    (quiet : ctx.connecting = none) : Sound identity hand
      ({ state.detach (state.lock ctx.conn) with phase := Function.update state.phase ptr .closed }.setCtx ptr none) := by
  have living : state.phase ptr ≠ .closed := ((sound.fine ptr).live.mp (by rw [allocated]; rfl))
  have old : ptr < state.created := sound.lt_created living
  have detached : state.detach (state.lock ctx.conn) = { state with
      objects := Function.update state.objects ptr ((state.objects ptr).map QuicConnection.onClose) } := by
    rw [(sound.fine ptr).lock allocated]
    cases found : state.objects ptr with
    | none =>
      rw [Option.map_none, Option.map_none, ← found, Function.update_eq_self]
      rfl
    | some object => rfl
  let after := { state with
    objects := Function.update state.objects ptr ((state.objects ptr).map QuicConnection.onClose)
    phase := Function.update state.phase ptr .closed
    ctxs := Function.update state.ctxs ptr none }
  have same : { state.detach (state.lock ctx.conn) with
      phase := Function.update state.phase ptr .closed }.setCtx ptr none = after := by
    rw [detached]
    rfl
  rw [same]
  obtain ⟨fine, fresh, accounted, given, distinct, inbound, once, reported, channel, returned⟩ := sound
  have closed : after.phase ptr = .closed := Function.update_self ..
  have deleted : after.ctxs ptr = none := Function.update_self ..
  have object : ∀ object, after.objects ptr = some object → ∃ before, state.objects ptr = some before ∧
      object.connCtx = none ∧ object.streamSignal = before.streamSignal ++ [.error .connClosed] := by
    intro object found
    have mapped : after.objects ptr = (state.objects ptr).map _ := Function.update_self ..
    obtain ⟨before, held, rfl⟩ := Option.map_eq_some_iff.mp (mapped.symm.trans found)
    exact ⟨before, held, rfl, rfl⟩
  have settled : ∀ other, after.phase other = state.phase other ∨ after.phase other ≠ .handshaking :=
    phase_settled ptr .closed nofun rfl
  refine ⟨fun other => ?_, fun other new => ?_, ?_, fun call connection entry => ?_, distinct,
    fun other member => ?_, once, reported, fun conn => ?_, returned⟩
  · by_cases same : other = ptr
    · subst same
      refine ⟨?_, fun held found => ?_, fun _ found => ?_, fun _ found => ?_, fun _ _ found => ?_⟩
      · rw [deleted]
        exact iff_of_false nofun (not_not_intro closed)
      · obtain ⟨-, -, none, -⟩ := object held found
        rw [closed, if_pos rfl]
        exact ⟨nofun, none⟩
      · cases deleted.symm.trans found
      · cases deleted.symm.trans found
      · cases deleted.symm.trans found
    · exact (fine other).congr (Function.update_of_ne same ..) (Function.update_of_ne same ..)
        (Function.update_of_ne same ..) (.of_eq rfl)
  · have elsewhere : other ≠ ptr := Nat.ne_of_gt (old.trans_le new)
    obtain ⟨shut, gone⟩ := fresh other new
    exact ⟨(Function.update_of_ne elsewhere ..).trans shut, (Function.update_of_ne elsewhere ..).trans gone⟩
  · have idle : state.waiting ptr = none := (waiting_eq allocated).trans (by rw [quiet]; rfl)
    have same : handlers hand after = handlers hand state := @handlers_quiet state after ptr hand none rfl idle rfl
    exact (congrArg (fun slots => Accounted slots _ _) same).mpr accounted
  · exact (given call connection entry).congr le_rfl (settled connection.id) (.of_eq rfl) rfl
  · exact ⟨(inbound other member).1, (settled other).elim (fun same => same ▸ (inbound other member).2) id⟩
  · by_cases same : conn = ptr
    · subst same
      refine ⟨fun held found => ?_, fun early => ?_⟩
      · obtain ⟨before, was, -, signal⟩ := object held found
        have fifo := (channel conn).fifo before was
        rw [if_neg living, List.append_nil] at fifo
        rw [closed, if_pos rfl, signal, ← List.append_assoc]
        exact congrArg (· ++ _) fifo
      · exact early.elim (fun opened => nomatch closed.symm.trans opened) fun new => absurd old (not_lt_of_ge new)
    · exact (channel conn).congr (Function.update_of_ne same ..) (Function.update_of_ne same ..) rfl rfl le_rfl

end Handshakes

section Owners

/-- What the owner of a connection object does to its channel, or the library. -/
theorem Sound.signal {object : QuicConnection} (sound : Sound identity hand state)
    (held : state.objects conn = some object) (signal : List (Except QuicError StreamPtr)) (fates : List Fate)
    (received : List (Except QuicError StreamPtr))
    (fifo : received ++ signal = (streamsOf (.offered conn) fates).map .ok ++
      if state.phase conn = .closed then [.error .connClosed] else [])
    (offered : ∀ other, other ≠ conn → streamsOf (.offered other) fates = streamsOf (.offered other) state.fates)
    (returned : ∀ other, streamsOf (.returned other) fates = streamsOf (.returned other) state.fates) :
    Sound identity hand { state.setObject conn (some { object with streamSignal := signal }) with
      fates, received := Function.update state.received conn received } := by
  have old : conn < state.created := lt_of_not_ge fun new => by
    rw [(sound.fresh conn new).2] at held
    cases held
  obtain ⟨fine, fresh, accounted, given, distinct, inbound, once, reported, channel, handed⟩ := sound
  let after := { state.setObject conn (some { object with streamSignal := signal }) with
    fates, received := Function.update state.received conn received }
  have changed : after.objects conn = some { object with streamSignal := signal } := Function.update_self ..
  refine ⟨fun other => ?_, fun other new => ?_, accounted, fun call connection entry =>
    (given call connection entry).congr le_rfl (.inl rfl) (.of_eq rfl) rfl, distinct, inbound, once, reported,
    fun other => ?_, fun other => (handed other).trans (returned other).symm⟩
  · by_cases same : other = conn
    · subst same
      obtain ⟨live, points, back, idle, waits⟩ := fine other
      refine ⟨live, fun _ found => ?_, fun ctx allocated => ?_, idle, waits⟩
      · obtain rfl := Option.some.inj (changed.symm.trans found)
        exact points object held
      · exact .inl ((back ctx allocated).resolve_right fun none => nomatch held.symm.trans none.2)
    · exact (fine other).congr rfl rfl (Function.update_of_ne same ..) (.of_eq rfl)
  · have elsewhere : other ≠ conn := Nat.ne_of_gt (old.trans_le new)
    obtain ⟨closed, gone⟩ := fresh other new
    exact ⟨closed, (Function.update_of_ne elsewhere ..).trans gone⟩
  · by_cases same : other = conn
    · subst same
      have own : after.received other = received := Function.update_self ..
      refine ⟨fun _ found => ?_, fun early => ?_⟩
      · obtain rfl := Option.some.inj (changed.symm.trans found)
        exact (congrArg (· ++ signal) own).trans fifo
      · exact early.elim (fun handshaking => absurd handshaking ((fine other).object object held).1)
          fun new => absurd old (not_lt_of_ge new)
    · exact (channel other).congr rfl (Function.update_of_ne same ..) (Function.update_of_ne same ..)
        (offered other same) le_rfl

/-- A stream goes elsewhere than to the channel of its connection, or a call of `newStream` returns. -/
theorem Sound.record (sound : Sound identity hand state) (fates : List Fate)
    (newStreams : List (ConnPtr × Except QuicError StreamPtr))
    (offered : ∀ conn, streamsOf (.offered conn) fates = streamsOf (.offered conn) state.fates)
    (returned : ∀ conn, returnedBy conn newStreams = streamsOf (.returned conn) fates) :
    Sound identity hand { state with fates, newStreams } := by
  obtain ⟨fine, fresh, accounted, given, distinct, inbound, once, reported, channel, -⟩ := sound
  exact ⟨fun ptr => (fine ptr).congr rfl rfl rfl (.of_eq rfl), fresh, accounted, fun call connection entry =>
    (given call connection entry).congr le_rfl (.inl rfl) (.of_eq rfl) rfl, distinct, inbound, once, reported,
    fun conn => (channel conn).congr rfl rfl rfl (offered conn) le_rfl, returned⟩

/-- The library is asked to close a connection. -/
theorem Sound.ask (sound : Sound identity hand state) (closing : List ConnPtr) :
    Sound identity hand { state with closing } := by
  obtain ⟨fine, fresh, accounted, given, distinct, inbound, once, reported, channel, returned⟩ := sound
  exact ⟨fun ptr => (fine ptr).congr rfl rfl rfl (.of_eq rfl), fresh, accounted, fun call connection entry =>
    (given call connection entry).congr le_rfl (.inl rfl) (.of_eq rfl) rfl, distinct, inbound, once, reported,
    fun conn => (channel conn).congr rfl rfl rfl rfl le_rfl, returned⟩

/-- The engine's channel is read. -/
theorem Sound.asyncAccept (sound : Sound identity hand state) : Sound identity hand state.asyncAccept := by
  unfold Connections.asyncAccept
  split
  · exact sound
  · next result rest waits =>
    obtain ⟨fine, fresh, accounted, given, distinct, inbound, once, reported, channel, returned⟩ := sound
    refine ⟨fun ptr => (fine ptr).congr rfl rfl rfl (.of_eq rfl), fresh, accounted, fun call connection entry =>
      (given call connection entry).congr le_rfl (.inl rfl) (.of_eq rfl) rfl, distinct, inbound, once, ?_,
      fun conn => (channel conn).congr rfl rfl rfl rfl le_rfl, returned⟩
    rw [waits] at reported
    rw [List.append_assoc]
    exact reported

/-- An object is destroyed. -/
theorem Sound.dropped (sound : Sound identity hand state) (conn : ConnPtr) :
    Sound identity hand (state.setObject conn none) := by
  obtain ⟨fine, fresh, accounted, given, distinct, inbound, once, reported, channel, returned⟩ := sound
  have gone : (state.setObject conn none).objects conn = none := Function.update_self ..
  refine ⟨fun other => ?_, fun other new => ?_, accounted, fun call connection entry =>
    (given call connection entry).congr le_rfl (.inl rfl) (.of_eq rfl) rfl, distinct, inbound, once, reported,
    fun other => ?_, returned⟩
  · by_cases same : other = conn
    · subst same
      obtain ⟨live, -, back, idle, waits⟩ := fine other
      refine ⟨live, fun _ found => (nomatch gone.symm.trans found), fun ctx allocated => ?_, idle, waits⟩
      exact (back ctx allocated).imp_right fun none => ⟨none.1, gone⟩
    · exact (fine other).congr rfl rfl (Function.update_of_ne same ..) (.of_eq rfl)
  · refine ⟨(fresh other new).1, ?_⟩
    by_cases same : other = conn
    · rw [same, gone]
    · exact (Function.update_of_ne same ..).trans (fresh other new).2
  · by_cases same : other = conn
    · subst same
      exact ⟨fun _ found => (nomatch gone.symm.trans found), (channel other).unused⟩
    · exact (channel other).congr rfl (Function.update_of_ne same ..) rfl rfl le_rfl

end Owners

end Libp2p.Transport.Quic.Connections
