import Libp2p.Transport.Quic.ConnectionSafety

/-! # Runs of an engine's connections

No event has a fault, and every event keeps the invariant; between events no handler is left in the engine, and a
handshake that is not done has a call that waits for it.
-/

namespace Libp2p.Transport.Quic.Connections

open Library Network

variable {identity : ConnPtr → Except TlsError PeerId} {state before after : Connections} {ptr conn : ConnPtr}
  {call : CallPtr} {hand : Option CallPtr} {ctx : ConnCtx} {op : Connecting} {event : ConnEvent} {events : List ConnEvent}

structure Standing (identity : ConnPtr → Except TlsError PeerId) (state : Connections) : Prop where
  sound : Sound identity none state
  idle : state.connecting = none
  pending : ∀ ptr, state.phase ptr = .handshaking → (state.waiting ptr).isSome

section Handshakes

theorem verdict_eq_ok {started : Option Connecting} {ok : Bool} {proved : Except TlsError PeerId} {peer : PeerId}
    (accepted : verdict started ok proved = .ok peer) :
    proved = .ok peer ∧ ∀ op, started = some op → op.peer = peer := by
  unfold verdict at accepted
  split_ifs at accepted
  cases proved with
  | error error => cases accepted
  | ok identity =>
    dsimp only at accepted
    split_ifs at accepted with unexpected
    obtain rfl := Except.ok.inj accepted
    refine ⟨rfl, fun op same => ?_⟩
    subst same
    have expected : identity = op.peer := by simpa using unexpected
    exact expected.symm

/-- For an inbound connection the verdict is what the listener is told. -/
theorem map_verdict_none (ptr : ConnPtr) (proved : Except TlsError PeerId) :
    (verdict none true proved).map (fun remotePeer => ({ id := ptr, remotePeer } : Connection)) =
      Network.onHskDone true proved ptr := by
  cases proved <;> rfl

theorem Sound.settle (sound : Sound identity hand (state.setCtx ptr (some { ctx with connecting := none })))
    (gone : state.objects ptr = none)
    (unused : state.received ptr = [] ∧ streamsOf (.offered ptr) state.fates = []) (res : Except AcceptError PeerId) :
    Sound identity hand (state.settle ptr ctx res) := by
  have allocated : (state.setCtx ptr (some { ctx with connecting := none })).ctxs ptr =
      some { ctx with connecting := none } := Function.update_self ..
  cases res with
  | ok peer =>
    have same : Function.update (Function.update state.ctxs ptr (some { ctx with connecting := none })) ptr
        (some { ctx with connecting := none, conn := some ptr }) = Function.update state.ctxs ptr
          (some { ctx with connecting := none, conn := some ptr }) := Function.update_idem ..
    have attached := sound.attach allocated rfl unused ctx.connecting.isSome peer
    dsimp only [setCtx, setObject] at attached
    rw [same] at attached
    exact attached
  | error error => exact sound.fail allocated rfl gone

theorem waiting_congr (ctxs : after.ctxs ptr = before.ctxs ptr) : after.waiting ptr = before.waiting ptr := by
  rw [waiting, ctxs, waiting]

theorem settle_frame (ptr : ConnPtr) (ctx : ConnCtx) (res : Except AcceptError PeerId) (state : Connections) :
    (state.settle ptr ctx res).phase = Function.update state.phase ptr .ready ∧
      (∀ other, other ≠ ptr → (state.settle ptr ctx res).waiting other = state.waiting other) ∧
      (state.settle ptr ctx res).created = state.created ∧ (state.settle ptr ctx res).requests = state.requests ∧
      (state.settle ptr ctx res).inbound = state.inbound ∧ (state.settle ptr ctx res).results = state.results ∧
      (state.settle ptr ctx res).connecting = state.connecting := by
  cases res with
  | ok peer =>
    exact ⟨rfl, fun other different => waiting_congr (Function.update_of_ne different ..), rfl, rfl, rfl, rfl, rfl⟩
  | error error =>
    exact ⟨rfl, fun other different => waiting_congr (Function.update_of_ne different ..), rfl, rfl, rfl, rfl, rfl⟩

theorem settle_inbound (ptr : ConnPtr) (ctx : ConnCtx) (res : Except AcceptError PeerId) (state : Connections)
    (inbound : List ConnPtr) :
    { state with inbound }.settle ptr ctx res = { state.settle ptr ctx res with inbound } := by
  cases res <;> rfl

/-- The handshake of a connection that was asked for is done. -/
theorem Standing.hskDone (standing : Standing identity state) (handshaking : state.phase ptr = .handshaking) (ok : Bool) :
    ∃ after, state.onHskDone identity ptr ok = .ok after ∧ Standing identity after := by
  obtain ⟨sound, idle, pending⟩ := standing
  have living : state.phase ptr ≠ .closed := by rw [handshaking]; nofun
  obtain ⟨ctx, allocated⟩ := Option.isSome_iff_exists.mp ((sound.fine ptr).live.mpr living)
  obtain ⟨op, connecting⟩ : ∃ op, ctx.connecting = some op := by
    have waits := pending ptr handshaking
    rw [waiting_eq allocated, Option.isSome_map] at waits
    exact Option.isSome_iff_exists.mp waits
  have gone : state.objects ptr = none := Option.eq_none_iff_forall_ne_some.mpr fun object found =>
    ((sound.fine ptr).object object found).1 handshaking
  have unsettled := sound.unsettled (.inl handshaking)
  let res := verdict (some op) ok (identity ptr)
  have settled := (sound.take allocated connecting).settle gone ((sound.channel ptr).unused (.inl handshaking)) res
  obtain ⟨phase, waiting, created, requests, inbound, results, kept⟩ := settle_frame ptr ctx res state
  have ready : (state.settle ptr ctx res).phase ptr = .ready := by rw [phase, Function.update_self]
  have finished := settled.finish (res.map fun remotePeer => { id := ptr, remotePeer }) none fun connection accepted => by
    cases verdictIs : res with
    | error error =>
      rw [verdictIs] at accepted
      cases accepted
    | ok peer =>
      rw [verdictIs] at accepted
      obtain rfl := Except.ok.inj accepted
      obtain ⟨proved, expected⟩ := verdict_eq_ok verdictIs
      refine ⟨⟨?_, ?_, ?_, proved, ?_⟩, ?_⟩
      · rw [← verdictIs, created]
        exact sound.lt_created living
      · rw [← verdictIs, ready]
        nofun
      · rw [← verdictIs, requests, ← expected op rfl]
        exact ((sound.fine ptr).waits ctx op allocated connecting).2
      · rw [← verdictIs, inbound]
        exact unsettled.2
      · rw [← verdictIs, results]
        exact unsettled.1
  have same : { state.settle ptr ctx res with connecting := none } = state.settle ptr ctx res := by
    rw [← idle, ← kept]
  refine ⟨_, ?_, finished, rfl, fun other early => ?_⟩
  · simp only [onHskDone, deref_eq allocated, bind, Except.bind, connecting]
    rw [same]
    rfl
  · by_cases here : other = ptr
    · subst here
      cases ready.symm.trans early
    · have before : state.phase other = .handshaking := by
        rw [← early]
        exact ((congrFun phase other).trans (Function.update_of_ne here ..)).symm
      exact (congrArg Option.isSome (waiting other here)).trans (pending other before)

/-- A call of `connect` is refused at once, or waits for its handshake. -/
theorem Standing.connect (standing : Standing identity state) (peer : PeerId) (creates : Bool) :
    ∃ after, state.connect identity peer creates = .ok after ∧ Standing identity after := by
  obtain ⟨sound, idle, pending⟩ := standing
  let op : Connecting := ⟨peer, state.requests.length⟩
  cases creates with
  | false =>
    have refused := (sound.begin peer (some op)).finish (.error (.quic .cantCreateConnection)) none fun _ => nofun
    refine ⟨_, ?_, refused, rfl, pending⟩
    simp only [Connections.connect, idle, Option.isSome_none, Bool.false_eq_true, if_false, bind, Except.bind]
    rfl
  | true =>
    have asked : ∀ other, some op = some other → (state.requests ++ [peer])[other.cb]? = some other.peer := by
      rintro _ ⟨⟩
      exact List.getElem?_concat_length
    let after : Connections := { state with
      created := state.created + 1
      requests := state.requests ++ [peer]
      connecting := none
      phase := Function.update state.phase state.created .handshaking
      ctxs := Function.update state.ctxs state.created (some { connecting := some op }) }
    have arrived : Sound identity none after :=
      @Sound.arrive identity { state with requests := state.requests ++ [peer], connecting := some op } (some op)
        (sound.begin peer (some op)) asked none
    have allocated : after.ctxs state.created = some { connecting := some op } := Function.update_self ..
    refine ⟨after, ?_, arrived, rfl, fun other early => ?_⟩
    · simp only [Connections.connect, idle, Option.isSome_none, Bool.false_eq_true, if_false, bind, Except.bind]
      rfl
    · by_cases here : other = state.created
      · subst here
        exact congrArg Option.isSome (waiting_eq allocated)
      · have before : state.phase other = .handshaking := (Function.update_of_ne here ..).symm.trans early
        exact (congrArg Option.isSome (waiting_congr (Function.update_of_ne here ..))).trans (pending other before)

/-- The library tells of an inbound connection. -/
theorem Standing.incoming (standing : Standing identity state) :
    ∃ after, state.onNewConn identity = .ok after ∧ Standing identity after := by
  obtain ⟨sound, idle, pending⟩ := standing
  obtain ⟨ungiven, new⟩ := sound.unsettled (.inr le_rfl)
  obtain ⟨-, gone⟩ := sound.fresh state.created le_rfl
  let arrived : Connections := { state with
    created := state.created + 1
    connecting := none
    phase := Function.update state.phase state.created .ready
    ctxs := Function.update state.ctxs state.created (some {}) }
  have came : Sound identity none arrived := @Sound.arrive identity state none sound (fun _ => nofun) none
  have allocated : arrived.ctxs state.created = some {} := Function.update_self ..
  have same : arrived.setCtx state.created (some {}) = arrived :=
    congrArg (fun ctxs => { arrived with ctxs }) (Function.update_idem ..)
  let res := verdict none true (identity state.created)
  have settled := @Sound.settle identity arrived state.created none {} ((congrArg (Sound identity none) same).mpr came)
    gone ((sound.channel state.created).unused (.inr le_rfl)) res
  obtain ⟨phase, waiting, created, -, inbound, results, kept⟩ := settle_frame state.created {} res arrived
  have ready : (arrived.settle state.created {} res).phase state.created = .ready := by rw [phase, Function.update_self]
  have reported := settled.report (created ▸ Nat.lt_succ_self _) (by rw [ready]; nofun) (results ▸ ungiven) (inbound ▸ new)
  refine ⟨_, ?_, reported, kept, fun other early => ?_⟩
  · have found : { arrived with inbound := state.inbound ++ [state.created] }.deref state.created = .ok {} :=
      deref_eq allocated
    have ran : { arrived with inbound := state.inbound ++ [state.created] }.onHskDone identity state.created true =
        .ok { arrived.settle state.created {} res with
          inbound := (arrived.settle state.created {} res).inbound ++ [state.created]
          connSignal := (arrived.settle state.created {} res).connSignal ++
            [Network.onHskDone true (identity state.created) state.created] } := by
      simp only [onHskDone, found, bind, Except.bind]
      rw [map_verdict_none, settle_inbound, inbound]
      rfl
    rw [onNewConn, idle]
    exact ran
  · by_cases here : other = state.created
    · subst here
      cases ready.symm.trans early
    · have before : state.phase other = .handshaking := by
        rw [← early]
        exact ((congrFun phase other).trans ((Function.update_of_ne here ..).trans (Function.update_of_ne here ..))).symm
      exact (congrArg Option.isSome ((waiting other here).trans (waiting_congr (Function.update_of_ne here ..)))).trans
        (pending other before)

theorem detach_frame (locked : Option (ConnPtr × QuicConnection)) (state : Connections) :
    (state.detach locked).ctxs = state.ctxs ∧ (state.detach locked).phase = state.phase ∧
      (state.detach locked).connecting = state.connecting := by
  rcases locked with _ | ⟨conn, object⟩ <;> exact ⟨rfl, rfl, rfl⟩

theorem detach_setCtx (locked : Option (ConnPtr × QuicConnection)) (ptr : ConnPtr) (ctx : Option ConnCtx)
    (state : Connections) : (state.setCtx ptr ctx).detach locked = (state.detach locked).setCtx ptr ctx := by
  rcases locked with _ | ⟨conn, object⟩ <;> rfl

/-- The library closes a connection; the call that waits for it gets an error. -/
theorem Standing.connClosed (standing : Standing identity state) (living : state.phase ptr ≠ .closed) :
    ∃ after, state.onConnClosed ptr = .ok after ∧ Standing identity after := by
  obtain ⟨sound, idle, pending⟩ := standing
  obtain ⟨ctx, allocated⟩ := Option.isSome_iff_exists.mp ((sound.fine ptr).live.mpr living)
  have keeps : ∀ after : Connections, after.phase = Function.update state.phase ptr .closed →
      after.ctxs = Function.update state.ctxs ptr none → ∀ other, after.phase other = .handshaking →
        (after.waiting other).isSome := by
    intro after phase ctxs other early
    by_cases here : other = ptr
    · rw [phase, here, Function.update_self] at early
      cases early
    · rw [phase, Function.update_of_ne here] at early
      rw [waiting_congr ((congrFun ctxs other).trans (Function.update_of_ne here ..))]
      exact pending other early
  cases connecting : ctx.connecting with
  | none =>
    obtain ⟨ctxs, phase, kept⟩ := detach_frame (state.lock ctx.conn) state
    refine ⟨_, ?_, sound.closed allocated connecting, kept.trans idle, keeps _ rfl ?_⟩
    · simp only [onConnClosed, deref_eq allocated, bind, Except.bind, connecting]
      rw [phase]
      rfl
    · exact congrArg (Function.update · ptr none) ctxs
  | some op =>
    let told := state.finish op.cb (.error (.quic .connClosed))
    obtain ⟨ctxs, phase, kept⟩ := detach_frame (told.lock ctx.conn) told
    have cleared : { state with connecting := none } = state := by rw [← idle]
    have finished : Sound identity none (told.setCtx ptr (some { ctx with connecting := none })) := by
      have taken := (sound.take allocated connecting).finish (.error (.quic .connClosed)) none fun _ => nofun
      exact (congrArg (fun state : Connections => Sound identity none
        ((state.finish op.cb (.error (.quic .connClosed))).setCtx ptr (some { ctx with connecting := none })))
          cleared).mp taken
    have closed := finished.closed (Function.update_self ..) rfl
    have same : { (told.setCtx ptr (some { ctx with connecting := none })).detach (told.lock ctx.conn) with
        phase := Function.update state.phase ptr .closed }.setCtx ptr none =
        { told.detach (told.lock ctx.conn) with phase := Function.update state.phase ptr .closed }.setCtx ptr none := by
      rw [detach_setCtx]
      exact setCtx_setCtx { told.detach (told.lock ctx.conn) with phase := Function.update state.phase ptr .closed } ..
    refine ⟨_, ?_, (congrArg (Sound identity none) same).mp closed, kept.trans idle, keeps _ rfl ?_⟩
    · simp only [onConnClosed, deref_eq allocated, bind, Except.bind, connecting]
      rw [phase]
      rfl
    · exact congrArg (Function.update · ptr none) ctxs

end Handshakes

section Owners

theorem makeStream_spec {object : QuicConnection} (fine : state.Fine ptr) (held : state.objects ptr = some object)
    (opened : state.phase ptr ≠ .closed) (pending creates : Bool) :
    ∃ fates result, state.makeStream ptr pending creates = .ok ({ state with fates }, result) ∧
      (fates = state.fates ∧ result.toOption = none ∨
        fates = state.fates ++ [.returned ptr] ∧ result = .ok state.fates.length) := by
  obtain ⟨-, ctx, allocated, points, idle⟩ := fine.pointers held opened
  have vacant : ctx.newStream.isSome = false := by rw [idle]; rfl
  have emptied : { ctx with newStream := none } = ctx := by rw [← idle]
  have unchanged : Function.update state.ctxs ptr (some ctx) = state.ctxs := by
    rw [← allocated, Function.update_eq_self]
  have found : (state.setCtx ptr (some { ctx with newStream := some none })).deref ptr =
      .ok { ctx with newStream := some none } := deref_eq (Function.update_self ..)
  cases pending with
  | true =>
    refine ⟨state.fates, .error .tooManyStreams, ?_, .inl ⟨rfl, rfl⟩⟩
    simp only [makeStream, deref_eq allocated, bind, Except.bind, vacant]
    rfl
  | false =>
    cases creates with
    | false =>
      have restored : (state.setCtx ptr (some { ctx with newStream := some none })).setCtx ptr
          (some { ctx with newStream := none }) = state := by
        rw [setCtx_setCtx, emptied, setCtx, unchanged]
      refine ⟨state.fates, .error .cantOpenStream, ?_, .inl ⟨rfl, rfl⟩⟩
      simp only [makeStream, deref_eq allocated, bind, Except.bind, vacant, Bool.false_eq_true, if_false, pure,
        Except.pure, found]
      rw [restored]
    | true =>
      let filled := { state.setCtx ptr (some { ctx with newStream := some (some state.fates.length) }) with
        fates := state.fates ++ [Fate.returned ptr] }
      have there : filled.deref ptr = .ok { ctx with newStream := some (some state.fates.length) } :=
        deref_eq (Function.update_self ..)
      have locked : (state.setCtx ptr (some { ctx with newStream := some none })).lock ctx.conn = some (ptr, object) := by
        rw [points]
        exact congrArg (Option.map (ptr, ·)) held
      have ran : (state.setCtx ptr (some { ctx with newStream := some none })).onNewStream ptr = .ok filled := by
        simp only [onNewStream, found, bind, Except.bind, locked, Option.isSome_some, if_true, setCtx_setCtx]
        rfl
      have restored : filled.setCtx ptr (some { ctx with newStream := none }) =
          { state with fates := state.fates ++ [.returned ptr] } := by
        refine congrArg (fun ctxs => { state with ctxs, fates := state.fates ++ [Fate.returned ptr] }) ?_
        rw [emptied]
        exact (Function.update_idem ..).trans unchanged
      refine ⟨state.fates ++ [.returned ptr], .ok state.fates.length, ?_, .inr ⟨rfl, rfl⟩⟩
      simp only [makeStream, deref_eq allocated, bind, Except.bind, vacant, Bool.false_eq_true, if_false, if_true, pure,
        Except.pure, ran, there]
      rw [restored]

/-- The states differ in what neither the calls nor the handshakes depend on. -/
theorem Standing.of_sound (standing : Standing identity before) (sound : Sound identity none after)
    (connecting : after.connecting = before.connecting) (phase : after.phase = before.phase)
    (ctxs : after.ctxs = before.ctxs) : Standing identity after := by
  refine ⟨sound, connecting.trans standing.idle, fun ptr early => ?_⟩
  rw [phase] at early
  rw [waiting_congr (congrFun ctxs ptr)]
  exact standing.pending ptr early

theorem Standing.newStream (standing : Standing identity state) (held : state.Held conn) (pending creates : Bool) :
    ∃ after, state.newStream conn pending creates = .ok after ∧ Standing identity after := by
  obtain ⟨object, found⟩ := Option.isSome_iff_exists.mp held
  have sound := standing.sound
  by_cases closed : state.phase conn = .closed
  · have detached := (sound.fine conn).detached found closed
    refine ⟨{ state with newStreams := state.newStreams ++ [(conn, .error .connClosed)] }, ?_,
      standing.of_sound (sound.record state.fates _ (fun _ => rfl) fun other => ?_) rfl rfl rfl⟩
    · simp only [Connections.newStream, object_eq found, bind, Except.bind, detached]
      rfl
    · rw [returnedBy_append, sound.returned other]
      split_ifs <;> exact List.append_nil _
  · obtain ⟨points, -⟩ := (sound.fine conn).pointers found closed
    obtain ⟨fates, result, made, outcome⟩ := makeStream_spec (sound.fine conn) found closed pending creates
    refine ⟨{ state with fates, newStreams := state.newStreams ++ [(conn, result)] }, ?_,
      standing.of_sound (sound.record fates _ (fun other => ?_) fun other => ?_) rfl rfl rfl⟩
    · simp only [Connections.newStream, object_eq found, bind, Except.bind, points, made]
      rfl
    · rcases outcome with ⟨rfl, -⟩ | ⟨rfl, -⟩
      · rfl
      · rw [streamsOf_append, if_neg nofun, List.append_nil]
    · rw [returnedBy_append, sound.returned other]
      rcases outcome with ⟨rfl, none⟩ | ⟨rfl, rfl⟩
      · rw [none]
        split_ifs <;> exact List.append_nil _
      · rw [streamsOf_append]
        simp [Except.toOption]

/-- A stream that nobody waits for goes to the channel of its connection, or is closed. -/
theorem Standing.stream (standing : Standing identity state) (living : state.phase ptr ≠ .closed) :
    ∃ after, state.onNewStream ptr = .ok after ∧ Standing identity after := by
  have sound := standing.sound
  obtain ⟨ctx, allocated⟩ := Option.isSome_iff_exists.mp ((sound.fine ptr).live.mpr living)
  have locked := (sound.fine ptr).lock allocated
  have vacant : ctx.newStream.isSome = false := by rw [(sound.fine ptr).idle ctx allocated]; rfl
  cases held : state.objects ptr with
  | none =>
    refine ⟨{ state with fates := state.fates ++ [.rejected] }, ?_,
      standing.of_sound (sound.record _ state.newStreams (fun conn => ?_) fun conn => ?_) rfl rfl rfl⟩
    · simp only [onNewStream, deref_eq allocated, bind, Except.bind, locked, held, Option.map_none]
      rfl
    · rw [streamsOf_append, if_neg nofun, List.append_nil]
    · rw [sound.returned conn, streamsOf_append, if_neg nofun, List.append_nil]
  | some object =>
    have fifo := (sound.channel ptr).fifo object held
    rw [if_neg living, List.append_nil] at fifo
    have offered := sound.signal held (object.streamSignal ++ [.ok state.fates.length])
      (state.fates ++ [.offered ptr]) (state.received ptr) (by
        rw [if_neg living, List.append_nil, streamsOf_append, if_pos rfl, List.map_append, ← fifo, List.append_assoc]
        rfl)
      (fun other different => by rw [streamsOf_append, if_neg fun same => different (Fate.offered.inj same).symm,
        List.append_nil])
      (fun other => by rw [streamsOf_append, if_neg nofun, List.append_nil])
    rw [Function.update_eq_self] at offered
    refine ⟨_, ?_, standing.of_sound offered rfl rfl rfl⟩
    simp only [onNewStream, deref_eq allocated, bind, Except.bind, locked, held, Option.map_some, vacant,
      Bool.false_eq_true, if_false]
    rfl

theorem Standing.acceptStream (standing : Standing identity state) (held : state.Held conn) :
    ∃ after, state.acceptStream conn = .ok after ∧ Standing identity after := by
  obtain ⟨object, found⟩ := Option.isSome_iff_exists.mp held
  have sound := standing.sound
  have fifo := (sound.channel conn).fifo object found
  cases signal : object.streamSignal with
  | nil =>
    refine ⟨state, ?_, standing⟩
    simp only [Connections.acceptStream, object_eq found, bind, Except.bind, signal]
    rfl
  | cons result rest =>
    rw [signal] at fifo
    have read := sound.signal found rest state.fates (state.received conn ++ [result])
      (by rw [List.append_assoc]; exact fifo) (fun _ _ => rfl) fun _ => rfl
    refine ⟨_, ?_, standing.of_sound read rfl rfl rfl⟩
    simp only [Connections.acceptStream, object_eq found, bind, Except.bind, signal]
    rfl

theorem Standing.asyncAccept (standing : Standing identity state) : Standing identity state.asyncAccept := by
  have frame : state.asyncAccept.connecting = state.connecting ∧ state.asyncAccept.phase = state.phase ∧
      state.asyncAccept.ctxs = state.ctxs := by
    unfold Connections.asyncAccept
    split <;> exact ⟨rfl, rfl, rfl⟩
  exact standing.of_sound standing.sound.asyncAccept frame.1 frame.2.1 frame.2.2

theorem Standing.close (standing : Standing identity state) (held : state.Held conn) :
    ∃ closing, state.close conn = .ok { state with closing } := by
  obtain ⟨object, found⟩ := Option.isSome_iff_exists.mp held
  have fine := standing.sound.fine conn
  by_cases closed : state.phase conn = .closed
  · refine ⟨state.closing, ?_⟩
    simp only [Connections.close, object_eq found, bind, Except.bind, fine.detached found closed]
    rfl
  · obtain ⟨points, ctx, allocated, -⟩ := fine.pointers found closed
    refine ⟨conn :: state.closing, ?_⟩
    simp only [Connections.close, object_eq found, bind, Except.bind, points, deref_eq allocated]
    rfl

end Owners

/-- Every event of the library and of the owners. -/
theorem Standing.perform (standing : Standing identity state) (enabled : state.Enabled event) :
    ∃ after, state.perform identity event = .ok after ∧ Standing identity after := by
  cases event with
  | connect peer creates => exact standing.connect peer creates
  | incoming => exact standing.incoming
  | hskDone ptr ok => exact standing.hskDone enabled ok
  | connClosed ptr => exact standing.connClosed enabled
  | stream ptr => exact standing.stream enabled
  | newStream conn pending creates => exact standing.newStream enabled pending creates
  | acceptStream conn => exact standing.acceptStream enabled
  | asyncAccept => exact ⟨_, rfl, standing.asyncAccept⟩
  | close conn =>
    obtain ⟨closing, ran⟩ := standing.close enabled
    exact ⟨_, ran, standing.of_sound (standing.sound.ask closing) rfl rfl rfl⟩
  | release conn =>
    obtain ⟨closing, ran⟩ := standing.close enabled
    refine ⟨{ state with closing }.setObject conn none, ?_,
      standing.of_sound ((standing.sound.ask closing).dropped conn) rfl rfl rfl⟩
    simp only [Connections.perform, release, ran, bind, Except.bind]
    rfl

theorem standing_initial : Standing identity {} := by
  refine ⟨⟨fun ptr => ?_, fun ptr _ => ⟨rfl, rfl⟩, ?_, fun _ _ => nofun, List.nodup_nil, fun _ => nofun, List.nodup_nil,
    rfl, fun conn => ⟨fun _ => nofun, fun _ => ⟨rfl, rfl⟩⟩, fun conn => rfl⟩, rfl, fun _ => nofun⟩
  · exact ⟨iff_of_false nofun (not_not_intro rfl), fun _ => nofun, fun _ => nofun, fun _ => nofun, fun _ _ => nofun⟩
  · refine (congrArg (fun slots => Accounted slots [] 0) (funext fun place => ?_)).mpr Accounted.initial
    cases place <;> rfl

theorem stands_of_runs (runs : Runs identity events state) : Standing identity state := by
  refine Run.preserves (Standing identity) standing_initial (fun event before after standing ⟨performed, enabled⟩ => ?_)
    runs
  obtain ⟨_, same, kept⟩ := standing.perform enabled
  obtain rfl := Except.ok.inj (performed.symm.trans same)
  exact kept

/-- Follow the events, if each can happen and none has a fault. -/
def follow (identity : ConnPtr → Except TlsError PeerId) (events : List ConnEvent) : Option Connections :=
  events.foldlM (fun (before : Connections) event =>
    if before.Enabled event then (before.perform identity event).toOption else none) {}

theorem runs_of_follow (followed : follow identity events = some state) : Runs identity events state :=
  Run.of_foldlM_except followed

/-- No event has a fault, and every call of `connect` has one result or waits in the context of one connection whose
handshake is not done. A connection that a call was given proved to be the peer that was asked for, is given to no other
call, and is not an inbound one. -/
theorem connects_once (runs : Runs identity events state) :
    (∀ event, state.Enabled event → ∃ after, state.perform identity event = .ok after) ∧
    (∀ call < state.requests.length,
      ((state.results.map Prod.fst).count call = 1 ∧ ∀ conn, state.waiting conn ≠ some call) ∨
      (call ∉ state.results.map Prod.fst ∧ ∃ conn, state.waiting conn = some call ∧ state.phase conn = .handshaking ∧
        ∀ other, state.waiting other = some call → other = conn)) ∧
    (∀ call connection, (call, .ok connection) ∈ state.results →
      identity connection.id = .ok connection.remotePeer ∧ state.requests[call]? = some connection.remotePeer ∧
        connection.id ∉ state.inbound) ∧
    (state.results.filterMap fun entry => (entry.2.map Connection.id).toOption).Nodup := by
  have standing := stands_of_runs runs
  have sound := standing.sound
  obtain ⟨alone, unspent, once, complete⟩ := sound.accounted
  refine ⟨fun event enabled => ?_, fun call made => ?_, fun call connection entry => ?_, sound.distinct⟩
  · obtain ⟨after, performed, -⟩ := standing.perform enabled
    exact ⟨after, performed⟩
  · rcases (complete call).mp made with ⟨place, waits⟩ | answered
    · cases place with
      | engine => cases waits
      | conn ptr =>
        refine .inr ⟨unspent _ call waits, ptr, waits, ?_, fun other again => ?_⟩
        · obtain ⟨op, found, -⟩ := Option.map_eq_some_iff.mp waits
          obtain ⟨ctx, allocated, connecting⟩ := Option.bind_eq_some_iff.mp found
          exact ((sound.fine ptr).waits ctx op allocated connecting).1
        · exact Handler.conn.inj (alone (.conn other) (.conn ptr) call again waits)
    · exact .inl ⟨List.count_eq_one_of_mem once answered, fun conn waits => unspent (.conn conn) call waits answered⟩
  · obtain ⟨-, -, asked, proved, outbound⟩ := sound.given call connection entry
    exact ⟨proved, asked, outbound⟩

/-- A connection that was asked for and an inbound one; a stream is opened, one is offered, and both are closed. -/
def meeting : List ConnEvent :=
  [.connect samplePeer true, .incoming, .hskDone 0 true, .newStream 0 false true, .stream 0, .acceptStream 0,
    .connClosed 0, .connClosed 1]

theorem connects_once_meeting : ∃ state, Runs (fun _ => .ok samplePeer) meeting state ∧
    (0, .ok { id := 0, remotePeer := samplePeer }) ∈ state.results ∧ 0 ∉ state.inbound := by
  have given : (follow (fun _ => .ok samplePeer) meeting).any (fun state =>
    (0, .ok { id := 0, remotePeer := samplePeer }) ∈ state.results) := by decide
  obtain ⟨state, followed, entry⟩ := (Option.any_eq_true ..).mp given
  have runs := runs_of_follow followed
  exact ⟨state, runs, of_decide_eq_true entry, ((connects_once runs).2.2.1 0 _ (of_decide_eq_true entry)).2.2⟩

/-- Inbound connections are reported once each, in the order in which they come, with the identities that they prove.
The streams of a connection that calls of `newStream` return are the ones that were opened during them, and whoever owns
the connection receives those that were opened at any other time in order, and at the end that it was closed. -/
theorem handed_over_in_order (runs : Runs identity events state) :
    state.accepted ++ state.connSignal = (state.inbound.map fun ptr => Network.onHskDone true (identity ptr) ptr) ∧
    state.inbound.Nodup ∧
    ∀ conn, returnedBy conn state.newStreams = streamsOf (.returned conn) state.fates ∧
      ∀ object, state.objects conn = some object → state.received conn ++ object.streamSignal =
        (streamsOf (.offered conn) state.fates).map .ok ++
          if state.phase conn = .closed then [.error .connClosed] else [] := by
  have sound := (stands_of_runs runs).sound
  exact ⟨sound.reported, sound.once, fun conn => ⟨sound.returned conn, (sound.channel conn).fifo⟩⟩

theorem handed_over_in_order_meeting : ∃ state, Runs (fun _ => .ok samplePeer) meeting state ∧
    returnedBy 0 state.newStreams = [0] ∧ ∃ object, state.objects 0 = some object ∧
      state.received 0 ++ object.streamSignal = [.ok 1, .error .connClosed] := by
  have reached : (follow (fun _ => .ok samplePeer) meeting).any (fun state => state.fates = [.returned 0, .offered 0] ∧
    state.phase 0 = .closed ∧ (state.objects 0).isSome) := by decide
  obtain ⟨state, followed, found⟩ := (Option.any_eq_true ..).mp reached
  obtain ⟨fates, closed, held⟩ := of_decide_eq_true found
  obtain ⟨object, there⟩ := Option.isSome_iff_exists.mp held
  have runs := runs_of_follow followed
  obtain ⟨returned, received⟩ := (handed_over_in_order runs).2.2 0
  rw [fates] at returned received
  rw [closed] at received
  exact ⟨state, runs, returned, object, there, received object there⟩

end Libp2p.Transport.Quic.Connections
