import Libp2p.Library.Tokens
import Libp2p.Transport.Quic.Streams

/-! # What the pointers of an engine's streams point to

The invariant is one statement about each stream, and one about the calls: every call that was made is in hand, waits in
the context of one stream, or has its result. An operation changes one stream, so the rest of the invariant carries over.
-/

namespace Libp2p.Transport.Quic.Streams

open Library Network

/-- Where an unfinished call can be. -/
inductive Place where
  | hand
  | reader (stream : StreamPtr)
  | writer (stream : StreamPtr)
deriving DecidableEq, Repr

def reader (state : Streams) (stream : StreamPtr) : Option Suspended := (state.ctxs stream).bind StreamCtx.reading

def writer (state : Streams) (stream : StreamPtr) : Option Suspended := (state.ctxs stream).bind StreamCtx.writing

/-- The unfinished calls; one of them may be in hand. -/
def slots (hand : Option CallPtr) (state : Streams) : Place → Option CallPtr
  | .hand => hand
  | .reader stream => (state.reader stream).map Suspended.call
  | .writer stream => (state.writer stream).map Suspended.call

/-- The pointers of a stream are valid or null, those who wait are awaited, and what was written is queued. -/
structure Fine (state : Streams) (stream : StreamPtr) : Prop where
  live : (state.ctxs stream).isSome ↔ state.phase stream ≠ .closed
  object : ∀ object, state.objects stream = some object →
    object.streamCtx = if state.phase stream = .closed then none else some stream
  back : ∀ ctx, state.ctxs stream = some ctx →
    ctx.stream = some stream ∨ (ctx.stream = none ∧ state.objects stream = none)
  reading : ∀ suspended, state.reader stream = some suspended →
    suspended.stream = stream ∧ state.Held stream ∧ state.phase stream = .opened ∧ state.wantRead stream
  writing : ∀ suspended, state.writer stream = some suspended → suspended.stream = stream ∧ state.Held stream ∧
    (state.phase stream = .opened ∧ state.wantWrite stream ∨ state.phase stream = .readerResumed)
  flushed : ∀ ctx, state.ctxs stream = some ctx → state.Held stream →
    (ctx.wantFlush ↔ stream ∈ state.wantFlush)
  queued : state.Held stream → (stream ∈ state.wantFlush ↔ stream ∈ state.written)

structure Sound (hand : Option CallPtr) (state : Streams) : Prop where
  fine : ∀ stream, state.Fine stream
  fresh : ∀ stream, state.created ≤ stream → state.phase stream = .closed ∧ state.objects stream = none ∧
    stream ∉ state.wantFlush ∧ stream ∉ state.written
  accounted : Accounted (slots hand state) (state.results.map Prod.fst) state.calls

variable {state before after : Streams} {stream other ptr : StreamPtr} {call : CallPtr} {hand : Option CallPtr}
  {ctx : StreamCtx} {suspended : Suspended}

/-- What no operation on another stream changes. -/
theorem Fine.congr (fine : before.Fine stream) (phase : after.phase stream = before.phase stream)
    (wantRead : after.wantRead stream = before.wantRead stream)
    (wantWrite : after.wantWrite stream = before.wantWrite stream) (ctxs : after.ctxs stream = before.ctxs stream)
    (objects : after.objects stream = before.objects stream)
    (wantFlush : stream ∈ after.wantFlush ↔ stream ∈ before.wantFlush)
    (written : stream ∈ after.written ↔ stream ∈ before.written) : after.Fine stream := by
  obtain ⟨live, object, back, reading, writing, flushed, queued⟩ := fine
  have same : after.reader stream = before.reader stream := by rw [reader, ctxs, reader]
  have same' : after.writer stream = before.writer stream := by rw [writer, ctxs, writer]
  have owned : after.Held stream ↔ before.Held stream := by rw [Held, objects, Held]
  exact ⟨by rw [ctxs, phase, live], by rw [objects, phase]; exact object, by rw [ctxs, objects]; exact back,
    by rw [same, owned, phase, wantRead]; exact reading, by rw [same', owned, phase, wantWrite]; exact writing,
    by rw [ctxs, owned, wantFlush]; exact flushed, by rw [owned, wantFlush, written]; exact queued⟩

/-- A held object of a stream that is not closed points to the context. -/
theorem Fine.pointers (fine : state.Fine stream) (held : state.Held stream) (opened : state.phase stream ≠ .closed) :
    ∃ ctx, state.objects stream = some ⟨some stream⟩ ∧ state.ctxs stream = some ctx ∧
      ctx.stream = some stream := by
  obtain ⟨⟨streamCtx⟩, found⟩ := Option.isSome_iff_exists.mp held
  obtain ⟨ctx, allocated⟩ := Option.isSome_iff_exists.mp (fine.live.mpr opened)
  have points := fine.object _ found
  rw [if_neg opened] at points
  obtain rfl : streamCtx = some stream := points
  refine ⟨ctx, found, allocated, (fine.back ctx allocated).resolve_right fun none => ?_⟩
  rw [none.2] at found
  cases found

/-- A held object of a closed stream points nowhere. -/
theorem Fine.detached (fine : state.Fine stream) (held : state.Held stream) (closed : state.phase stream = .closed) :
    state.objects stream = some ⟨none⟩ := by
  obtain ⟨⟨streamCtx⟩, found⟩ := Option.isSome_iff_exists.mp held
  have points := fine.object _ found
  rw [if_pos closed] at points
  obtain rfl : streamCtx = none := points
  exact found

theorem reader_of_ctx (allocated : state.ctxs stream = some ctx) : state.reader stream = ctx.reading := by
  rw [reader, allocated, Option.bind_some]

theorem writer_of_ctx (allocated : state.ctxs stream = some ctx) : state.writer stream = ctx.writing := by
  rw [writer, allocated, Option.bind_some]

theorem reader_setCtx (state : Streams) (ptr : StreamPtr) (ctx : StreamCtx) :
    (state.setCtx ptr (some ctx)).reader ptr = ctx.reading :=
  reader_of_ctx (Function.update_self ..)

theorem writer_setCtx (state : Streams) (ptr : StreamPtr) (ctx : StreamCtx) :
    (state.setCtx ptr (some ctx)).writer ptr = ctx.writing :=
  writer_of_ctx (Function.update_self ..)

/-- A context in which only the waiting coroutines change. -/
theorem Fine.adjust {next : StreamCtx} (fine : before.Fine stream) (allocated : before.ctxs stream = some ctx)
    (changed : after.ctxs stream = some next) (phase : after.phase stream = before.phase stream)
    (objects : after.objects stream = before.objects stream) (wantFlush : after.wantFlush = before.wantFlush)
    (written : after.written = before.written) (kept : next.stream = ctx.stream) (flag : next.wantFlush = ctx.wantFlush)
    (reading : ∀ suspended, next.reading = some suspended → suspended.stream = stream ∧ before.Held stream ∧
      before.phase stream = .opened ∧ after.wantRead stream)
    (writing : ∀ suspended, next.writing = some suspended → suspended.stream = stream ∧ before.Held stream ∧
      (before.phase stream = .opened ∧ after.wantWrite stream ∨ before.phase stream = .readerResumed)) :
    after.Fine stream := by
  obtain ⟨live, object, back, -, -, flushed, queued⟩ := fine
  have owned : after.Held stream ↔ before.Held stream := by rw [Held, objects, Held]
  refine ⟨?_, ?_, ?_, ?_, ?_, ?_, ?_⟩
  · rw [allocated] at live
    rw [changed, phase, ← live]
    rfl
  · rw [objects, phase]
    exact object
  · rintro _ found
    rw [changed] at found
    obtain rfl := Option.some.inj found
    rw [kept, objects]
    exact back ctx allocated
  · rw [reader_of_ctx changed, owned, phase]
    exact reading
  · rw [writer_of_ctx changed, owned, phase]
    exact writing
  · rintro _ found
    rw [changed] at found
    obtain rfl := Option.some.inj found
    rw [flag, owned, wantFlush]
    exact flushed ctx allocated
  · rw [owned, wantFlush, written]
    exact queued

section Calls

theorem slots_hand (hand other : Option CallPtr) (state : Streams) :
    slots other state = Function.update (slots hand state) .hand other := by
  funext place
  cases place <;> rfl

/-- The unfinished calls when the reader of a stream changes. -/
theorem slots_reader (hand : Option CallPtr) {reading : Option Suspended} (allocated : before.ctxs stream = some ctx)
    (changed : after.ctxs = Function.update before.ctxs stream (some { ctx with reading })) :
    slots hand after = Function.update (slots hand before) (.reader stream) (reading.map Suspended.call) := by
  funext place
  cases place with
  | hand => rfl
  | reader other => by_cases same : other = stream <;> simp [slots, reader, changed, same]
  | writer other =>
    by_cases same : other = stream
    · subst same
      simp [slots, writer, changed, allocated]
    · simp [slots, writer, changed, same]

/-- The unfinished calls when the writer of a stream changes. -/
theorem slots_writer (hand : Option CallPtr) {writing : Option Suspended} (allocated : before.ctxs stream = some ctx)
    (changed : after.ctxs = Function.update before.ctxs stream (some { ctx with writing })) :
    slots hand after = Function.update (slots hand before) (.writer stream) (writing.map Suspended.call) := by
  funext place
  cases place with
  | hand => rfl
  | writer other => by_cases same : other = stream <;> simp [slots, writer, changed, same]
  | reader other =>
    by_cases same : other = stream
    · subst same
      simp [slots, reader, changed, allocated]
    · simp [slots, reader, changed, same]

/-- The call in hand gets its result. -/
theorem Sound.finish (sound : Sound (some call) state) (result : Except QuicError ℕ) :
    Sound none (state.finish call result) := by
  obtain ⟨fine, fresh, accounted⟩ := sound
  refine ⟨fun stream => (fine stream).congr rfl rfl rfl rfl rfl Iff.rfl Iff.rfl, fresh, ?_⟩
  rw [slots_hand (some call)]
  exact accounted.spend .hand rfl

/-- A call is made. -/
theorem Sound.begin (sound : Sound none state) : Sound (some state.calls) { state with calls := state.calls + 1 } := by
  obtain ⟨fine, fresh, accounted⟩ := sound
  refine ⟨fun stream => (fine stream).congr rfl rfl rfl rfl rfl Iff.rfl Iff.rfl, fresh, ?_⟩
  rw [slots_hand none]
  exact accounted.issue .hand rfl

/-- The call in hand waits for input. -/
theorem Sound.suspendReader (sound : Sound (some call) state) (held : state.Held stream)
    (allocated : state.ctxs stream = some ctx) (idle : ctx.reading = none) (opened : state.phase stream = .opened) :
    Sound none { state.setCtx stream (some { ctx with reading := some ⟨stream, call⟩ }) with
      wantRead := Function.update state.wantRead stream true } := by
  obtain ⟨fine, fresh, accounted⟩ := sound
  refine ⟨fun other => ?_, fresh, ?_⟩
  · by_cases same : other = stream
    · subst same
      refine (fine other).adjust allocated (Function.update_self ..) rfl rfl rfl rfl rfl rfl ?_ fun suspended waits =>
        (fine other).writing suspended ((writer_of_ctx allocated).trans waits)
      rintro _ ⟨⟩
      exact ⟨rfl, held, opened, Function.update_self ..⟩
    · exact (fine other).congr rfl (Function.update_of_ne same ..) rfl (Function.update_of_ne same ..) rfl Iff.rfl
        Iff.rfl
  · rw [slots_reader none allocated rfl, slots_hand (some call) none]
    refine accounted.move .hand (.reader stream) rfl ?_
    simp [slots, reader_of_ctx allocated, idle]

/-- The call in hand waits for room. -/
theorem Sound.suspendWriter (sound : Sound (some call) state) (held : state.Held stream)
    (allocated : state.ctxs stream = some ctx) (idle : ctx.writing = none) (opened : state.phase stream = .opened) :
    Sound none { state.setCtx stream (some { ctx with writing := some ⟨stream, call⟩ }) with
      wantWrite := Function.update state.wantWrite stream true } := by
  obtain ⟨fine, fresh, accounted⟩ := sound
  refine ⟨fun other => ?_, fresh, ?_⟩
  · by_cases same : other = stream
    · subst same
      refine (fine other).adjust allocated (Function.update_self ..) rfl rfl rfl rfl rfl rfl (fun suspended waits =>
        (fine other).reading suspended ((reader_of_ctx allocated).trans waits)) ?_
      rintro _ ⟨⟩
      exact ⟨rfl, held, .inl ⟨opened, Function.update_self ..⟩⟩
    · exact (fine other).congr rfl rfl (Function.update_of_ne same ..) (Function.update_of_ne same ..) rfl Iff.rfl
        Iff.rfl
  · rw [slots_writer none allocated rfl, slots_hand (some call) none]
    refine accounted.move .hand (.writer stream) rfl ?_
    simp [slots, writer_of_ctx allocated, idle]

/-- The reader of a stream is taken out of its context. -/
theorem Sound.takeReader (sound : Sound none state) (allocated : state.ctxs stream = some ctx)
    (waits : ctx.reading = some suspended) :
    Sound (some suspended.call) (state.setCtx stream (some { ctx with reading := none })) := by
  obtain ⟨fine, fresh, accounted⟩ := sound
  refine ⟨fun other => ?_, fresh, ?_⟩
  · by_cases same : other = stream
    · subst same
      exact (fine other).adjust allocated (Function.update_self ..) rfl rfl rfl rfl rfl rfl (fun _ => nofun)
        fun suspended waits => (fine other).writing suspended ((writer_of_ctx allocated).trans waits)
    · exact (fine other).congr rfl rfl rfl (Function.update_of_ne same ..) rfl Iff.rfl Iff.rfl
  · rw [slots_hand none, slots_reader none allocated rfl]
    refine accounted.move (.reader stream) .hand ?_ rfl
    simp [slots, reader_of_ctx allocated, waits]

/-- The writer of a stream is taken out of its context. -/
theorem Sound.takeWriter (sound : Sound none state) (allocated : state.ctxs stream = some ctx)
    (waits : ctx.writing = some suspended) :
    Sound (some suspended.call) (state.setCtx stream (some { ctx with writing := none })) := by
  obtain ⟨fine, fresh, accounted⟩ := sound
  refine ⟨fun other => ?_, fresh, ?_⟩
  · by_cases same : other = stream
    · subst same
      exact (fine other).adjust allocated (Function.update_self ..) rfl rfl rfl rfl rfl rfl
        (fun suspended waits => (fine other).reading suspended ((reader_of_ctx allocated).trans waits)) fun _ => nofun
    · exact (fine other).congr rfl rfl rfl (Function.update_of_ne same ..) rfl Iff.rfl Iff.rfl
  · rw [slots_hand none, slots_writer none allocated rfl]
    refine accounted.move (.writer stream) .hand ?_ rfl
    simp [slots, writer_of_ctx allocated, waits]

end Calls

section Loops

theorem object_eq {object : QuicStream} (found : state.objects stream = some object) :
    state.object stream = .ok object := by
  rw [Streams.object, found]

theorem deref_eq (allocated : state.ctxs ptr = some ctx) : state.deref (some ptr) = .ok (ptr, ctx) := by
  rw [deref, allocated]

theorem slots_congr (readers : after.reader = before.reader) (writers : after.writer = before.writer) :
    slots hand after = slots hand before := by
  funext place
  cases place with
  | hand => rfl
  | reader other => simp only [slots, readers]
  | writer other => simp only [slots, writers]

theorem Sound.lt_created (sound : Sound hand state) (opened : state.phase stream ≠ .closed) : stream < state.created :=
  lt_of_not_ge fun fresh => opened (sound.fresh stream fresh).1

/-- The read loop goes as far as the library lets it. -/
theorem Sound.readLoop {result : ReadResult} (sound : Sound (some call) state) (held : state.Held stream)
    (opened : state.phase stream ≠ .closed) (idle : state.reader stream = none)
    (willing : result = .wouldBlock → state.phase stream = .opened) :
    ∃ after, state.readLoop stream call result = .ok after ∧ Sound none after := by
  obtain ⟨ctx, found, allocated, -⟩ := (sound.fine stream).pointers held opened
  rw [reader_of_ctx allocated] at idle
  simp only [Streams.readLoop, object_eq found, deref_eq allocated, bind, Except.bind]
  cases result with
  | some count => exact ⟨_, rfl, sound.finish _⟩
  | finished => exact ⟨_, rfl, sound.finish _⟩
  | failed => exact ⟨_, rfl, sound.finish _⟩
  | wouldBlock => exact ⟨_, rfl, sound.suspendReader held allocated idle (willing rfl)⟩

/-- A stream whose flag is set when it is queued and written. -/
theorem Sound.written (sound : Sound hand before) (held : before.Held stream)
    (allocated : before.ctxs stream = some ctx)
    (ctxs : after.ctxs = Function.update before.ctxs stream (some { ctx with wantFlush := true }))
    (written : after.written = stream :: before.written)
    (wantFlush : ∀ other, other ∈ after.wantFlush ↔ other = stream ∨ other ∈ before.wantFlush)
    (same : after = { before with
      ctxs := after.ctxs, written := after.written, wantFlush := after.wantFlush, wantProcess := after.wantProcess }) :
    Sound hand after := by
  obtain ⟨fine, fresh, accounted⟩ := sound
  have opened : before.phase stream ≠ .closed := (fine stream).live.mp (by rw [allocated]; rfl)
  have old : stream < before.created := lt_of_not_ge fun new => opened (fresh stream new).1
  have changed : after.ctxs stream = some { ctx with wantFlush := true } := by rw [ctxs, Function.update_self]
  have elsewhere : ∀ other, other ≠ stream → after.ctxs other = before.ctxs other := fun other different => by
    rw [ctxs, Function.update_of_ne different]
  have readers : after.reader = before.reader := by
    funext other
    by_cases here : other = stream
    · rw [here, reader_of_ctx changed, reader_of_ctx allocated]
    · rw [reader, elsewhere other here, reader]
  have writers : after.writer = before.writer := by
    funext other
    by_cases here : other = stream
    · rw [here, writer_of_ctx changed, writer_of_ctx allocated]
    · rw [writer, elsewhere other here, writer]
  have phase : after.phase = before.phase := by rw [same]
  have objects : after.objects = before.objects := by rw [same]
  have wantRead : after.wantRead = before.wantRead := by rw [same]
  have wantWrite : after.wantWrite = before.wantWrite := by rw [same]
  refine ⟨fun other => ?_, fun other new => ?_, ?_⟩
  · by_cases here : other = stream
    · subst here
      obtain ⟨live, object, back, reading, writing, flushed, queued⟩ := fine other
      have owned : after.Held other := by rwa [Held, objects]
      refine ⟨?_, ?_, ?_, ?_, ?_, ?_, ?_⟩
      · rw [changed, phase]
        exact iff_of_true rfl opened
      · rw [objects, phase]
        exact object
      · rintro _ found
        rw [changed] at found
        obtain rfl := Option.some.inj found
        rw [objects]
        exact back ctx allocated
      · rw [readers, Held, objects, phase, wantRead]
        exact reading
      · rw [writers, Held, objects, phase, wantWrite]
        exact writing
      · rintro _ found -
        rw [changed] at found
        obtain rfl := Option.some.inj found
        exact iff_of_true rfl ((wantFlush other).mpr (.inl rfl))
      · intro _
        rw [wantFlush, written]
        exact iff_of_true (.inl rfl) (List.mem_cons_self ..)
    · refine (fine other).congr ?_ ?_ ?_ (elsewhere other here) ?_ ?_ ?_
      · rw [phase]
      · rw [wantRead]
      · rw [wantWrite]
      · rw [objects]
      · rw [wantFlush, or_iff_right here]
      · rw [written, List.mem_cons, or_iff_right here]
  · have created : after.created = before.created := by rw [same]
    rw [created] at new
    obtain ⟨closed, gone, unqueued, unwritten⟩ := fresh other new
    have here : other ≠ stream := by
      rintro rfl
      exact absurd old (not_lt_of_ge new)
    rw [phase, objects, wantFlush, written, List.mem_cons, or_iff_right here, or_iff_right here]
    exact ⟨closed, gone, unqueued, unwritten⟩
  · have results : after.results = before.results := by rw [same]
    have calls : after.calls = before.calls := by rw [same]
    rw [slots_congr readers writers, results, calls]
    exact accounted

/-- A stream that was written is in the queue afterwards, if it was not before. -/
theorem Sound.queueFlush (sound : Sound hand state) (held : state.Held stream) (allocated : state.ctxs stream = some ctx)
    (points : ctx.stream = some stream) :
    ∃ after, { state with written := stream :: state.written }.queueFlush stream = .ok after ∧ Sound hand after ∧
      after.phase = state.phase ∧ after.objects = state.objects ∧
      after.ctxs = Function.update state.ctxs stream (some { ctx with wantFlush := true }) := by
  have alive : ¬ (state.objects stream).isNone := by
    rw [Option.isNone_iff_eq_none, ← Option.not_isSome_iff_eq_none, not_not]
    exact held
  have found := @deref_eq { state with written := stream :: state.written } stream ctx allocated
  simp only [Streams.queueFlush, found, bind, Except.bind]
  by_cases flag : ctx.wantFlush
  · have queued := ((sound.fine stream).flushed ctx allocated held).mp flag
    have same : state.ctxs = Function.update state.ctxs stream (some { ctx with wantFlush := true }) := by
      rw [← flag, ← allocated, Function.update_eq_self]
    rw [if_pos flag]
    refine ⟨_, rfl, sound.written held allocated same rfl (fun other => ?_) rfl, rfl, rfl, same⟩
    exact (or_iff_right_of_imp fun here => here ▸ queued).symm
  · rw [if_neg flag]
    split
    · next none =>
      rw [points] at none
      cases none
    · next target same =>
      obtain rfl := Option.some.inj (points.symm.trans same)
      split
      · next gone => exact absurd gone alive
      · refine ⟨_, rfl, sound.written held allocated rfl rfl (fun other => ?_) rfl, rfl, rfl, rfl⟩
        exact List.mem_append.trans (or_comm.trans (or_congr_left List.mem_singleton))

/-- The write loop goes as far as the library lets it. -/
theorem Sound.writeLoop {result : WriteResult} (sound : Sound (some call) state) (held : state.Held stream)
    (opened : state.phase stream ≠ .closed) (idle : state.writer stream = none)
    (willing : result = .full → state.phase stream = .opened) :
    ∃ after, state.writeLoop stream call result = .ok after ∧ Sound none after := by
  obtain ⟨ctx, found, allocated, points⟩ := (sound.fine stream).pointers held opened
  obtain ⟨middle, flushed, kept, phase, objects, ctxs⟩ := sound.queueFlush held allocated points
  rw [writer_of_ctx allocated] at idle
  have changed : middle.ctxs stream = some { ctx with wantFlush := true } := by rw [ctxs, Function.update_self]
  simp only [Streams.writeLoop, object_eq found, deref_eq allocated, flushed, bind, Except.bind]
  cases result with
  | some count => exact ⟨_, rfl, kept.finish _⟩
  | failed => exact ⟨_, rfl, kept.finish _⟩
  | full =>
    simp only [deref_eq changed]
    refine ⟨_, rfl, kept.suspendWriter ?_ changed idle ?_⟩
    · rwa [Held, objects]
    · rw [phase]
      exact willing rfl

end Loops

section Operations

theorem Sound.readSome {result : ReadResult} (sound : Sound none state) (held : state.Held stream)
    (willing : result = .wouldBlock → state.phase stream = .opened) :
    ∃ after, state.readSome stream result = .ok after ∧ Sound none after := by
  have begun := sound.begin
  by_cases closed : state.phase stream = .closed
  · have found := (sound.fine stream).detached held closed
    simp only [Streams.readSome, @object_eq { state with calls := state.calls + 1 } stream _ found, bind, Except.bind]
    exact ⟨_, rfl, begun.finish _⟩
  · obtain ⟨ctx, found, allocated, -⟩ := (sound.fine stream).pointers held closed
    simp only [Streams.readSome, @object_eq { state with calls := state.calls + 1 } stream _ found,
      @deref_eq { state with calls := state.calls + 1 } stream ctx allocated, bind, Except.bind]
    by_cases waits : ctx.reading.isSome
    · refine ⟨_, if_pos waits, begun.finish _⟩
    · obtain ⟨after, read, kept⟩ :=
        begun.readLoop held closed ((reader_of_ctx allocated).trans (by simpa using waits)) willing
      exact ⟨after, (if_neg waits).trans read, kept⟩

theorem Sound.writeSome {result : WriteResult} (sound : Sound none state) (held : state.Held stream)
    (willing : result = .full → state.phase stream = .opened) :
    ∃ after, state.writeSome stream result = .ok after ∧ Sound none after := by
  have begun := sound.begin
  by_cases closed : state.phase stream = .closed
  · have found := (sound.fine stream).detached held closed
    simp only [Streams.writeSome, @object_eq { state with calls := state.calls + 1 } stream _ found, bind, Except.bind]
    exact ⟨_, rfl, begun.finish _⟩
  · obtain ⟨ctx, found, allocated, -⟩ := (sound.fine stream).pointers held closed
    simp only [Streams.writeSome, @object_eq { state with calls := state.calls + 1 } stream _ found,
      @deref_eq { state with calls := state.calls + 1 } stream ctx allocated, bind, Except.bind]
    by_cases waits : ctx.writing.isSome
    · refine ⟨_, if_pos waits, begun.finish _⟩
    · obtain ⟨after, wrote, kept⟩ :=
        begun.writeLoop held closed ((writer_of_ctx allocated).trans (by simpa using waits)) willing
      exact ⟨after, (if_neg waits).trans wrote, kept⟩

theorem Sound.reset (sound : Sound hand state) (held : state.Held stream) : state.reset stream = .ok state := by
  by_cases closed : state.phase stream = .closed
  · simp only [Streams.reset, object_eq ((sound.fine stream).detached held closed), bind, Except.bind]
    rfl
  · obtain ⟨ctx, found, allocated, -⟩ := (sound.fine stream).pointers held closed
    simp only [Streams.reset, object_eq found, deref_eq allocated, bind, Except.bind]
    rfl

theorem idle_of_not_busy (idle : ¬ state.Busy stream) : state.reader stream = none ∧ state.writer stream = none := by
  rcases found : state.ctxs stream with _ | ctx
  · simp [reader, writer, found]
  · rw [reader_of_ctx found, writer_of_ctx found, ← Option.not_isSome_iff_eq_none, ← Option.not_isSome_iff_eq_none,
      ← not_or]
    exact fun waits => idle ⟨ctx, found, waits⟩

/-- A stream whose object is gone and for which nobody waits. -/
theorem Fine.dropped (fine : before.Fine stream) (objects : after.objects stream = none)
    (idle : after.reader stream = none ∧ after.writer stream = none) (phase : after.phase stream = before.phase stream)
    (ctxs : after.ctxs stream = before.ctxs stream) : after.Fine stream := by
  have unheld : ¬ after.Held stream := by
    rw [Held, objects]
    exact nofun
  refine ⟨?_, ?_, ?_, ?_, ?_, fun _ _ held => (unheld held).elim, fun held => (unheld held).elim⟩
  · rw [ctxs, phase]
    exact fine.live
  · rw [objects]
    exact fun _ => nofun
  · rw [ctxs, objects]
    exact fun ctx allocated => (fine.back ctx allocated).imp_right fun none => ⟨none.1, rfl⟩
  · rw [idle.1]
    exact fun _ => nofun
  · rw [idle.2]
    exact fun _ => nofun

theorem Sound.release (sound : Sound none state) (held : state.Held stream) (idle : ¬ state.Busy stream) :
    ∃ after, state.release stream = .ok after ∧ Sound none after := by
  have untouched := sound.reset held
  obtain ⟨fine, fresh, accounted⟩ := sound
  refine ⟨{ state with objects := Function.update state.objects stream none }, ?_, fun other => ?_,
    fun other new => ?_, accounted⟩
  · simp only [Streams.release, untouched, bind, Except.bind]
    rfl
  · by_cases same : other = stream
    · subst same
      exact (fine other).dropped (Function.update_self ..) (idle_of_not_busy idle) rfl rfl
    · exact (fine other).congr rfl rfl rfl rfl (Function.update_of_ne same ..) Iff.rfl Iff.rfl
  · obtain ⟨closed, absent, unqueued, unwritten⟩ := fresh other new
    refine ⟨closed, ?_, unqueued, unwritten⟩
    dsimp only
    rw [Function.update_apply]
    split_ifs
    · rfl
    · exact absent

/-- Nobody waits for input, so the library need not call back. -/
theorem Sound.setWantRead (sound : Sound hand state) (idle : state.reader stream = none) (want : Bool) :
    Sound hand { state with wantRead := Function.update state.wantRead stream want } := by
  obtain ⟨fine, fresh, accounted⟩ := sound
  refine ⟨fun other => ?_, fresh, accounted⟩
  by_cases same : other = stream
  · subst same
    obtain ⟨live, object, back, reading, writing, flushed, queued⟩ := fine other
    exact ⟨live, object, back, fun _ waits => (nomatch idle.symm.trans waits), writing, flushed, queued⟩
  · exact (fine other).congr rfl (Function.update_of_ne same ..) rfl rfl rfl Iff.rfl Iff.rfl

theorem Sound.setWantWrite (sound : Sound hand state) (idle : state.writer stream = none) (want : Bool) :
    Sound hand { state with wantWrite := Function.update state.wantWrite stream want } := by
  obtain ⟨fine, fresh, accounted⟩ := sound
  refine ⟨fun other => ?_, fresh, accounted⟩
  by_cases same : other = stream
  · subst same
    obtain ⟨live, object, back, reading, writing, flushed, queued⟩ := fine other
    exact ⟨live, object, back, reading, fun _ waits => (nomatch idle.symm.trans waits), flushed, queued⟩
  · exact (fine other).congr rfl rfl (Function.update_of_ne same ..) rfl rfl Iff.rfl Iff.rfl

/-- The library goes on closing a stream; a coroutine that it has passed over waits no more. -/
theorem Sound.setPhase {phase : Phase} (sound : Sound hand state) (opened : state.phase stream ≠ .closed)
    (closing : phase ≠ .closed) (passed : state.reader stream = none)
    (waiting : state.writer stream = none ∨ phase = .readerResumed) :
    Sound hand { state with phase := Function.update state.phase stream phase } := by
  have old := sound.lt_created opened
  obtain ⟨fine, fresh, accounted⟩ := sound
  refine ⟨fun other => ?_, fun other new => ?_, accounted⟩
  · by_cases same : other = stream
    · subst same
      have changed : Function.update state.phase other phase other = phase := Function.update_self ..
      obtain ⟨live, object, back, reading, writing, flushed, queued⟩ := fine other
      refine ⟨?_, ?_, back, fun _ waits => (nomatch passed.symm.trans waits), fun suspended waits => ?_, flushed,
        queued⟩
      · dsimp only
        rw [changed, live]
        exact iff_of_true opened closing
      · intro held found
        have still : Function.update state.phase other phase other ≠ .closed := changed.symm ▸ closing
        exact (object held found).trans ((if_neg opened).trans (if_neg still).symm)
      · obtain ⟨same, held, -⟩ := writing suspended waits
        dsimp only
        rw [changed]
        exact ⟨same, held, .inr (waiting.resolve_left fun none => nomatch none.symm.trans waits)⟩
    · exact (fine other).congr (Function.update_of_ne same ..) rfl rfl rfl rfl Iff.rfl Iff.rfl
  · have different : other ≠ stream := by
      rintro rfl
      exact absurd old (not_lt_of_ge new)
    dsimp only
    rw [Function.update_of_ne different]
    exact fresh other new

/-- A reader that is resumed goes on with its loop. -/
theorem resumeReader_spec {result : ReadResult} (allocated : state.ctxs ptr = some ctx)
    (idle : ctx.reading = none → Sound none state)
    (waits : ∀ suspended, ctx.reading = some suspended → suspended.stream = ptr ∧ state.Held ptr ∧
      Sound (some suspended.call) (state.setCtx ptr (some { ctx with reading := none })))
    (opened : state.phase ptr ≠ .closed) (willing : result = .wouldBlock → state.phase ptr = .opened) :
    ∃ after, state.resumeReader ptr result = .ok after ∧ Sound none after := by
  simp only [resumeReader, deref_eq allocated, bind, Except.bind]
  cases reading : ctx.reading with
  | none => exact ⟨_, rfl, idle reading⟩
  | some suspended =>
    obtain ⟨rfl, held, sound⟩ := waits suspended reading
    refine sound.readLoop held opened ?_ willing
    rw [reader_setCtx]

/-- A writer that is resumed goes on with its loop. -/
theorem resumeWriter_spec {result : WriteResult} (allocated : state.ctxs ptr = some ctx)
    (idle : ctx.writing = none → Sound none state)
    (waits : ∀ suspended, ctx.writing = some suspended → suspended.stream = ptr ∧ state.Held ptr ∧
      Sound (some suspended.call) (state.setCtx ptr (some { ctx with writing := none })))
    (opened : state.phase ptr ≠ .closed) (willing : result = .full → state.phase ptr = .opened) :
    ∃ after, state.resumeWriter ptr result = .ok after ∧ Sound none after := by
  simp only [resumeWriter, deref_eq allocated, bind, Except.bind]
  cases writing : ctx.writing with
  | none => exact ⟨_, rfl, idle writing⟩
  | some suspended =>
    obtain ⟨rfl, held, sound⟩ := waits suspended writing
    refine sound.writeLoop held opened ?_ willing
    rw [writer_setCtx]

theorem Sound.onRead {result : ReadResult} (sound : Sound none state) (opened : state.phase ptr = .opened) :
    ∃ after, state.onRead ptr result = .ok after ∧ Sound none after := by
  have living : state.phase ptr ≠ .closed := by rw [opened]; nofun
  obtain ⟨ctx, allocated⟩ := Option.isSome_iff_exists.mp ((sound.fine ptr).live.mpr living)
  refine resumeReader_spec allocated (fun idle => ?_) (fun suspended waits => ?_) living fun _ => opened
  · exact sound.setWantRead ((reader_of_ctx allocated).trans idle) false
  · obtain ⟨same, held, -⟩ := (sound.fine ptr).reading suspended ((reader_of_ctx allocated).trans waits)
    have taken := sound.takeReader allocated waits
    exact ⟨same, held, taken.setWantRead
      (reader_setCtx ..) false⟩

theorem Sound.onWrite {result : WriteResult} (sound : Sound none state) (opened : state.phase ptr = .opened) :
    ∃ after, state.onWrite ptr result = .ok after ∧ Sound none after := by
  have living : state.phase ptr ≠ .closed := by rw [opened]; nofun
  obtain ⟨ctx, allocated⟩ := Option.isSome_iff_exists.mp ((sound.fine ptr).live.mpr living)
  refine resumeWriter_spec allocated (fun idle => ?_) (fun suspended waits => ?_) living fun _ => opened
  · exact sound.setWantWrite ((writer_of_ctx allocated).trans idle) false
  · obtain ⟨same, held, -⟩ := (sound.fine ptr).writing suspended ((writer_of_ctx allocated).trans waits)
    have taken := sound.takeWriter allocated waits
    exact ⟨same, held, taken.setWantWrite
      (writer_setCtx ..) false⟩

theorem Sound.closeReader {result : ReadResult} (sound : Sound none state) (opened : state.phase ptr = .opened)
    (willing : result ≠ .wouldBlock) : ∃ after, state.closeReader ptr result = .ok after ∧ Sound none after := by
  have living : state.phase ptr ≠ .closed := by rw [opened]; nofun
  obtain ⟨ctx, allocated⟩ := Option.isSome_iff_exists.mp ((sound.fine ptr).live.mpr living)
  refine resumeReader_spec allocated (fun idle => ?_) (fun suspended waits => ?_) ?_ fun blocks =>
    (willing blocks).elim
  · exact sound.setPhase living nofun ((reader_of_ctx allocated).trans idle) (.inr rfl)
  · obtain ⟨same, held, -⟩ := (sound.fine ptr).reading suspended ((reader_of_ctx allocated).trans waits)
    have taken := sound.takeReader allocated waits
    exact ⟨same, held, taken.setPhase living nofun
      (reader_setCtx ..) (.inr rfl)⟩
  · exact (Function.update_self ..).trans_ne nofun

theorem Sound.closeWriter {result : WriteResult} (sound : Sound none state) (closing : state.phase ptr = .readerResumed)
    (willing : result ≠ .full) : ∃ after, state.closeWriter ptr result = .ok after ∧ Sound none after := by
  have living : state.phase ptr ≠ .closed := by rw [closing]; nofun
  have passed : state.reader ptr = none := Option.eq_none_iff_forall_ne_some.mpr fun suspended waits =>
    nomatch closing.symm.trans ((sound.fine ptr).reading suspended waits).2.2.1
  obtain ⟨ctx, allocated⟩ := Option.isSome_iff_exists.mp ((sound.fine ptr).live.mpr living)
  refine resumeWriter_spec allocated (fun idle => ?_) (fun suspended waits => ?_) ?_ fun blocks =>
    (willing blocks).elim
  · exact sound.setPhase living nofun passed (.inl ((writer_of_ctx allocated).trans idle))
  · obtain ⟨same, held, -⟩ := (sound.fine ptr).writing suspended ((writer_of_ctx allocated).trans waits)
    have taken := sound.takeWriter allocated waits
    refine ⟨same, held, taken.setPhase living nofun ?_
      (.inl (writer_setCtx ..))⟩
    rw [reader_setCtx, ← reader_of_ctx allocated]
    exact passed
  · exact (Function.update_self ..).trans_ne nofun

/-- The last turn detaches the object, if it is still there, and deletes the context; nobody waits in it. -/
theorem Sound.closeObject (sound : Sound none state) (closing : state.phase ptr = .writerResumed) :
    ∃ after, state.closeObject ptr = .ok after ∧ Sound none after := by
  have living : state.phase ptr ≠ .closed := by rw [closing]; nofun
  have old := sound.lt_created living
  obtain ⟨ctx, allocated⟩ := Option.isSome_iff_exists.mp ((sound.fine ptr).live.mpr living)
  obtain ⟨fine, fresh, accounted⟩ := sound
  have unread : state.reader ptr = none := Option.eq_none_iff_forall_ne_some.mpr fun suspended waits =>
    nomatch closing.symm.trans ((fine ptr).reading suspended waits).2.2.1
  have unwritten : state.writer ptr = none := Option.eq_none_iff_forall_ne_some.mpr fun suspended waits => by
    rcases ((fine ptr).writing suspended waits).2.2 with ⟨opened, -⟩ | passed
    · exact nomatch closing.symm.trans opened
    · exact nomatch closing.symm.trans passed
  have detaches : state.detach ctx.stream = state.onClose ptr := by
    rcases (fine ptr).back ctx allocated with points | ⟨points, gone⟩
    · rw [points]
      rfl
    · rw [points, onClose, gone, Option.map_none, ← gone, Function.update_eq_self]
      rfl
  let after := { state.onClose ptr with phase := Function.update state.phase ptr .closed }.setCtx ptr none
  have deleted : after.ctxs ptr = none := Function.update_self ..
  have closed : after.phase ptr = .closed := Function.update_self ..
  have detached : after.objects ptr = (state.objects ptr).map fun _ => ⟨none⟩ := Function.update_self ..
  have elsewhere : ∀ other, other ≠ ptr → after.ctxs other = state.ctxs other ∧
      after.phase other = state.phase other ∧ after.objects other = state.objects other := fun other different =>
    ⟨Function.update_of_ne different .., Function.update_of_ne different .., Function.update_of_ne different ..⟩
  refine ⟨after, ?_, fun other => ?_, fun other new => ?_, ?_⟩
  · simp only [Streams.closeObject, deref_eq allocated, bind, Except.bind, detaches]
    rfl
  · by_cases same : other = ptr
    · subst same
      have owned : after.Held other ↔ state.Held other := by rw [Held, detached, Option.isSome_map, Held]
      refine ⟨?_, ?_, ?_, ?_, ?_, ?_, ?_⟩
      · rw [deleted, closed]
        exact iff_of_false nofun (not_not_intro rfl)
      · intro object found
        rw [detached] at found
        obtain ⟨_, -, rfl⟩ := Option.map_eq_some_iff.mp found
        rw [if_pos closed]
      · intro _ found
        rw [deleted] at found
        cases found
      · intro _ waits
        rw [reader, deleted] at waits
        cases waits
      · intro _ waits
        rw [writer, deleted] at waits
        cases waits
      · intro _ found
        rw [deleted] at found
        cases found
      · rw [owned]
        exact (fine other).queued
    · obtain ⟨ctxs, phase, objects⟩ := elsewhere other same
      exact (fine other).congr phase rfl rfl ctxs objects Iff.rfl Iff.rfl
  · have different : other ≠ ptr := by
      rintro rfl
      exact absurd old (not_lt_of_ge new)
    obtain ⟨-, phase, objects⟩ := elsewhere other different
    rw [phase, objects]
    exact fresh other new
  · have readers : after.reader = state.reader := by
      funext other
      by_cases same : other = ptr
      · rw [same, unread, reader, deleted, Option.bind_none]
      · rw [reader, (elsewhere other same).1, reader]
    have writers : after.writer = state.writer := by
      funext other
      by_cases same : other = ptr
      · rw [same, unwritten, writer, deleted, Option.bind_none]
      · rw [writer, (elsewhere other same).1, writer]
    rw [slots_congr readers writers]
    exact accounted

/-- The library opens a stream, which gets an object if there is still a connection for it. -/
theorem Sound.newStream (connected : Bool) (sound : Sound none state) : Sound none (state.newStream connected) := by
  obtain ⟨fine, fresh, accounted⟩ := sound
  obtain ⟨closed, gone, unqueued, unwritten⟩ := fresh state.created le_rfl
  have missing : state.ctxs state.created = none := by
    rw [← Option.not_isSome_iff_eq_none, (fine state.created).live, closed]
    exact not_not_intro rfl
  let ctx : StreamCtx := { stream := if connected then some state.created else none }
  have allocated : (state.newStream connected).ctxs state.created = some ctx := Function.update_self ..
  have opened : (state.newStream connected).phase state.created = .opened := Function.update_self ..
  have object : (state.newStream connected).objects state.created =
      if connected then some ⟨some state.created⟩ else none := Function.update_self ..
  have elsewhere : ∀ other, other ≠ state.created → (state.newStream connected).ctxs other = state.ctxs other ∧
      (state.newStream connected).phase other = state.phase other ∧
      (state.newStream connected).objects other = state.objects other := fun other different =>
    ⟨Function.update_of_ne different .., Function.update_of_ne different .., Function.update_of_ne different ..⟩
  refine ⟨fun other => ?_, fun other new => ?_, ?_⟩
  · by_cases same : other = state.created
    · subst same
      refine ⟨?_, ?_, ?_, ?_, ?_, ?_, fun _ => iff_of_false unqueued unwritten⟩
      · rw [allocated, opened]
        exact iff_of_true rfl nofun
      · intro held found
        rw [object] at found
        rw [opened, if_neg nofun]
        split at found
        · cases found
          rfl
        · cases found
      · intro held found
        rw [allocated] at found
        cases found
        rw [object]
        cases connected
        · exact .inr ⟨rfl, rfl⟩
        · exact .inl rfl
      · intro suspended waits
        rw [reader_of_ctx allocated] at waits
        cases waits
      · intro suspended waits
        rw [writer_of_ctx allocated] at waits
        cases waits
      · intro held found _
        rw [allocated] at found
        cases found
        exact iff_of_false nofun unqueued
    · obtain ⟨ctxs, phase, objects⟩ := elsewhere other same
      exact (fine other).congr phase rfl rfl ctxs objects Iff.rfl Iff.rfl
  · have older : state.created ≤ other := Nat.le_of_succ_le new
    obtain ⟨-, phase, objects⟩ := elsewhere other (Nat.ne_of_gt new)
    rw [phase, objects]
    exact fresh other older
  · have readers : (state.newStream connected).reader = state.reader := by
      funext other
      by_cases same : other = state.created
      · rw [same, reader_of_ctx allocated, reader, missing, Option.bind_none]
      · rw [reader, (elsewhere other same).1, reader]
    have writers : (state.newStream connected).writer = state.writer := by
      funext other
      by_cases same : other = state.created
      · rw [same, writer_of_ctx allocated, writer, missing, Option.bind_none]
      · rw [writer, (elsewhere other same).1, writer]
    rw [slots_congr readers writers]
    exact accounted

end Operations

end Libp2p.Transport.Quic.Streams
