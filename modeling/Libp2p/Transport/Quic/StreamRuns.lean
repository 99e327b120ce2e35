import Libp2p.Transport.Quic.StreamSafety

/-! # Runs of an engine's streams

Every event but the flush keeps the invariant and has no fault. The flush goes through the pointers of the objects that
are queued, so it fails when one of them was detached meanwhile: a writer that is resumed by the closing of its stream
writes once more, which queues the stream, and then loses its pointer.
-/

namespace Libp2p.Transport.Quic.Streams

open Library Network

variable {state before after : Streams} {stream other : StreamPtr} {event : Event} {events : List Event}
  {queue : List StreamPtr}

section Flush

/-- The flags of the queued streams that still have objects are cleared. -/
def unflagged (queue : List StreamPtr) (state : Streams) : Streams :=
  { state with ctxs := fun stream => (state.ctxs stream).map fun ctx =>
      { ctx with wantFlush := ctx.wantFlush && !(queue.contains stream && (state.objects stream).isSome) } }

theorem unflagged_nil (state : Streams) : unflagged [] state = state := by
  simp [unflagged]

theorem unflagged_cons (stream : StreamPtr) (queue : List StreamPtr) (state : Streams) :
    unflagged queue (unflagged [stream] state) = unflagged (stream :: queue) state := by
  have same : ∀ other, (unflagged queue (unflagged [stream] state)).ctxs other =
      (unflagged (stream :: queue) state).ctxs other := by
    intro other
    simp only [unflagged, Option.map_map]
    refine congrArg (fun change => (state.ctxs other).map change) (funext fun ctx => ?_)
    have flag : ∀ flag here there gone : Bool, (flag && (!here || gone) && (!there || gone)) =
        (flag && (!here && !there || gone)) := by decide
    simp [flag]
  exact congrArg (fun ctxs => { state with ctxs }) (funext same)

theorem reader_unflagged (queue : List StreamPtr) (state : Streams) : (unflagged queue state).reader = state.reader := by
  funext stream
  simp only [reader, unflagged]
  cases state.ctxs stream <;> rfl

theorem writer_unflagged (queue : List StreamPtr) (state : Streams) : (unflagged queue state).writer = state.writer := by
  funext stream
  simp only [writer, unflagged]
  cases state.ctxs stream <;> rfl

/-- A held object is attached to its own context, or the stream is closed and it is attached to nothing. -/
def Attached (state : Streams) (stream : StreamPtr) : Prop :=
  state.Held stream → (state.phase stream = .closed ∧ state.objects stream = some ⟨none⟩) ∨
    (state.phase stream ≠ .closed ∧ state.objects stream = some ⟨some stream⟩ ∧ (state.ctxs stream).isSome)

theorem Fine.attached (fine : state.Fine stream) : state.Attached stream := by
  intro held
  by_cases closed : state.phase stream = .closed
  · exact .inl ⟨closed, fine.detached held closed⟩
  · obtain ⟨ctx, found, allocated, -⟩ := fine.pointers held closed
    exact .inr ⟨closed, found, Option.isSome_iff_exists.mpr ⟨ctx, allocated⟩⟩

theorem Attached.unflagged (queue : List StreamPtr) (attached : state.Attached stream) :
    (unflagged queue state).Attached stream := by
  intro held
  refine (attached held).imp_right fun ⟨opened, found, allocated⟩ => ⟨opened, found, ?_⟩
  rw [Streams.unflagged, Option.isSome_map]
  exact allocated

/-- An entry of the queue is skipped, flushed, or goes through a null pointer. -/
theorem flush_spec (attached : state.Attached stream) : state.flush stream =
    if state.Held stream ∧ state.phase stream = .closed then .error .nullPointer
    else .ok (unflagged [stream] state) := by
  by_cases held : state.Held stream
  · rcases attached held with ⟨closed, found⟩ | ⟨opened, found, allocated⟩
    · rw [if_pos ⟨held, closed⟩, flush, found]
      rfl
    · obtain ⟨ctx, allocated⟩ := Option.isSome_iff_exists.mp allocated
      rw [if_neg fun both => opened both.2, flush, found]
      simp only [deref_eq allocated, bind, Except.bind, pure, Except.pure]
      refine congrArg Except.ok (congrArg (fun ctxs => { state with ctxs }) (funext fun other => ?_))
      by_cases same : other = stream
      · subst same
        simp [allocated, found]
      · simp [same]
  · have gone : state.objects stream = none := Option.not_isSome_iff_eq_none.mp held
    rw [if_neg fun both => held both.1, flush, gone]
    refine congrArg Except.ok (congrArg (fun ctxs => { state with ctxs }) (funext fun other => ?_))
    by_cases same : other = stream
    · subst same
      simp [gone]
    · simp [same]

/-- The flush succeeds when no object in the queue is detached. -/
theorem foldlM_flush (attached : ∀ stream, state.Attached stream) : queue.foldlM flush state =
    if ∃ stream ∈ queue, state.Held stream ∧ state.phase stream = .closed then .error .nullPointer
    else .ok (unflagged queue state) := by
  induction queue generalizing state with
  | nil => simp [unflagged_nil, pure, Except.pure]
  | cons stream queue ih =>
    rw [List.foldlM_cons, flush_spec (attached stream)]
    by_cases detached : state.Held stream ∧ state.phase stream = .closed
    · rw [if_pos detached, if_pos ⟨stream, List.mem_cons_self .., detached⟩]
      rfl
    · rw [if_neg detached]
      refine (ih fun other => (attached other).unflagged [stream]).trans ?_
      rw [unflagged_cons]
      refine if_congr ?_ rfl rfl
      rw [List.exists_mem_cons_iff, or_iff_right detached]
      rfl

/-- A flush that succeeds keeps the invariant. -/
theorem Sound.unflagged (sound : Sound none state) : Sound none
    (unflagged state.wantFlush { state with wantProcess := false, wantFlush := [], written := [] }) := by
  obtain ⟨fine, fresh, accounted⟩ := sound
  let cleared := { state with wantProcess := false, wantFlush := [], written := [] }
  let after := Streams.unflagged state.wantFlush cleared
  have readers : after.reader = state.reader := reader_unflagged state.wantFlush cleared
  have writers : after.writer = state.writer := writer_unflagged state.wantFlush cleared
  have changed : ∀ stream ctx, after.ctxs stream = some ctx → ∃ old, state.ctxs stream = some old ∧
      ctx.stream = old.stream ∧
      ctx.wantFlush = (old.wantFlush && !(state.wantFlush.contains stream && (state.objects stream).isSome)) := by
    intro stream ctx found
    obtain ⟨old, allocated, rfl⟩ := Option.map_eq_some_iff.mp found
    exact ⟨old, allocated, rfl, rfl⟩
  refine ⟨fun stream => ?_, fun stream new => ?_, ?_⟩
  · obtain ⟨live, object, back, reading, writing, flushed, -⟩ := fine stream
    refine ⟨?_, object, ?_, ?_, ?_, ?_, fun _ => Iff.rfl⟩
    · exact (Bool.eq_iff_iff.mp Option.isSome_map).trans live
    · intro ctx found
      obtain ⟨old, allocated, same, -⟩ := changed stream ctx found
      rw [same]
      exact back old allocated
    · intro suspended waits
      exact reading suspended ((congrFun readers stream).symm.trans waits)
    · intro suspended waits
      exact writing suspended ((congrFun writers stream).symm.trans waits)
    · intro ctx found held
      obtain ⟨old, allocated, -, flag⟩ := changed stream ctx found
      refine iff_of_false (fun raised => ?_) nofun
      have owned : (state.objects stream).isSome = true := held
      rw [flag, owned, Bool.and_true, Bool.and_eq_true, Bool.not_eq_true'] at raised
      have queued := (flushed old allocated held).mp raised.1
      rw [List.contains_eq_mem, decide_eq_true queued] at raised
      cases raised.2
  · obtain ⟨closed, gone, -, -⟩ := fresh stream new
    exact ⟨closed, gone, nofun, nofun⟩
  · rw [slots_congr readers writers]
    exact accounted

/-- The flush fails exactly when an object that was written since the last flush is detached. -/
theorem Sound.process (sound : Sound none state) :
    if ∃ stream ∈ state.written, state.Held stream ∧ state.phase stream = .closed
      then state.process = .error .nullPointer else ∃ after, state.process = .ok after ∧ Sound none after := by
  have flushes : state.process = _ :=
    @foldlM_flush { state with wantProcess := false, wantFlush := [], written := [] } state.wantFlush
      fun stream held => (sound.fine stream).attached held
  have same : (∃ stream ∈ state.wantFlush, state.Held stream ∧ state.phase stream = .closed) ↔
      ∃ stream ∈ state.written, state.Held stream ∧ state.phase stream = .closed :=
    exists_congr fun stream => and_congr_left fun both => (sound.fine stream).queued both.1
  split
  · next detached => exact flushes.trans (if_pos (same.mpr detached))
  · next attached =>
    exact ⟨_, flushes.trans (if_neg fun detached => attached (same.mp detached)), sound.unflagged⟩

end Flush

/-- Every event but a flush that finds a detached object. -/
theorem Sound.perform (sound : Sound none state) (enabled : state.Enabled event) :
    if event = .process ∧ ∃ stream ∈ state.written, state.Held stream ∧ state.phase stream = .closed
      then state.perform event = .error .nullPointer
      else ∃ after, state.perform event = .ok after ∧ Sound none after := by
  cases event with
  | process =>
    have flushed := sound.process
    split at flushed
    · next detached => exact (if_pos ⟨rfl, detached⟩).mpr flushed
    · next attached => exact (if_neg fun detached => attached detached.2).mpr flushed
  | newStream connected => exact ⟨_, rfl, sound.newStream connected⟩
  | readSome stream result => exact sound.readSome enabled.1 enabled.2
  | writeSome stream result => exact sound.writeSome enabled.1 enabled.2
  | reset stream => exact ⟨_, sound.reset enabled, sound⟩
  | release stream => exact sound.release enabled.1 enabled.2
  | onRead ptr result => exact sound.onRead enabled.1
  | onWrite ptr result => exact sound.onWrite enabled.1
  | closeReader ptr result => exact sound.closeReader enabled.1 enabled.2
  | closeWriter ptr result => exact sound.closeWriter enabled.1 enabled.2
  | closeObject ptr => exact sound.closeObject enabled

/-- There are no streams yet. -/
theorem sound_initial : Sound none {} := by
  refine ⟨fun stream => ?_, fun stream _ => ⟨rfl, rfl, nofun, nofun⟩, ?_⟩
  · exact ⟨iff_of_false nofun (not_not_intro rfl), fun _ => nofun, fun _ => nofun, fun _ => nofun, fun _ => nofun,
      fun _ => nofun, fun _ => Iff.rfl⟩
  · refine (congrArg (fun slots => Accounted slots [] 0) (funext fun place => ?_)).mpr Accounted.initial
    cases place <;> rfl

theorem sound_of_runs (runs : Runs events state) : Sound none state := by
  refine Run.preserves (Sound none) sound_initial (fun event before after sound ⟨performed, enabled⟩ => ?_) runs
  have spec := sound.perform enabled
  split at spec
  · rw [spec] at performed
    cases performed
  · obtain ⟨_, same, kept⟩ := spec
    obtain rfl := Except.ok.inj (performed.symm.trans same)
    exact kept

/-- The only fault is a null pointer in the flush: when an object was written since the last flush, was detached by the
closing of its stream, and is still owned. -/
theorem fault_iff (runs : Runs events state) (enabled : state.Enabled event) (fault : Fault) :
    state.perform event = .error fault ↔ fault = .nullPointer ∧ event = .process ∧
      ∃ stream ∈ state.written, state.Held stream ∧ state.phase stream = .closed := by
  have spec := (sound_of_runs runs).perform enabled
  split at spec
  · next detached =>
    rw [spec, Except.error.injEq]
    exact eq_comm.trans (and_iff_left detached).symm
  · next attached =>
    obtain ⟨_, performed, -⟩ := spec
    rw [performed]
    exact iff_of_false nofun fun same => attached same.2

/-- A writer that waits for room when its stream is closed, and whose owner keeps the stream. -/
def resumedByClosing : List Event :=
  [.newStream true, .writeSome 0 .full, .process, .closeReader 0 .finished, .closeWriter 0 .failed, .closeObject 0]

/-- Follow the events, if each can happen and none has a fault. -/
def follow (events : List Event) : Option Streams :=
  events.foldlM (fun (before : Streams) event =>
    if before.Enabled event then (before.perform event).toOption else none) {}

theorem runs_of_follow (followed : follow events = some state) : Runs events state := Run.of_foldlM_except followed

theorem fault_iff_resumedByClosing : ∃ state, Runs resumedByClosing state ∧
    state.perform .process = .error .nullPointer := by
  have detached : (follow resumedByClosing).any (fun state => decide (∃ stream ∈ state.written,
    state.Held stream ∧ state.phase stream = .closed)) := by decide
  obtain ⟨state, followed, found⟩ := (Option.any_eq_true ..).mp detached
  have runs := runs_of_follow followed
  have enabled : state.Enabled .process := trivial
  exact ⟨state, runs, (fault_iff runs enabled .nullPointer).mpr ⟨rfl, rfl, of_decide_eq_true found⟩⟩

/-- The place where a suspended call is, and what will resume it: the callback that the library was asked for, or the
closing of the stream. -/
def Awaited (state : Streams) : Place → Prop
  | .hand => False
  | .reader stream => state.Held stream ∧ state.phase stream = .opened ∧ state.wantRead stream
  | .writer stream => state.Held stream ∧
      (state.phase stream = .opened ∧ state.wantWrite stream ∨ state.phase stream = .readerResumed)

theorem Sound.awaited (sound : Sound none state) (place : Place) (call : CallPtr)
    (waits : slots none state place = some call) : state.Awaited place := by
  cases place with
  | hand => cases waits
  | reader stream =>
    obtain ⟨suspended, found, -⟩ := Option.map_eq_some_iff.mp waits
    exact ((sound.fine stream).reading suspended found).2
  | writer stream =>
    obtain ⟨suspended, found, -⟩ := Option.map_eq_some_iff.mp waits
    exact ((sound.fine stream).writing suspended found).2

/-- Every call of `readSome` and `writeSome` has one result, or is suspended in one place where it will be resumed; so
all have their results when all streams are closed. -/
theorem answered_or_awaited (runs : Runs events state) :
    (∀ call < state.calls,
      ((state.results.map Prod.fst).count call = 1 ∧ ∀ place, slots none state place ≠ some call) ∨
      (call ∉ state.results.map Prod.fst ∧ ∃ place, slots none state place = some call ∧ state.Awaited place ∧
        ∀ other, slots none state other = some call → other = place)) ∧
    ((∀ stream, state.phase stream = .closed) → (state.results.map Prod.fst).Perm (List.range state.calls)) := by
  have sound := sound_of_runs runs
  obtain ⟨alone, unspent, once, complete⟩ := sound.accounted
  refine ⟨fun call made => ?_, fun closed => ?_⟩
  · rcases (complete call).mp made with ⟨place, waits⟩ | answered
    · exact .inr ⟨unspent place call waits, place, waits, sound.awaited place call waits, fun other again =>
        alone other place call again waits⟩
    · exact .inl ⟨List.count_eq_one_of_mem once answered, fun place waits => unspent place call waits answered⟩
  · refine (List.perm_ext_iff_of_nodup once List.nodup_range).mpr fun call => ?_
    rw [List.mem_range, complete, or_iff_right]
    rintro ⟨place, waits⟩
    have awaited := sound.awaited place call waits
    cases place with
    | hand => exact awaited
    | reader stream => exact nomatch (closed stream).symm.trans awaited.2.1
    | writer stream =>
      rcases awaited.2 with ⟨opened, -⟩ | passed
      · exact nomatch (closed stream).symm.trans opened
      · exact nomatch (closed stream).symm.trans passed

theorem answered_or_awaited_resumedByClosing : ∃ state, Runs resumedByClosing state ∧
    (state.results.map Prod.fst).Perm (List.range state.calls) := by
  have closed : (follow resumedByClosing).any (fun state => state.created = 1 ∧ state.phase 0 = .closed) := by decide
  obtain ⟨state, followed, found⟩ := (Option.any_eq_true ..).mp closed
  obtain ⟨one, first⟩ := of_decide_eq_true found
  have runs := runs_of_follow followed
  refine ⟨state, runs, (answered_or_awaited runs).2 fun stream => ?_⟩
  cases stream with
  | zero => exact first
  | succ stream => exact ((sound_of_runs runs).fresh _ (one ▸ Nat.succ_le_succ stream.zero_le)).1

end Libp2p.Transport.Quic.Streams
