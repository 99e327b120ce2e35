import Libp2p.Library.Run
import Libp2p.Protocol.Gossip.Topic

/-! # The outbound lane of a peer

What one peer object holds for writing, with every coroutine that works on it as an entry of a pool. `checkWrite` spawns
a writer, `on_peer_connected` spawns a dialer, and any of them may go on at any time, as often as it is suspended. That
there is never more than one writer is not part of the model but a theorem about it. The lane also remembers what
happened: the entries put into batches, those of every batch that a writer took, and the frames that were written.
-/

namespace Libp2p.Gossip

open Library

/-- Where a writer coroutine is suspended: at its yield, or at the write of the first of some frames. -/
inductive Suspension where
  | yielding
  | writing (frames : List Bytes)
deriving DecidableEq

/-- The frames that a suspended writer still has to write. -/
def Suspension.frames : Suspension → List Bytes
  | .yielding => []
  | .writing frames => frames

structure Lane where
  streamOut : Option Stream := none
  batch : Option Rpc := none
  writing : Bool := false
  writers : List Suspension := []
  isConnecting : Bool := false
  dialers : ℕ := 0
  /-- An assertion failed, or a stream was used that is not there. -/
  asserted : Bool := false
  /-- All entries that were put into batches, oldest first. -/
  queued : List BatchOp := []
  /-- The entries of the batch that is pending. -/
  pending : List BatchOp := []
  /-- The entries of the batches that were taken, oldest first. -/
  taken : List (List BatchOp) := []
  written : List Bytes := []
  failed : Bool := false

/-- The batch that holds some entries. -/
def Rpc.ofOps (ops : List BatchOp) : Rpc := ops.foldl Rpc.apply {}

namespace Lane

/-- Spawn a writer unless there is one or nothing to write or nowhere to write to. -/
def checkWrite (lane : Lane) : Lane :=
  if lane.writing then lane
  else if lane.streamOut = none then lane
  else if lane.batch.isNone then lane
  else { lane with writing := true, writers := lane.writers ++ [.yielding] }

/-- `getBatch`; the caller then puts its entries into the batch. -/
def getBatch (lane : Lane) : Lane := checkWrite { lane with batch := some (lane.batch.getD {}) }

def put (lane : Lane) (op : BatchOp) : Lane :=
  { lane with
    batch := lane.batch.map (·.apply op)
    queued := lane.queued ++ [op]
    pending := lane.pending ++ [op] }

def putAll (lane : Lane) (ops : List BatchOp) : Lane := ops.foldl put lane

/-- A writer ends. -/
def finish (index : ℕ) (lane : Lane) : Lane :=
  { lane with writing := false, writers := lane.writers.eraseIdx index }

/-- A writer hands the next frame to the stream and is suspended; `value()` throws without a stream. -/
def startWrite (index : ℕ) (frames : List Bytes) (lane : Lane) : Lane :=
  { lane with writers := lane.writers.set index (.writing frames), asserted := lane.asserted || lane.streamOut.isNone }

/-- A writer takes the next batch; after an empty one there is none left. -/
def nextBatch (index : ℕ) (lane : Lane) : Lane :=
  match lane.batch with
  | none => lane.finish index
  | some batch =>
    let lane := { lane with batch := none, taken := lane.taken ++ [lane.pending], pending := [] }
    match batch.splitBatch with
    | [] => lane.finish index
    | frames => lane.startWrite index frames

/-- A writer resumes after its yield and asserts that it is still wanted. -/
def resume (index : ℕ) (lane : Lane) : Lane :=
  ({ lane with asserted := lane.asserted || ! lane.writing || lane.streamOut.isNone } : Lane).nextBatch index

/-- A write has completed. -/
def onWritten (index : ℕ) (frame : Bytes) (rest : List Bytes) (ok : Bool) (lane : Lane) : Lane :=
  if ok then
    let lane := { lane with written := lane.written ++ [frame] }
    if rest ≠ [] then lane.startWrite index rest
    else if lane.streamOut.isNone then lane.finish index
    else lane.nextBatch index
  else ({ lane with streamOut := none, failed := true } : Lane).finish index

/-- The peer has connected: spawn a dialer unless there is a stream or a dialer. -/
def connect (lane : Lane) : Lane :=
  if lane.streamOut.isNone ∧ ¬ lane.isConnecting then { lane with isConnecting := true, dialers := lane.dialers + 1 }
  else lane

/-- A dialer has ended; an open stream replaces what there was. Topics are announced if there are any. -/
def onOpened (stream : Option Stream) (announced : Option (List BatchOp)) (lane : Lane) : Lane :=
  let lane := { lane with isConnecting := false, dialers := lane.dialers - 1 }
  match stream with
  | none => lane
  | some stream =>
    let lane := { lane with streamOut := some stream }
    match announced with
    | none => lane
    | some ops => lane.getBatch.putAll ops

/-- What can happen to a lane between two suspensions. -/
inductive Event where
  | checkWrite
  | getBatch (ops : List BatchOp)
  | resume (index : ℕ)
  | written (index : ℕ) (ok : Bool)
  | connect
  | opened (stream : Option Stream) (announced : Option (List BatchOp))

def step (lane : Lane) : Event → Option Lane
  | .checkWrite => some lane.checkWrite
  | .getBatch ops => some (lane.getBatch.putAll ops)
  | .resume index => if lane.writers[index]? = some .yielding then some (lane.resume index) else none
  | .written index ok =>
    match lane.writers[index]? with
    | some (.writing (frame :: rest)) => some (lane.onWritten index frame rest ok)
    | _ => none
  | .connect => some lane.connect
  | .opened stream announced => if 0 < lane.dialers then some (lane.onOpened stream announced) else none

/-- All interleavings of what can happen to a new peer object. -/
abbrev Runs : List Event → Lane → Prop := Run (fun before event after => before.step event = some after) {}

/-- What holds at every suspension. -/
structure Sound (lane : Lane) : Prop where
  single : lane.writers.length ≤ 1
  running : lane.writers ≠ [] ↔ lane.writing = true
  streaming : lane.writers ≠ [] → lane.streamOut.isSome
  pendingFrames : ∀ frames, .writing frames ∈ lane.writers → frames ≠ []
  dialing : lane.dialers = if lane.isConnecting then 1 else 0
  closed : lane.isConnecting → lane.streamOut = none
  unasserted : lane.asserted = false
  unbatched : lane.batch = none → lane.pending = []
  batched : ∀ batch, lane.batch = some batch → batch = Rpc.ofOps lane.pending
  conserved : lane.queued = lane.taken.flatten ++ lane.pending
  sent : lane.failed = false → lane.written ++ lane.writers.flatMap Suspension.frames =
    lane.taken.flatMap fun ops => (Rpc.ofOps ops).splitBatch

variable {lane : Lane} {index : ℕ} {suspension : Suspension}

theorem sound_new : Sound {} := by
  constructor <;> simp

/-- A sound lane has no writer or exactly one. -/
theorem Sound.writers_eq (sound : lane.Sound) (found : lane.writers[index]? = some suspension) :
    index = 0 ∧ lane.writers = [suspension] := by
  have one := sound.single
  cases all : lane.writers with
  | nil => simp [all] at found
  | cons first rest =>
    obtain rfl : rest = [] := by simpa [all] using one
    rw [all] at found
    cases index with
    | zero => exact ⟨rfl, by simpa using found⟩
    | succ index => simp at found

theorem Sound.checkWrite (sound : lane.Sound) : lane.checkWrite.Sound := by
  unfold Lane.checkWrite
  split_ifs with writing closed empty
  · exact sound
  · exact sound
  · exact sound
  · obtain ⟨single, running, streaming, pendingFrames, dialing, closed', unasserted, unbatched, batched, conserved, sent⟩ :=
      sound
    have none : lane.writers = [] := by
      by_contra some
      exact writing (running.mp some)
    refine ⟨by simp [none], by simp, fun _ => Option.isSome_iff_ne_none.mpr closed, ?_, dialing, closed', unasserted,
      unbatched, batched, conserved, ?_⟩
    · intro frames member
      simp [none] at member
    · intro unfailed
      have flow := sent unfailed
      rw [none] at flow
      simpa [none, Suspension.frames] using flow

theorem Sound.getBatch (sound : lane.Sound) : lane.getBatch.Sound := by
  refine Sound.checkWrite ?_
  obtain ⟨single, running, streaming, pendingFrames, dialing, closed, unasserted, unbatched, batched, conserved, sent⟩ :=
    sound
  refine ⟨single, running, streaming, pendingFrames, dialing, closed, unasserted, by simp, ?_, conserved, sent⟩
  intro batch found
  obtain rfl := Option.some.inj found
  cases before : lane.batch with
  | none => rw [unbatched before]; rfl
  | some old => exact batched old before

theorem batch_getBatch : lane.getBatch.batch.isSome := by
  unfold getBatch checkWrite
  dsimp only
  split_ifs <;> rfl

theorem Sound.put (sound : lane.Sound) (present : lane.batch.isSome) (op : BatchOp) : (lane.put op).Sound := by
  obtain ⟨single, running, streaming, pendingFrames, dialing, closed, unasserted, -, batched, conserved, sent⟩ := sound
  obtain ⟨batch, found⟩ := Option.isSome_iff_exists.mp present
  refine ⟨single, running, streaming, pendingFrames, dialing, closed, unasserted, by simp [Lane.put, found], ?_, ?_, sent⟩
  · intro later changed
    simp only [Lane.put, found, Option.map_some, Option.some.injEq] at changed
    rw [← changed, batched batch found]
    simp [Lane.put, Rpc.ofOps]
  · simp only [Lane.put, conserved, List.append_assoc]

theorem Sound.putAll (sound : lane.Sound) (present : lane.batch.isSome) (ops : List BatchOp) : (lane.putAll ops).Sound := by
  induction ops generalizing lane with
  | nil => exact sound
  | cons op rest ih => exact ih (sound.put present op) (by simpa [Lane.put] using present)

/-- The only writer ends when it has nothing left to write. -/
theorem Sound.finish (sound : lane.Sound) (only : lane.writers = [suspension]) (done : suspension.frames = []) :
    (lane.finish 0).Sound := by
  obtain ⟨-, -, -, -, dialing, closed, unasserted, unbatched, batched, conserved, sent⟩ := sound
  have gone : (lane.finish 0).writers = [] := by simp [Lane.finish, only]
  refine ⟨by simp [gone], by rw [gone]; simp [Lane.finish], by simp [gone], by simp [gone], dialing, closed, unasserted,
    unbatched, batched, conserved, ?_⟩
  intro unfailed
  have flow := sent unfailed
  rw [only, List.flatMap_singleton, done] at flow
  rw [gone]
  exact flow

/-- The only writer goes on with frames that it has to write. -/
theorem Sound.startWrite {frames : List Bytes} (sound : lane.Sound) (only : lane.writers = [suspension])
    (some_ : frames ≠ []) (same : suspension.frames = frames) : (lane.startWrite 0 frames).Sound := by
  obtain ⟨single, running, streaming, -, dialing, closed, unasserted, unbatched, batched, conserved, sent⟩ := sound
  have writers : (lane.startWrite 0 frames).writers = [.writing frames] := by simp [Lane.startWrite, only]
  have open_ : lane.streamOut.isSome := streaming (by simp [only])
  refine ⟨by simp [writers], ?_, fun _ => open_, ?_, dialing, closed, ?_, unbatched, batched, conserved, ?_⟩
  · rw [writers]
    exact ⟨fun _ => running.mp (by simp [only]), fun _ => List.cons_ne_nil _ _⟩
  · intro other member
    rw [writers] at member
    cases List.mem_singleton.mp member
    exact some_
  · simp [Lane.startWrite, unasserted, Option.isNone_eq_false_iff.mpr open_]
  · intro unfailed
    have flow := sent unfailed
    rw [only, List.flatMap_singleton, same] at flow
    rw [writers, List.flatMap_singleton]
    exact flow

/-- The only writer takes what is pending. -/
theorem Sound.nextBatch (sound : lane.Sound) (only : lane.writers = [suspension]) (done : suspension.frames = []) :
    (lane.nextBatch 0).Sound := by
  unfold Lane.nextBatch
  split
  · exact sound.finish only done
  · next batch found =>
    obtain ⟨single, running, streaming, pendingFrames, dialing, closed, unasserted, unbatched, batched, conserved, sent⟩ :=
      sound
    have contents := batched batch found
    -- The frames of the batch are noted with the writer before it starts to write them.
    have noted : ∀ later : Suspension, later.frames = batch.splitBatch → (∀ frames, later = .writing frames → frames ≠ []) →
        ({ lane with
          batch := none, taken := lane.taken ++ [lane.pending], pending := [], writers := [later] } : Lane).Sound := by
      intro later frames some_
      refine ⟨by simp, by simpa using running.mp (by simp [only]), fun _ => streaming (by simp [only]), ?_, dialing, closed,
        unasserted, by simp, by simp, by simp [conserved], ?_⟩
      · intro frames member
        exact some_ frames (List.mem_singleton.mp member).symm
      · intro unfailed
        have flow := sent unfailed
        rw [only] at flow
        simp only [List.flatMap_cons, List.flatMap_nil, done, List.append_nil] at flow
        simp [flow, frames, contents]
    dsimp only
    split
    · next empty =>
      have idle := noted .yielding (by rw [empty]; rfl) (by simp)
      have ended := idle.finish rfl rfl
      simpa [Lane.finish, only] using ended
    · next frames some_ =>
      have busy := noted (.writing batch.splitBatch) rfl (by rintro _ ⟨⟩; exact some_)
      have started := busy.startWrite rfl some_ rfl
      simpa [Lane.startWrite, only] using started

/-- What a single writer does next does not depend on where it was suspended. -/
theorem nextBatch_writers (first second : Suspension) :
    ({ lane with writers := [first] } : Lane).nextBatch 0 = ({ lane with writers := [second] } : Lane).nextBatch 0 := by
  unfold nextBatch
  cases lane.batch with
  | none => rfl
  | some batch =>
    dsimp only
    cases batch.splitBatch <;> rfl

theorem Sound.resume (sound : lane.Sound) (found : lane.writers[index]? = some .yielding) : (lane.resume index).Sound := by
  obtain ⟨rfl, only⟩ := sound.writers_eq found
  have writing := sound.running.mp (by simp [only])
  have open_ := sound.streaming (by simp [only])
  have holds : (lane.asserted || ! lane.writing || lane.streamOut.isNone) = lane.asserted := by
    rw [writing, Option.isNone_eq_false_iff.mpr open_]
    simp
  have checked : ({ lane with asserted := lane.asserted || ! lane.writing || lane.streamOut.isNone } : Lane) = lane := by
    rw [holds]
  unfold Lane.resume
  rw [checked]
  exact sound.nextBatch only rfl

theorem Sound.onWritten {frame : Bytes} {rest : List Bytes} (sound : lane.Sound) (ok : Bool)
    (found : lane.writers[index]? = some (.writing (frame :: rest))) : (lane.onWritten index frame rest ok).Sound := by
  obtain ⟨rfl, only⟩ := sound.writers_eq found
  have open_ := sound.streaming (by simp [only])
  obtain ⟨single, running, streaming, pendingFrames, dialing, closed, unasserted, unbatched, batched, conserved, sent⟩ :=
    sound
  -- The frame moves from the writer to what was written.
  have moved : ∀ later : Suspension, later.frames = rest → (∀ frames, later = .writing frames → frames ≠ []) →
      ({ lane with written := lane.written ++ [frame], writers := [later] } : Lane).Sound := by
    intro later frames some_
    refine ⟨by simp, by simpa using running.mp (by simp [only]), fun _ => open_, ?_, dialing, closed, unasserted, unbatched,
      batched, conserved, ?_⟩
    · intro frames member
      exact some_ frames (List.mem_singleton.mp member).symm
    · intro unfailed
      have flow := sent unfailed
      rw [only, List.flatMap_singleton] at flow
      rw [List.flatMap_singleton, frames, List.append_assoc]
      exact flow
  cases ok with
  | false =>
    refine ⟨by simp [Lane.onWritten, Lane.finish, only], by simp [Lane.onWritten, Lane.finish, only],
      by simp [Lane.onWritten, Lane.finish, only], by simp [Lane.onWritten, Lane.finish, only], dialing, fun _ => rfl,
      unasserted, unbatched, batched, conserved, by simp [Lane.onWritten, Lane.finish]⟩
  | true =>
    cases rest with
    | cons next others =>
      have busy := moved (.writing (next :: others)) rfl (by rintro _ ⟨⟩; exact List.cons_ne_nil _ _)
      have started := busy.startWrite rfl (List.cons_ne_nil _ _) rfl
      simpa [Lane.onWritten, Lane.startWrite, only] using started
    | nil =>
      have idle := moved .yielding rfl (by simp)
      have taken := idle.nextBatch rfl rfl
      have same : ({ lane with written := lane.written ++ [frame], writers := [.yielding] } : Lane).nextBatch 0 =
          ({ lane with written := lane.written ++ [frame], writers := lane.writers } : Lane).nextBatch 0 := by
        rw [only]
        exact @nextBatch_writers { lane with written := lane.written ++ [frame] } .yielding (.writing [frame])
      rw [same] at taken
      simpa [Lane.onWritten, Option.isNone_eq_false_iff.mpr open_] using taken

theorem Sound.connect (sound : lane.Sound) : lane.connect.Sound := by
  unfold Lane.connect
  split_ifs with idle
  · obtain ⟨single, running, streaming, pendingFrames, dialing, closed, unasserted, unbatched, batched, conserved, sent⟩ :=
      sound
    refine ⟨single, running, streaming, pendingFrames, ?_, fun _ => Option.isNone_iff_eq_none.mp idle.1, unasserted,
      unbatched, batched, conserved, sent⟩
    simp [dialing, idle.2]
  · exact sound

theorem Sound.onOpened (sound : lane.Sound) (dialed : 0 < lane.dialers) (stream : Option Stream)
    (announced : Option (List BatchOp)) : (lane.onOpened stream announced).Sound := by
  obtain ⟨single, running, streaming, pendingFrames, dialing, closed, unasserted, unbatched, batched, conserved, sent⟩ :=
    sound
  have connecting : lane.isConnecting := by
    by_contra idle
    rw [dialing, if_neg idle] at dialed
    exact absurd dialed (lt_irrefl 0)
  -- While a dialer runs there is no stream and so no writer.
  have none : lane.writers = [] := by
    by_contra some_
    have open_ := streaming some_
    rw [closed connecting] at open_
    cases open_
  have ended : ∀ streamOut, ({ lane with isConnecting := false, dialers := lane.dialers - 1, streamOut } : Lane).Sound := by
    intro streamOut
    refine ⟨single, running, fun some_ => absurd none some_, pendingFrames, ?_, by simp, unasserted, unbatched, batched,
      conserved, sent⟩
    simp [dialing, connecting]
  unfold Lane.onOpened
  dsimp only
  split
  · exact ended _
  · split
    · exact ended _
    · exact Sound.putAll (ended _).getBatch batch_getBatch _

theorem Sound.step {event : Event} {later : Lane} (sound : lane.Sound) (stepped : lane.step event = some later) :
    later.Sound := by
  cases event with
  | checkWrite =>
    obtain rfl := Option.some.inj stepped
    exact sound.checkWrite
  | getBatch ops =>
    obtain rfl := Option.some.inj stepped
    exact sound.getBatch.putAll batch_getBatch ops
  | resume index =>
    obtain ⟨found, ⟨⟩⟩ := Option.ite_none_right_eq_some.mp stepped
    exact sound.resume found
  | written index ok =>
    simp only [Lane.step] at stepped
    split at stepped
    · next frame rest found =>
      obtain rfl := Option.some.inj stepped
      exact sound.onWritten ok found
    · cases stepped
  | connect =>
    obtain rfl := Option.some.inj stepped
    exact sound.connect
  | opened stream announced =>
    obtain ⟨dialed, ⟨⟩⟩ := Option.ite_none_right_eq_some.mp stepped
    exact sound.onOpened dialed stream announced

theorem sound_of_runs {events : List Event} (run : Runs events lane) : lane.Sound :=
  run.preserves Sound sound_new fun _ _ _ sound stepped => sound.step stepped

/-- However the coroutines of a peer interleave, it has at most one writer, which exists while `writing_` is set and
always finds a stream. No entry is lost between the batches. Until a write fails, what was written and what the writer
still has to write are the encodings of the batches that were taken, in order. -/
theorem single_writer_of_runs {events : List Event} (run : Runs events lane) :
    lane.writers.length ≤ 1 ∧ (lane.writers ≠ [] ↔ lane.writing = true) ∧
      (lane.writers ≠ [] → lane.streamOut.isSome) ∧ lane.asserted = false ∧
      lane.queued = lane.taken.flatten ++ lane.pending ∧
      (∀ batch, lane.batch = some batch → batch = Rpc.ofOps lane.pending) ∧
      (lane.failed = false → lane.written ++ lane.writers.flatMap Suspension.frames =
        lane.taken.flatMap fun ops => (Rpc.ofOps ops).splitBatch) := by
  have sound := sound_of_runs run
  exact ⟨sound.single, sound.running, sound.streaming, sound.unasserted, sound.conserved, sound.batched, sound.sent⟩

/-- A batch that waits for the stream, and one that is filled while the first is written. -/
def pipelined : List Event :=
  [.getBatch [.graft [0x74]], .connect, .opened (some ⟨0, [0x6d]⟩) (some [.subscribe [0x74] true]), .resume 0,
    .getBatch [.iwant [0x01]], .checkWrite, .written 0 true, .written 0 true]

theorem single_writer_of_runs_pipelined : ∃ lane, Runs pipelined lane ∧
    lane.taken = [[.graft [0x74], .subscribe [0x74] true], [.iwant [0x01]]] ∧ lane.written.length = 2 ∧
    lane.writers = [] ∧ lane.written ++ lane.writers.flatMap Suspension.frames =
      lane.taken.flatMap fun ops => (Rpc.ofOps ops).splitBatch := by
  have followed : (pipelined.foldlM step {}).map (fun lane =>
      decide (lane.taken = [[.graft [0x74], .subscribe [0x74] true], [.iwant [0x01]]]) &&
        decide (lane.written.length = 2) && decide (lane.writers = []) && decide (lane.failed = false)) = some true := by
    decide
  obtain ⟨lane, ran, observed⟩ := Option.map_eq_some_iff.mp followed
  simp only [Bool.and_eq_true, decide_eq_true_eq] at observed
  obtain ⟨⟨⟨taken, written⟩, ended⟩, unfailed⟩ := observed
  have run := Run.of_foldlM ran
  exact ⟨lane, run, taken, written, ended, (single_writer_of_runs run).2.2.2.2.2.2 unfailed⟩

end Lane

end Libp2p.Gossip
