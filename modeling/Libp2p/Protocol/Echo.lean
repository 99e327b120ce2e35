import Libp2p.Basic.Streams
import Libp2p.Library.Duplex

/-! # The echo server

The server writes back each piece it has read, `max_server_repeats` times or without end. A piece is what one
`readSome` happens to return, so how much is echoed depends on the schedule; that nothing else is, does not.
-/

namespace Libp2p.Echo

open Library

structure EchoConfig where
  maxServerRepeats : ℕ := 0
  maxRecvSize : ℕ := 4096

/-- `kInfiniteNumberOfRepeats` is zero. -/
def EchoConfig.repeatInfinitely (config : EchoConfig) : Bool := config.maxServerRepeats == 0

/-- What the server does with the result of `readSome`. -/
def writeBack (config : EchoConfig) (maxRepeat : ℕ) : Except StreamError Bytes → CoroOutcome (ℕ ⊕ Unit)
  | .error failure => .ret (.error failure)
  | .ok buf => do
    Coro.write buf
    pure (.inl (if config.repeatInfinitely then maxRepeat else maxRepeat - 1))

/-- One iteration of the server; the state is the number of repeats left. Every way out closes the stream. -/
def doRead (config : EchoConfig) (maxRepeat : ℕ) : CoroOutcome (ℕ ⊕ Unit) :=
  if config.repeatInfinitely ∨ maxRepeat ≠ 0 then .readSome config.maxRecvSize (writeBack config maxRepeat)
  else pure (.inr ())

/-- The server's coroutine as `handle` spawns it. -/
def handle (config : EchoConfig) : CoroOutcome (ℕ ⊕ Unit) := doRead config config.maxServerRepeats

/-- A client that writes `data` and waits until as much has come back. -/
def client (data : Bytes) (_ : Unit) : CoroOutcome (Unit ⊕ Unit) := do
  Coro.write data
  let _ ← Coro.read data.length
  pure (.inr ())

variable {σ : Type} {config : EchoConfig} {input output : Bytes}

/-- Where the server stands after any history: it is writing back, or it has written back everything and waits, or it
has used up its repeats, each of which took between one byte and `max_recv_size`. -/
structure Standing (config : EchoConfig) (maxRepeat : ℕ) (input output : Bytes) (last : CoroOutcome (ℕ ⊕ Unit)) :
    Prop where
  echoed : output <+: input
  bounded : config.repeatInfinitely ∨ input.length ≤ maxRepeat * config.maxRecvSize
  stands : last.Writing ∨ (output = input ∧ last.Reading) ∨
    (output = input ∧ last = .ret (.ok (.inr ())) ∧ ¬ config.repeatInfinitely ∧ maxRepeat ≤ input.length)

theorem trace_doRead (receives : 0 < config.maxRecvSize) {maxRepeat : ℕ} {last : CoroOutcome (ℕ ⊕ Unit)}
    (trace : Trace (doRead config) (doRead config maxRepeat) input output last) :
    Standing config maxRepeat input output last := by
  induction size : input.length using Nat.strongRecOn generalizing maxRepeat input output with
  | ind size ih =>
    subst size
    by_cases repeats : config.repeatInfinitely ∨ maxRepeat ≠ 0
    · rw [doRead, if_pos repeats] at trace
      cases trace with
      | nil => exact ⟨List.prefix_refl _, .inr (Nat.zero_le _), .inr (.inl ⟨rfl, receives⟩)⟩
      | @read _ _ buf rest _ _ some fits tail =>
        rcases tail.of_write with ⟨rfl, said, writing⟩ | ⟨said, rfl, onward⟩
        · refine ⟨said.trans (List.prefix_append ..), repeats.imp_right fun more => ?_, .inl writing⟩
          rw [List.append_nil]
          exact fits.trans (Nat.le_mul_of_pos_left _ (Nat.pos_of_ne_zero more))
        · have positive : 0 < buf.length := List.length_pos_iff.mpr some
          obtain ⟨echoed, bounded, stands⟩ := ih _ (by rw [List.length_append]; omega) onward rfl
          refine ⟨(List.prefix_append_right_inj _).mpr echoed, ?_, ?_⟩
          · by_cases infinite : config.repeatInfinitely
            · exact .inl infinite
            · have more := repeats.resolve_left infinite
              rw [if_neg infinite] at bounded
              have rest_le := bounded.resolve_left infinite
              have split : maxRepeat * config.maxRecvSize =
                  (maxRepeat - 1) * config.maxRecvSize + config.maxRecvSize := by
                rw [← Nat.succ_mul, Nat.succ_eq_add_one, Nat.sub_add_cancel (Nat.pos_of_ne_zero more)]
              rw [List.length_append, split]
              exact .inr (by omega)
          · rcases stands with writing | ⟨rfl, reading⟩ | ⟨rfl, ended, finite, used⟩
            · exact .inl writing
            · exact .inr (.inl ⟨rfl, reading⟩)
            · rw [if_neg finite] at used
              refine .inr (.inr ⟨rfl, ended, finite, ?_⟩)
              rw [List.length_append]
              omega
    · obtain ⟨finite, none⟩ := not_or.mp repeats
      rw [doRead, if_neg repeats] at trace
      obtain ⟨rfl, rfl, rfl⟩ := trace.of_ret
      exact ⟨List.prefix_refl _, .inr (Nat.zero_le _), .inr (.inr ⟨rfl, rfl, finite, (not_not.mp none).le⟩)⟩

section Sessions

variable {body : σ → CoroOutcome (σ ⊕ Unit)} {start : CoroOutcome (σ ⊕ Unit)} {turns : List Turn}
  {state : Duplex StreamError σ ℕ Unit}

theorem echo_of_runs (receives : 0 < config.maxRecvSize)
    (run : Duplex.Runs body (doRead config) { left := start, right := handle config } turns state) :
    Standing config config.maxServerRepeats state.toRight.received state.toLeft.sent state.right :=
  trace_doRead receives (Duplex.Runs.coherent run).right

/-- A server at rest has echoed whatever the client sent, if it may repeat as often as there are bytes. -/
theorem Standing.all_echoed
    (standing : Standing config config.maxServerRepeats state.toRight.received state.toLeft.sent state.right)
    (stuck : Duplex.Stuck body (doRead config) state)
    (enough : config.repeatInfinitely ∨ state.toRight.sent.length ≤ config.maxServerRepeats) :
    state.toLeft.sent = state.toRight.sent := by
  obtain ⟨notWriting, drained⟩ := stuck.right
  rcases standing.stands with writing | ⟨echoed, reading⟩ | ⟨echoed, -, finite, used⟩
  · exact (notWriting writing).elim
  · exact echoed.trans (drained reading)
  · have few := enough.resolve_left finite
    have part : state.toRight.received <+: state.toRight.sent := ⟨_, state.toRight.received_append_pending⟩
    exact echoed.trans (part.eq_of_length_le (few.trans used))

theorem unroll_client (data : Bytes) : unroll (client data) (client data ()) = client data () := by
  unfold client
  by_cases empty : data = []
  · subst empty
    rw [Coro.write, if_pos rfl, Coro.ret_ok_bind, Coro.read, if_pos List.length_nil]
    rfl
  · exact unroll_write _ empty _

/-- The client has written its data before it waits, and is done once as many bytes have come back. -/
theorem trace_client {data : Bytes} {last : CoroOutcome (Unit ⊕ Unit)}
    (trace : Trace (client data) (client data ()) input output last) :
    output <+: data ∧
      (last.Writing ∨ (output = data ∧ last.Reading ∧ input.length < data.length) ∨
        (output = data ∧ last = .ret (.ok (.inr ())) ∧ input.length = data.length)) := by
  rw [← unroll_client, client] at trace
  rcases trace.of_write with ⟨-, said, writing⟩ | ⟨said, rfl, tail⟩
  · exact ⟨said, .inl writing⟩
  rcases tail.of_read with ⟨short, rfl, reading⟩ | ⟨reply, rest, rfl, whole, ended⟩
  · rw [List.append_nil]
    exact ⟨List.prefix_refl _, .inr (.inl ⟨rfl, reading, short⟩)⟩
  · obtain ⟨rfl, rfl, rfl⟩ := ended.of_ret
    rw [List.append_nil, List.append_nil]
    exact ⟨List.prefix_refl _, .inr (.inr ⟨rfl, rfl, whole⟩)⟩

abbrev ClientRuns (config : EchoConfig) (data : Bytes) : List Turn → Duplex StreamError Unit ℕ Unit → Prop :=
  Duplex.Runs (client data) (doRead config) { left := client data (), right := handle config }

theorem progress_le_of_client {data : Bytes} {turns : List Turn} {state : Duplex StreamError Unit ℕ Unit}
    (receives : 0 < config.maxRecvSize) (run : ClientRuns config data turns state) :
    state.progress ≤ 4 * data.length := by
  have said := (trace_client (Duplex.Runs.coherent run).left).1.length_le
  have echoed := (echo_of_runs receives run).echoed.length_le
  have heardRight := state.toRight.bounded
  have heardLeft := state.toLeft.bounded
  simp only [Duplex.progress, Pipe.received, List.length_take] at echoed ⊢
  omega

/-- Under every schedule the server returns nothing but what it was sent, in order; every schedule ends, and once nobody
can move the client has its data back and is done. -/
theorem client_gets_echo {data : Bytes} (receives : 0 < config.maxRecvSize)
    (enough : config.repeatInfinitely ∨ data.length ≤ config.maxServerRepeats) {turns : List Turn}
    {state : Duplex StreamError Unit ℕ Unit} (run : ClientRuns config data turns state) :
    turns.length ≤ 4 * data.length ∧ state.toLeft.sent <+: data ∧
      (Duplex.Stuck (client data) (doRead config) state →
        state.left = .ret (.ok (.inr ())) ∧ state.toLeft.received = data) := by
  have standing := echo_of_runs receives run
  obtain ⟨said, stands⟩ := trace_client (Duplex.Runs.coherent run).left
  have arrivedRight : state.toRight.received <+: state.toRight.sent := ⟨_, state.toRight.received_append_pending⟩
  have arrivedLeft : state.toLeft.received <+: state.toLeft.sent := ⟨_, state.toLeft.received_append_pending⟩
  refine ⟨?_, standing.echoed.trans (arrivedRight.trans said), fun stuck => ?_⟩
  · exact (Nat.le_add_right _ _).trans (run.length_le.trans (progress_le_of_client receives run))
  · have all := standing.all_echoed stuck (enough.imp_right (said.length_le.trans ·))
    obtain ⟨notWriting, drained⟩ := stuck.left
    rcases stands with writing | ⟨sent, reading, short⟩ | ⟨sent, ended, whole⟩
    · exact (notWriting writing).elim
    · rw [drained reading, all, sent] at short
      exact (lt_irrefl _ short).elim
    · rw [all, sent] at arrivedLeft
      exact ⟨ended, arrivedLeft.eq_of_length whole⟩

/-- Some schedule brings three bytes back from a server that repeats without end. -/
theorem client_gets_echo_three :
    ∃ turns state, ClientRuns {} [1, 2, 3] turns state ∧ state.toLeft.received = [1, 2, 3] := by
  obtain ⟨turns, state, run, stuck⟩ := Duplex.Runs.exists_stuck
    (fun _ _ => progress_le_of_client (by decide)) (.nil : ClientRuns {} [1, 2, 3] [] _)
  exact ⟨turns, state, run, ((client_gets_echo (by decide) (.inl rfl) run).2.2 stuck).2⟩

end Sessions

end Libp2p.Echo
