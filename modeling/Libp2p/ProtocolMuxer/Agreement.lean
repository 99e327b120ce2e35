import Libp2p.Library.Duplex
import Libp2p.ProtocolMuxer.Multiselect

/-! # What two negotiating parties agree on

The initiator and the responder run over a pair of reliable pipes under any schedule. Each follows a
script: as long as a party hears an initial part of the other's script it says an initial part of its
own. The scripts fix the outcome of every schedule, because a state in which nobody can move is one in
which both scripts have been said in full.

The initiator's loop never reaches a second iteration: after `na` control falls through to the
comparison of the answer with the proposal just written. The negotiation therefore ends as documented
exactly when the first proposal decides it.
-/

namespace Libp2p.Multiselect

open Library

/-- Both parties before their first step. -/
def session (proposals supported : List ProtocolName) (multistream : Bool) :
    Duplex StreamError ℕ ℕ ProtocolName where
  left := selectOneOf proposals true multistream
  right := selectOneOf supported false multistream

/-- The runs of a session, under every interleaving and fragmentation. -/
abbrev SessionRuns (proposals supported : List ProtocolName) (multistream : Bool) :
    List Turn → Duplex StreamError ℕ ℕ ProtocolName → Prop :=
  Duplex.Runs (selectLoop proposals true) (selectLoop supported false)
    (session proposals supported multistream)

abbrev returned (protocol : ProtocolName) : CoroOutcome (ℕ ⊕ ProtocolName) := .ret (.ok (.inr protocol))

abbrev failed (error : MuxerError) : CoroOutcome (ℕ ⊕ ProtocolName) := .ret (.error (.muxer error))

/-- The opening line of either party. -/
def hello (multistream : Bool) : Bytes := if multistream then frame kProtocolId else []

/-- The agreed protocol is the first proposal the responder supports; without one the initiator fails
after it has proposed everything. -/
def Decided (proposals supported : List ProtocolName) (multistream : Bool)
    (state : Duplex StreamError ℕ ℕ ProtocolName) : Prop :=
  match proposals.find? (· ∈ supported) with
  | some protocol => state.left = returned protocol ∧ state.right = returned protocol
  | none => state.left = failed .negotiationFailed ∧
      state.toRight.sent = hello multistream ++ proposals.flatMap frame

/-- The negotiation contract: every schedule ends, the initiator never reports a violation, and once
nobody can move the outcome is the documented one. -/
structure Agreement (proposals supported : List ProtocolName) (multistream : Bool) : Prop where
  terminates : ∃ bound, ∀ turns state, SessionRuns proposals supported multistream turns state →
    turns.length ≤ bound
  noViolation : ∀ turns state, SessionRuns proposals supported multistream turns state →
    state.left ≠ failed .protocolViolation
  decided : ∀ turns state, SessionRuns proposals supported multistream turns state →
    Duplex.Stuck (selectLoop proposals true) (selectLoop supported false) state →
    Decided proposals supported multistream state

/-- Names a party may be given: framable and different from the two control lines. -/
def Names (protocols : List ProtocolName) : Prop :=
  protocols ≠ [] ∧ ∀ protocol ∈ protocols, Framable protocol ∧ protocol ≠ kNA ∧ protocol ≠ kProtocolId

section Parties

variable {input output stream : Bytes} {last : CoroOutcome (ℕ ⊕ ProtocolName)}

/-- What the responder says about a proposal. -/
def answer (supported : List ProtocolName) (protocol : ProtocolName) : ProtocolName :=
  if protocol ∈ supported then protocol else kNA

/-- One responder iteration on a stream that carries a proposal. -/
theorem trace_responder {supported : List ProtocolName} {protocol : ProtocolName} {i : ℕ}
    (framable : Framable protocol) (initial : input <+: frame protocol ++ stream)
    (trace : Trace (selectLoop supported false) (responderLoop supported i) input output last) :
    (input.length < (frame protocol).length ∧ output = [] ∧ last.Reading) ∨
      (frame protocol <+: input ∧ output <+: frame (answer supported protocol) ∧ last.Writing) ∨
      ∃ heard said, input = frame protocol ++ heard ∧ output = frame (answer supported protocol) ++ said ∧
        if protocol ∈ supported then said = [] ∧ last = returned protocol
        else Trace (selectLoop supported false) (responderLoop supported i) heard said last := by
  rw [responderLoop, ← unroll_read1] at trace
  rcases trace_read1 framable initial trace with waiting | ⟨heard, rfl, tail⟩
  · exact .inl waiting
  · unfold answer
    split_ifs at tail ⊢ with member
    · rw [write1_eq framable] at tail
      rcases tail.of_write with ⟨-, said, writing⟩ | ⟨said, rfl, ended⟩
      · exact .inr (.inl ⟨List.prefix_append .., said, writing⟩)
      · obtain ⟨rfl, rfl, rfl⟩ := ended.of_ret
        exact .inr (.inr ⟨[], [], rfl, rfl, rfl, rfl⟩)
    · rw [write1_eq framable_kNA] at tail
      rcases tail.of_write with ⟨-, said, writing⟩ | ⟨said, rfl, onward⟩
      · exact .inr (.inl ⟨List.prefix_append .., said, writing⟩)
      · exact .inr (.inr ⟨heard, said, rfl, rfl, onward⟩)

/-- The last part of the prologue: the other party's handshake line. -/
private def checkHello (multistream : Bool) : CoroOutcome (ℕ ⊕ ProtocolName) :=
  if multistream then read1 >>= fun protocol =>
    if protocol ≠ kProtocolId then throw (.muxer .protocolViolation) else pure (.inl 0)
  else pure (.inl 0)

private theorem selectPrologue_eq {isInitiator multistream : Bool} {protocol : ProtocolName}
    {protocols : List ProtocolName} (framable : Framable protocol) :
    selectPrologue (protocol :: protocols) isInitiator multistream =
      Coro.write (hello multistream) >>= fun _ =>
        Coro.write (if isInitiator then frame protocol else []) >>= fun _ => checkHello multistream := by
  have nothing : (Coro.write [] : CoroOutcome Unit) = pure () := by rw [Coro.write, if_pos rfl]; rfl
  rw [selectPrologue, if_neg (List.cons_ne_nil _ _)]
  cases multistream <;> cases isInitiator <;>
    simp only [hello, checkHello, Bool.false_eq_true, ↓reduceIte, nothing, Coro.pure_bind,
      List.getD_cons_zero, write1_eq framable, write1_eq framable_kProtocolId, Coro.throw_bind] <;> rfl

/-- The opening of a party: it writes its own lines, then waits for the other's handshake line, then
enters its loop. -/
theorem trace_opening {isInitiator multistream : Bool} {protocol : ProtocolName}
    {protocols : List ProtocolName} (framable : Framable protocol)
    (initial : input <+: hello multistream ++ stream)
    (trace : Trace (selectLoop (protocol :: protocols) isInitiator)
      (selectOneOf (protocol :: protocols) isInitiator multistream) input output last) :
    let opening := hello multistream ++ if isInitiator then frame protocol else []
    (output <+: opening ∧ last.Writing) ∨
      (output = opening ∧ input.length < (hello multistream).length ∧ last.Reading) ∨
      ∃ heard said, input = hello multistream ++ heard ∧ output = opening ++ said ∧
        Trace (selectLoop (protocol :: protocols) isInitiator)
          (selectLoop (protocol :: protocols) isInitiator 0) heard said last := by
  intro opening
  rw [selectOneOf, selectPrologue_eq framable] at trace
  rcases trace.of_write with ⟨-, said, writing⟩ | ⟨said, rfl, tail⟩
  · exact .inl ⟨said.trans (List.prefix_append ..), writing⟩
  rcases tail.of_write with ⟨-, more, writing⟩ | ⟨more, rfl, check⟩
  · exact .inl ⟨(List.prefix_append_right_inj _).mpr more, writing⟩
  rw [← List.append_assoc]
  cases multistream with
  | false => exact .inr (.inr ⟨input, more, rfl, rfl, check⟩)
  | true =>
    simp only [checkHello, ↓reduceIte] at check
    rcases trace_read1 framable_kProtocolId initial check with
      ⟨short, empty, reading⟩ | ⟨heard, rfl, onward⟩
    · exact .inr (.inl ⟨by rw [empty, List.append_nil], short, reading⟩)
    · rw [if_neg (not_not.mpr rfl)] at onward
      exact .inr (.inr ⟨heard, more, rfl, rfl, onward⟩)

/-- What the initiator says after the answer to its first proposal, and how it ends. -/
def reaction (others : List ProtocolName) (reply : ProtocolName) : Bytes × CoroOutcome (ℕ ⊕ ProtocolName) :=
  if reply = kNA then
    match others with
    | [] => ([], failed .negotiationFailed)
    | other :: _ => (frame other, failed .protocolViolation)
  else ([], returned reply)

/-- The initiator's loop on a stream that carries the proposal or `na`. -/
theorem trace_initiator {protocol reply : ProtocolName} {others : List ProtocolName}
    (framable : ∀ name ∈ protocol :: others, Framable name ∧ name ≠ kNA)
    (echoed : reply = protocol ∨ reply = kNA) (initial : input <+: frame reply ++ stream)
    (trace : Trace (selectLoop (protocol :: others) true) (initiatorLoop (protocol :: others) 0)
      input output last) :
    (input.length < (frame reply).length ∧ output = [] ∧ last.Reading) ∨
      (output <+: (reaction others reply).1 ∧ last.Writing) ∨
      (output = (reaction others reply).1 ∧ last = (reaction others reply).2 ∧ input = frame reply) := by
  have first := framable protocol (List.mem_cons_self ..)
  have replyFramable : Framable reply := by
    rcases echoed with rfl | rfl
    · exact first.1
    · exact framable_kNA
  rw [initiatorLoop, ← unroll_read1] at trace
  rcases trace_read1 replyFramable initial trace with waiting | ⟨heard, rfl, tail⟩
  · exact .inl waiting
  · refine .inr ?_
    rcases echoed with rfl | rfl
    · -- The proposal was echoed: the initiator returns it.
      rw [nextProposal, if_neg first.2, Coro.pure_bind, List.getD_cons_zero, if_neg (not_not.mpr rfl)] at tail
      obtain ⟨rfl, rfl, rfl⟩ := tail.of_ret
      exact .inr (by simp [reaction, first.2])
    · rw [nextProposal, if_pos rfl] at tail
      cases others with
      | nil =>
        rw [if_pos (by simp)] at tail
        obtain ⟨rfl, rfl, rfl⟩ := tail.of_ret
        exact .inr ⟨rfl, rfl, by simp⟩
      | cons other rest =>
        have next := framable other (by simp)
        rw [if_neg (by simp), List.getD_cons_succ, List.getD_cons_zero, write1_eq next.1,
          Coro.bind_assoc] at tail
        rcases tail.of_write with ⟨-, said, writing⟩ | ⟨said, rfl, ended⟩
        · exact .inl ⟨said, writing⟩
        · -- `na` is compared with the proposal just written, which it never equals.
          rw [Coro.pure_bind, List.getD_cons_succ, List.getD_cons_zero, if_pos next.2.symm] at ended
          obtain ⟨rfl, rfl, rfl⟩ := ended.of_ret
          exact .inr ⟨by simp [reaction], rfl, by simp⟩

end Parties

section Scripts

variable (proposal : ProtocolName) (others supported : List ProtocolName) (multistream : Bool)

/-- The proposal the initiator still writes after its first one was refused. -/
def secondProposal : Option ProtocolName :=
  if proposal ∈ supported then none else others.head?

/-- Everything the initiator ever says. -/
def initiatorScript : Bytes :=
  hello multistream ++ (frame proposal ++ ((secondProposal proposal others supported).map frame).getD [])

/-- Everything the responder ever says to that initiator. -/
def responderScript : Bytes :=
  hello multistream ++ (frame (answer supported proposal) ++
    ((secondProposal proposal others supported).map fun other => frame (answer supported other)).getD [])

variable {proposal others supported multistream} {input output : Bytes}
  {last : CoroOutcome (ℕ ⊕ ProtocolName)}

private theorem reaction_said (names : ∀ name ∈ proposal :: others, Framable name ∧ name ≠ kNA) :
    (reaction others (answer supported proposal)).1 =
      ((secondProposal proposal others supported).map frame).getD [] := by
  have first := (names proposal (List.mem_cons_self ..)).2
  by_cases member : proposal ∈ supported
  · simp [reaction, answer, secondProposal, member, first]
  · cases others <;> simp [reaction, answer, secondProposal, member]

/-- The initiator follows its script; where it stands is determined by what it has heard. -/
theorem initiator_follows (names : ∀ name ∈ proposal :: others, Framable name ∧ name ≠ kNA)
    (trace : Trace (selectLoop (proposal :: others) true) (selectOneOf (proposal :: others) true multistream)
      input output last)
    (initial : input <+: responderScript proposal others supported multistream) :
    (output <+: initiatorScript proposal others supported multistream ∧ last.Writing) ∨
      (output = hello multistream ++ frame proposal ∧ last.Reading ∧
        input.length < (hello multistream ++ frame (answer supported proposal)).length) ∨
      (output = initiatorScript proposal others supported multistream ∧
        last = (reaction others (answer supported proposal)).2) := by
  have echoed : answer supported proposal = proposal ∨ answer supported proposal = kNA := by
    unfold answer; split <;> simp
  rcases trace_opening (names proposal (List.mem_cons_self ..)).1 initial trace with
    ⟨said, writing⟩ | ⟨said, short, reading⟩ | ⟨heard, said, rfl, rfl, tail⟩
  · refine .inl ⟨said.trans ?_, writing⟩
    simp [initiatorScript]
  · exact .inr (.inl ⟨by simpa using said, reading, by rw [List.length_append]; omega⟩)
  · have remaining := (List.prefix_append_right_inj _).mp initial
    rw [List.append_assoc, initiatorScript, ← reaction_said names]
    rcases trace_initiator names echoed remaining tail with
      ⟨short, rfl, reading⟩ | ⟨more, writing⟩ | ⟨rfl, rfl, -⟩
    · refine .inr (.inl ⟨by simp, reading, ?_⟩)
      simp only [List.length_append]; omega
    · exact .inl ⟨by simpa using more, writing⟩
    · exact .inr (.inr ⟨by simp, rfl⟩)

/-- A responder that hears nothing more keeps waiting. -/
private theorem responder_silent {supported : List ProtocolName} {i : ℕ}
    (trace : Trace (selectLoop supported false) (responderLoop supported i) [] output last) :
    output = [] ∧ last.Reading := by
  have impossible : ∀ rest, [] ≠ frame kNA ++ rest := by
    intro rest empty
    have := congrArg List.length empty
    simp [frame] at this
  rcases trace_responder framable_kNA (List.nil_prefix : [] <+: frame kNA ++ []) trace with
    ⟨-, empty, reading⟩ | ⟨⟨rest, whole⟩, -⟩ | ⟨heard, -, whole, -⟩
  · exact ⟨empty, reading⟩
  · exact (impossible rest whole.symm).elim
  · exact (impossible heard whole).elim

/-- The responder follows its script, and once it has heard the first proposal it answers it. -/
theorem responder_follows {first : ProtocolName} {rest : List ProtocolName}
    (same : supported = first :: rest) (names : ∀ name ∈ proposal :: others, Framable name)
    (firstFramable : Framable first)
    (trace : Trace (selectLoop supported false) (selectOneOf supported false multistream) input output last)
    (initial : input <+: initiatorScript proposal others supported multistream) :
    output <+: responderScript proposal others supported multistream ∧
      (last.Writing ∨
        (last.Reading ∧ input.length < (hello multistream ++ frame proposal).length) ∨
        (hello multistream ++ frame (answer supported proposal) <+: output ∧
          (proposal ∈ supported → last = returned proposal))) := by
  subst same
  rcases trace_opening firstFramable initial trace with
    ⟨said, writing⟩ | ⟨said, short, reading⟩ | ⟨heard, said, rfl, rfl, tail⟩
  · refine ⟨said.trans ?_, .inl writing⟩
    simp [responderScript]
  · refine ⟨by simp [said, responderScript], .inr (.inl ⟨reading, ?_⟩)⟩
    rw [List.length_append]; omega
  · have remaining := (List.prefix_append_right_inj _).mp initial
    simp only [Bool.false_eq_true, ↓reduceIte, List.append_nil, responderScript,
      List.prefix_append_right_inj, List.length_append]
    rcases trace_responder (names proposal (List.mem_cons_self ..)) remaining tail with
      ⟨short, rfl, reading⟩ | ⟨-, more, writing⟩ | ⟨later, more, rfl, rfl, ended⟩
    · exact ⟨List.nil_prefix, .inr (.inl ⟨reading, by omega⟩)⟩
    · exact ⟨more.trans (List.prefix_append ..), .inl writing⟩
    · simp only [List.prefix_append_right_inj, List.prefix_append, true_and]
      replace remaining := (List.prefix_append_right_inj _).mp remaining
      by_cases member : proposal ∈ first :: rest
      · rw [if_pos member] at ended
        obtain ⟨rfl, rfl⟩ := ended
        exact ⟨List.nil_prefix, .inr (.inr fun _ => rfl)⟩
      · rw [if_neg member] at ended
        refine ⟨?_, .inr (.inr fun present => (member present).elim)⟩
        simp only [secondProposal, if_neg member] at remaining ⊢
        cases others with
        | nil =>
          obtain rfl : later = [] := by simpa using remaining
          obtain ⟨rfl, -⟩ := responder_silent ended
          exact List.nil_prefix
        | cons other _ =>
          -- The refused proposal is followed by a second one, which is answered as well.
          simp only [List.head?_cons, Option.map_some, Option.getD_some] at remaining ⊢
          rcases trace_responder (names other (by simp)) (remaining.trans (List.prefix_append _ [])) ended with
            ⟨-, rfl, -⟩ | ⟨-, last, -⟩ | ⟨silence, nothing, rfl, rfl, final⟩
          · exact List.nil_prefix
          · exact last
          · obtain rfl : silence = [] := by
              simpa using List.IsPrefix.length_le remaining
            suffices nothing = [] by simp [this]
            split_ifs at final
            · exact final.1
            · exact (responder_silent final).1

end Scripts

section Sessions

variable {proposal : ProtocolName} {others supported : List ProtocolName} {multistream : Bool}
  {turns : List Turn} {state : Duplex StreamError ℕ ℕ ProtocolName}

/-- Every reachable state of a session, read off the two scripts. -/
structure Explained (proposal : ProtocolName) (others supported : List ProtocolName) (multistream : Bool)
    (state : Duplex StreamError ℕ ℕ ProtocolName) : Prop where
  saidLeft : state.toRight.sent <+: initiatorScript proposal others supported multistream
  saidRight : state.toLeft.sent <+: responderScript proposal others supported multistream
  left : state.left.Writing ∨
    (state.toRight.sent = hello multistream ++ frame proposal ∧ state.left.Reading ∧
      state.toLeft.received.length < (hello multistream ++ frame (answer supported proposal)).length) ∨
    (state.toRight.sent = initiatorScript proposal others supported multistream ∧
      state.left = (reaction others (answer supported proposal)).2)
  right : state.right.Writing ∨
    (state.right.Reading ∧ state.toRight.received.length < (hello multistream ++ frame proposal).length) ∨
    (hello multistream ++ frame (answer supported proposal) <+: state.toLeft.sent ∧
      (proposal ∈ supported → state.right = returned proposal))

theorem explained (proposals : Names (proposal :: others)) (supports : Names supported)
    (run : SessionRuns (proposal :: others) supported multistream turns state) :
    Explained proposal others supported multistream state := by
  obtain ⟨first, rest, same⟩ := List.exists_cons_of_ne_nil supports.1
  have names : ∀ name ∈ proposal :: others, Framable name ∧ name ≠ kNA := fun name member =>
    ⟨(proposals.2 name member).1, (proposals.2 name member).2.1⟩
  have firstFramable : Framable first := (supports.2 first (by simp [same])).1
  have speaks : ∀ input output last, Trace (selectLoop (proposal :: others) true)
      (selectOneOf (proposal :: others) true multistream) input output last →
      input <+: responderScript proposal others supported multistream →
      output <+: initiatorScript proposal others supported multistream := by
    intro input output last trace heard
    rcases initiator_follows names trace heard with ⟨said, -⟩ | ⟨said, -⟩ | ⟨said, -⟩
    · exact said
    · simp [said, initiatorScript]
    · simp [said]
  have scripts := Duplex.Runs.scripted speaks (fun _ _ _ trace heard =>
    (responder_follows same (fun name member => (names name member).1) firstFramable trace heard).1) run
  have coherent := Duplex.Runs.coherent run
  have hearsLeft : state.toLeft.received <+: responderScript proposal others supported multistream :=
    .trans ⟨_, state.toLeft.received_append_pending⟩ scripts.2
  have hearsRight : state.toRight.received <+: initiatorScript proposal others supported multistream :=
    .trans ⟨_, state.toRight.received_append_pending⟩ scripts.1
  refine ⟨scripts.1, scripts.2, ?_, ?_⟩
  · rcases initiator_follows names coherent.left hearsLeft with ⟨-, writing⟩ | waiting | ended
    · exact .inl writing
    · exact .inr (.inl waiting)
    · exact .inr (.inr ended)
  · exact (responder_follows same (fun name member => (names name member).1) firstFramable coherent.right
      hearsRight).2

/-- When nobody can move, the initiator has reacted to the first answer, and a responder that supports the
first proposal has returned it. -/
theorem Explained.settled (explained : Explained proposal others supported multistream state)
    (stuck : Duplex.Stuck (selectLoop (proposal :: others) true) (selectLoop supported false) state) :
    state.left = (reaction others (answer supported proposal)).2 ∧
      state.toRight.sent = initiatorScript proposal others supported multistream ∧
      (proposal ∈ supported → state.right = returned proposal) := by
  obtain ⟨notWriting, drainedLeft⟩ := stuck.left
  obtain ⟨notWriting', drainedRight⟩ := stuck.right
  rcases explained.left with writing | ⟨said, reading, short⟩ | ⟨said, ended⟩
  · exact (notWriting writing).elim
  · -- Both the proposal and its answer are fully sent, so the initiator has something to read.
    exfalso
    rcases explained.right with writing | ⟨waiting, early⟩ | ⟨answered, -⟩
    · exact notWriting' writing
    · rw [drainedRight waiting, said] at early
      omega
    · rw [drainedLeft reading] at short
      have := answered.length_le
      omega
  · refine ⟨ended, said, fun member => ?_⟩
    rcases explained.right with writing | ⟨waiting, early⟩ | ⟨-, decided⟩
    · exact (notWriting' writing).elim
    · rw [drainedRight waiting, said] at early
      simp only [initiatorScript, List.length_append] at early
      omega
    · exact decided member

/-- The scripts bound the bytes a session can move. -/
theorem Explained.progress_le (explained : Explained proposal others supported multistream state) :
    state.progress ≤ 2 * (initiatorScript proposal others supported multistream).length +
      2 * (responderScript proposal others supported multistream).length := by
  have saidLeft := explained.saidLeft.length_le
  have saidRight := explained.saidRight.length_le
  have heardLeft := state.toLeft.bounded
  have heardRight := state.toRight.bounded
  simp only [Duplex.progress, Pipe.received, List.length_take]
  omega

/-- The initiator ends in a violation only after it fell through to its second proposal. -/
theorem reaction_eq_violation {reply : ProtocolName} :
    (reaction others reply).2 = failed .protocolViolation ↔ reply = kNA ∧ others ≠ [] := by
  unfold reaction
  cases others <;> split_ifs with refused <;> simp [refused]

/-- The negotiation is as documented where the first proposal decides it. -/
theorem agreement_of_first (proposes : Names (proposal :: others)) (supports : Names supported)
    (decides : proposal ∈ supported ∨ others = []) :
    Agreement (proposal :: others) supported multistream := by
  have notNA : proposal ≠ kNA := (proposes.2 proposal (by simp)).2.1
  have noFallThrough : ¬ (answer supported proposal = kNA ∧ others ≠ []) := by
    rintro ⟨refused, more⟩
    have member := decides.resolve_right more
    exact notNA (by simpa [answer, member] using refused)
  refine ⟨⟨2 * (initiatorScript proposal others supported multistream).length +
    2 * (responderScript proposal others supported multistream).length, fun turns state run => ?_⟩,
    fun turns state run violated => ?_, fun turns state run stuck => ?_⟩
  · exact (Nat.le_add_right _ _).trans (run.length_le.trans (explained proposes supports run).progress_le)
  · rcases (explained proposes supports run).left with writing | ⟨-, reading, -⟩ | ⟨-, ended⟩
    · simp [violated, Coro.Writing] at writing
    · simp [violated, Coro.Reading] at reading
    · exact noFallThrough (reaction_eq_violation.mp (ended.symm.trans violated))
  · obtain ⟨left, said, right⟩ := (explained proposes supports run).settled stuck
    by_cases member : proposal ∈ supported
    · simp only [Decided, List.find?_cons_of_pos (p := (· ∈ supported)) (decide_eq_true member)]
      exact ⟨by simpa [reaction, answer, member, notNA] using left, right member⟩
    · obtain rfl := decides.resolve_left member
      have unsupported : [proposal].find? (· ∈ supported) = none := by simp [member]
      simp only [Decided, unsupported]
      refine ⟨by simpa [reaction, answer, member] using left, ?_⟩
      simpa [initiatorScript, secondProposal, member] using said

/-- A refused first proposal with another one behind it ends in a violation. -/
theorem not_agreement_of_refused (proposes : Names (proposal :: others)) (supports : Names supported)
    (refused : proposal ∉ supported) (more : others ≠ []) :
    ¬ Agreement (proposal :: others) supported multistream := by
  intro agreement
  obtain ⟨turns, state, run, stuck⟩ := Duplex.Runs.exists_stuck
    (fun _ _ run => (explained proposes supports run).progress_le)
    (.nil : SessionRuns (proposal :: others) supported multistream [] _)
  apply agreement.noViolation turns state run
  rw [((explained proposes supports run).settled stuck).1, reaction_eq_violation]
  exact ⟨by simp [answer, refused], more⟩

/-- Both parties reach the documented outcome under every schedule exactly when the responder supports the
first proposal or there is no second one. -/
theorem agreement_iff_first_decides {proposals : List ProtocolName} (proposes : Names proposals)
    (supports : Names supported) :
    Agreement proposals supported multistream ↔
      (∃ first ∈ proposals.head?, first ∈ supported) ∨ proposals.length = 1 := by
  obtain ⟨proposal, others, rfl⟩ := List.exists_cons_of_ne_nil proposes.1
  simp only [List.head?_cons, Option.mem_def, Option.some.injEq, exists_eq_left', List.length_cons,
    Nat.add_eq_right, List.length_eq_zero_iff]
  constructor
  · intro agreement
    by_contra undecided
    obtain ⟨refused, more⟩ := not_or.mp undecided
    exact not_agreement_of_refused proposes supports refused more agreement
  · exact agreement_of_first proposes supports

end Sessions

instance : DecidablePred Names := fun protocols =>
  inferInstanceAs (Decidable (protocols ≠ [] ∧ ∀ protocol ∈ protocols, _))

theorem agreement_iff_first_decides_single : Names [ascii ['/', 'a']] ∧
    (Agreement [ascii ['/', 'a']] [ascii ['/', 'b'], ascii ['/', 'a']] true ↔
      (∃ first ∈ [ascii ['/', 'a']].head?, first ∈ [ascii ['/', 'b'], ascii ['/', 'a']]) ∨
        [ascii ['/', 'a']].length = 1) :=
  ⟨by decide, agreement_iff_first_decides (by decide) (by decide)⟩

/-- The responder supports the second proposal, yet the initiator reports a violation. -/
theorem second_proposal_violates :
    Names [ascii ['/', 'b'], ascii ['/', 'a']] ∧ Names [ascii ['/', 'a']] ∧
      ¬ Agreement [ascii ['/', 'b'], ascii ['/', 'a']] [ascii ['/', 'a']] true :=
  ⟨by decide, by decide, not_agreement_of_refused (by decide) (by decide) (by decide) (by decide)⟩

end Libp2p.Multiselect
