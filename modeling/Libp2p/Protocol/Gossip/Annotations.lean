import Libp2p.Protocol.Gossip.OnMessage

/-! # Annotated handling of a frame

Statements about what a node does for the sender of a frame need to tell apart what the parts of the frame caused. An
annotation says what is noted when a message, the advertisements or one requested id are handled; the notes of a frame
are collected in the order of the source, as far as it is worked through. An invariant of notes and states is kept by
a frame when every part keeps it.
-/

namespace Libp2p.Gossip

/-- What is noted in the state in which a part is about to be handled. -/
structure Annotations (R : Type) [Double R] (Note : Type) where
  publish : State R → Pb.Message → List Note
  ihave : State R → List Pb.ControlIHave → List Note
  iwant : State R → MessageId → List Note

variable {R : Type} [Double R] {Note : Type}

namespace State

/-- What the log has gained, oldest first. -/
def gained (before after : State R) : List Observation :=
  (after.log.take (after.log.length - before.log.length)).reverse

theorem gained_same {before after : State R} (same : after.log = before.log) : before.gained after = [] := by
  rw [gained, same, Nat.sub_self]
  rfl

theorem gained_append {before after : State R} {more : List Observation} (log : after.log = more ++ before.log) :
    before.gained after = more.reverse := by
  rw [gained, log, List.length_append, Nat.add_sub_cancel, List.take_left]

variable (env : Env R) (peer : PeerPtr) (note : Annotations R Note)

def notesPublish : List Pb.Message → State R → List Note
  | [], _ => []
  | pbPublish :: rest, state => note.publish state pbPublish ++ notesPublish rest (state.onPublish env peer pbPublish)

def notesIds : List MessageId → State R → List Note
  | [], _ => []
  | messageId :: rest, state => note.iwant state messageId ++ notesIds rest (state.serveMessage env peer messageId)

def notesIwants : List Pb.ControlIWant → State R → List Note
  | [], _ => []
  | pbIwant :: rest, state =>
    if (state.heap peer).isGossipsub then
      (if state.below peer env.config.score.gossipThreshold then []
        else notesIds env peer note pbIwant.messageIds state) ++ notesIwants rest (state.onIwant env peer pbIwant)
    else []

/-- The notes on the control parts, as far as they are worked through. -/
def notesControl (control : Pb.ControlMessage) (state : State R) : List Note :=
  let (state, proceed) := forGossipsub peer (onGraft env peer) control.graft state
  if ¬ proceed then []
  else
    let (state, proceed) := forGossipsub peer (onPrune env peer) control.prune state
    if ¬ proceed then []
    else
      let notes := note.ihave state control.ihave
      let (state, proceed) := state.handleIhave env peer control.ihave
      if ¬ proceed then notes else notes ++ state.notesIwants env peer note control.iwant

def notesRpc (rpc : Pb.RPC) (state : State R) : List Note :=
  let state := rpc.subscriptions.foldl (onSubscription env peer) state
  state.notesPublish env peer note rpc.publish ++
    (rpc.publish.foldl (onPublish env peer) state).notesControl env peer note rpc.control

def notesMessage (encoded : Bytes) (state : State R) : List Note :=
  match Pb.RPC.decode encoded with
  | none => []
  | some rpc =>
    if state.below peer env.config.score.graylistThreshold then [] else state.notesRpc env peer note rpc

end State

open State

variable {env : Env R} {peer : PeerPtr} {note : Annotations R Note} {rpc : Pb.RPC}

/-- What the parts of an RPC have to keep for an invariant of notes and states to be kept by the whole RPC. -/
structure KeptByParts (env : Env R) (peer : PeerPtr) (note : Annotations R Note) (rpc : Pb.RPC)
    (invariant : List Note → State R → Prop) : Prop where
  subscribed : ∀ notes state, ∀ entry ∈ rpc.subscriptions, invariant notes state →
    invariant notes (state.onSubscription env peer entry)
  published : ∀ notes state, ∀ entry ∈ rpc.publish, invariant notes state →
    invariant (notes ++ note.publish state entry) (state.onPublish env peer entry)
  grafted : ∀ notes state, ∀ entry ∈ rpc.control.graft, (state.heap peer).isGossipsub → invariant notes state →
    invariant notes (state.onGraft env peer entry)
  pruned : ∀ notes state, ∀ entry ∈ rpc.control.prune, invariant notes state →
    invariant notes (state.onPrune env peer entry)
  advertised : ∀ notes state, invariant notes state →
    invariant (notes ++ note.ihave state rpc.control.ihave) (state.handleIhave env peer rpc.control.ihave).1
  served : ∀ notes state messageId, invariant notes state →
    invariant (notes ++ note.iwant state messageId) (state.serveMessage env peer messageId)
  refused : ∀ notes state, ∀ entry ∈ rpc.control.idontwant, invariant notes state →
    invariant notes (state.onIdontwant env peer entry)

section Loops

variable {invariant : State R → Prop} {state : State R} {α : Type} {body : State R → α → State R} {entries : List α}

theorem foldl_kept (kept : ∀ state, ∀ entry ∈ entries, invariant state → invariant (body state entry))
    (start : invariant state) : invariant (entries.foldl body state) := by
  induction entries generalizing state with
  | nil => exact start
  | cons entry rest ih =>
    apply ih
    · exact fun state other member => kept state other (by simp [member])
    · exact kept state entry (by simp) start

theorem forGossipsub_kept (kept : ∀ state, ∀ entry ∈ entries, (state.heap peer).isGossipsub → invariant state →
    invariant (body state entry)) (start : invariant state) : invariant (forGossipsub peer body entries state).1 := by
  induction entries generalizing state with
  | nil => exact start
  | cons entry rest ih =>
    unfold forGossipsub
    split_ifs with capable
    · apply ih
      · exact fun state other member => kept state other (by simp [member])
      · exact kept state entry (by simp) capable start
    · exact start

end Loops

namespace KeptByParts

variable {invariant : List Note → State R → Prop} {state : State R} {notes : List Note}

theorem onPublishes (kept : KeptByParts env peer note rpc invariant) {entries : List Pb.Message}
    (listed : ∀ entry ∈ entries, entry ∈ rpc.publish) (start : invariant notes state) :
    invariant (notes ++ state.notesPublish env peer note entries) (entries.foldl (onPublish env peer) state) := by
  induction entries generalizing state notes with
  | nil => simpa [notesPublish] using start
  | cons entry rest ih =>
    rw [notesPublish, List.foldl_cons, ← List.append_assoc]
    apply ih
    · exact fun other member => listed other (by simp [member])
    · exact kept.published notes state entry (listed entry (by simp)) start

theorem onIds (kept : KeptByParts env peer note rpc invariant) {ids : List MessageId} (start : invariant notes state) :
    invariant (notes ++ state.notesIds env peer note ids) (ids.foldl (serveMessage env peer) state) := by
  induction ids generalizing state notes with
  | nil => simpa [notesIds] using start
  | cons messageId rest ih =>
    rw [notesIds, List.foldl_cons, ← List.append_assoc]
    exact ih (kept.served notes state messageId start)

theorem onIwants (kept : KeptByParts env peer note rpc invariant) {pbIwants : List Pb.ControlIWant}
    (start : invariant notes state) : invariant (notes ++ state.notesIwants env peer note pbIwants)
      (forGossipsub peer (onIwant env peer) pbIwants state).1 := by
  induction pbIwants generalizing state notes with
  | nil => simpa [notesIwants, forGossipsub] using start
  | cons pbIwant rest ih =>
    unfold notesIwants forGossipsub
    split_ifs with capable low
    · rw [List.nil_append]
      apply ih
      rw [onIwant, if_pos low]
      exact start
    · rw [← List.append_assoc]
      apply ih
      rw [onIwant, if_neg low]
      exact kept.onIds start
    · simpa using start

theorem onControl (kept : KeptByParts env peer note rpc invariant) (start : invariant notes state) :
    invariant (notes ++ state.notesControl env peer note rpc.control) (state.onControl env peer rpc.control).1 := by
  unfold State.notesControl State.onControl
  have grafted : invariant notes (forGossipsub peer (onGraft env peer) rpc.control.graft state).1 :=
    forGossipsub_kept (kept.grafted notes) start
  generalize forGossipsub peer (onGraft env peer) rpc.control.graft state = grafts at grafted ⊢
  obtain ⟨first, _ | _⟩ := grafts
  · simpa using grafted
  · have pruned : invariant notes (forGossipsub peer (onPrune env peer) rpc.control.prune first).1 :=
      forGossipsub_kept (fun state entry member _ => kept.pruned notes state entry member) grafted
    dsimp only [not_true]
    generalize forGossipsub peer (onPrune env peer) rpc.control.prune first = prunes at pruned ⊢
    obtain ⟨second, _ | _⟩ := prunes
    · simpa using pruned
    · have advertised := kept.advertised notes second pruned
      dsimp only [not_true]
      generalize second.handleIhave env peer rpc.control.ihave = ihaves at advertised ⊢
      generalize note.ihave second rpc.control.ihave = more at advertised ⊢
      obtain ⟨third, _ | _⟩ := ihaves
      · simpa using advertised
      · have served : invariant (notes ++ more ++ third.notesIwants env peer note rpc.control.iwant)
            (forGossipsub peer (onIwant env peer) rpc.control.iwant third).1 := kept.onIwants advertised
        rw [List.append_assoc] at served
        dsimp only [not_true]
        generalize forGossipsub peer (onIwant env peer) rpc.control.iwant third = iwants at served ⊢
        obtain ⟨fourth, _ | _⟩ := iwants
        · simpa using served
        · simp only [not_true, if_false]
          exact forGossipsub_kept (fun state entry member _ => kept.refused _ state entry member) served

/-- The whole RPC. -/
theorem onRpc (kept : KeptByParts env peer note rpc invariant) (start : invariant notes state) :
    invariant (notes ++ state.notesRpc env peer note rpc) (state.onRpc env peer rpc).1 := by
  unfold notesRpc
  dsimp only
  rw [← List.append_assoc]
  apply kept.onControl
  apply kept.onPublishes (fun _ member => member)
  exact foldl_kept (fun state entry => kept.subscribed notes state entry) start

/-- A frame is dropped, or its RPC is handled. -/
theorem onMessage {encoded : Bytes}
    (kept : ∀ rpc, Pb.RPC.decode encoded = some rpc → KeptByParts env peer note rpc invariant)
    (start : invariant notes state) :
    invariant (notes ++ state.notesMessage env peer note encoded) (state.onMessage env peer encoded).1 := by
  unfold State.notesMessage State.onMessage
  cases decoded : Pb.RPC.decode encoded with
  | none => simpa using start
  | some rpc =>
    dsimp only
    split_ifs
    · simpa using start
    · exact (kept rpc decoded).onRpc start

end KeptByParts

end Libp2p.Gossip
