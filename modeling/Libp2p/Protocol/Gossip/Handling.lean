import Libp2p.Protocol.Gossip.Membership

/-! # Frames of gossipsub peers are handled to their end

The control parts of an RPC end early for a peer that does not speak gossipsub. A peer that does keeps its kind while
its frame is handled, so every part of the frame is worked through, in the fixed order of the source.
-/

namespace Libp2p.Gossip

open Library State

variable {R : Type} [Double R] {env : Env R} {event : Event} {state before after : State R} {peer : PeerPtr}
  {encoded : Bytes} {rpc : Pb.RPC}

/-- A gossipsub peer stays one. -/
theorem Chain.capable (chain : Chain env event before after) (allocated : peer < before.allocated)
    (capable : (before.heap peer).isGossipsub) : peer < after.allocated ∧ (after.heap peer).isGossipsub := by
  refine chain_preserves (fun state : State R => peer < state.allocated ∧ peer ∈ state.roster.capable) chain ?_
    ⟨allocated, capable⟩
  rintro before after micro ⟨allocated, capable⟩
  exact ⟨allocated.trans_le micro.allocated_le, micro.roster.capable_of allocated capable⟩

/-- A loop over control entries of a gossipsub peer runs to its end. -/
theorem forGossipsub_eq {α : Type} {body : State R → α → State R} {entries : List α}
    (iteration : ∀ state, ∀ entry ∈ entries, peer < state.allocated → (state.heap peer).isGossipsub →
      Chain env event state (body state entry)) (allocated : peer < state.allocated)
    (capable : (state.heap peer).isGossipsub) :
    forGossipsub peer body entries state = (entries.foldl body state, true) := by
  induction entries generalizing state with
  | nil => rfl
  | cons entry rest ih =>
    have chain := iteration state entry (by simp) allocated capable
    obtain ⟨allocated', capable'⟩ := chain.capable allocated capable
    unfold forGossipsub
    rw [if_pos capable, List.foldl_cons]
    exact ih (fun state other member => iteration state other (by simp [member])) allocated' capable'

namespace State

variable (env peer rpc)

/-- The state in which the subscriptions, messages and grafts of an RPC have been handled. -/
def afterGrafts (state : State R) : State R :=
  rpc.control.graft.foldl (onGraft env peer)
    (rpc.publish.foldl (onPublish env peer) (rpc.subscriptions.foldl (onSubscription env peer) state))

/-- The state in which its prunes have been handled too. -/
def afterPrunes (state : State R) : State R := rpc.control.prune.foldl (onPrune env peer) (state.afterGrafts env peer rpc)

/-- The gossip that follows the prunes of an RPC. -/
def handleGossip (state : State R) : State R :=
  rpc.control.idontwant.foldl (onIdontwant env peer)
    (rpc.control.iwant.foldl (onIwant env peer) (state.handleIhave env peer rpc.control.ihave).1)

end State

section Whole

variable (source : event = .message peer encoded) (decoded : Pb.RPC.decode encoded = some rpc)
  (allocated : peer < state.allocated)

include source decoded allocated

theorem chain_beforeGrafts : Chain env event state
    (rpc.publish.foldl (onPublish env peer) (rpc.subscriptions.foldl (onSubscription env peer) state)) := by
  have subscriptions : Chain env event state (rpc.subscriptions.foldl (onSubscription env peer) state) :=
    (chain_foldl (fun state => peer < state.allocated) (fun state entry member allocated =>
      have chain : Chain env event state _ := chain_onSubscription source decoded allocated member
      ⟨chain, allocated.trans_le chain.allocated_le⟩) allocated).1
  exact subscriptions.trans (chain_foldl_of_body fun state pbPublish entry => chain_onPublish source decoded entry)

variable (capable : (state.heap peer).isGossipsub)

include capable

/-- Any of the grafts of an RPC, in any order. -/
theorem chain_grafts {entries : List Pb.ControlGraft} (part : entries ⊆ rpc.control.graft) :
    Chain env event state (entries.foldl (onGraft env peer) state) ∧
      peer < (entries.foldl (onGraft env peer) state).allocated ∧
      ((entries.foldl (onGraft env peer) state).heap peer).isGossipsub := by
  refine chain_foldl (fun state : State R => peer < state.allocated ∧ (state.heap peer).isGossipsub) ?_
    ⟨allocated, capable⟩
  rintro state entry member ⟨allocated, capable⟩
  have chain : Chain env event state _ := chain_onGraft source decoded allocated capable (part member)
  exact ⟨chain, chain.capable allocated capable⟩

theorem chain_afterGrafts : Chain env event state (state.afterGrafts env peer rpc) := by
  have first : Chain env event state _ := chain_beforeGrafts source decoded allocated
  obtain ⟨allocated, capable⟩ := first.capable allocated capable
  exact first.trans (chain_grafts source decoded allocated capable (List.Subset.refl _)).1

omit allocated capable in
theorem chain_onPrune {pbPrune : Pb.ControlPrune} (entry : pbPrune ∈ rpc.control.prune) (state : State R) :
    Chain env event state (state.onPrune env peer pbPrune) :=
  (Micro.pruned state _ peer _ ⟨encoded, source, decoded⟩ (List.mem_map_of_mem entry)).chain

omit allocated capable in
theorem chain_afterPrunes : Chain env event (state.afterGrafts env peer rpc) (state.afterPrunes env peer rpc) :=
  chain_foldl_of_body fun state _ entry => chain_onPrune source decoded entry state

omit decoded allocated capable in
theorem chain_handleGossip : Chain env event state (state.handleGossip env peer rpc) := by
  have advertised : Chain env event state _ := chain_handleIhave (by rw [source]; rfl) peer rpc.control.ihave
  have served : ∀ state : State R, Chain env event state (rpc.control.iwant.foldl (onIwant env peer) state) :=
    fun state => chain_foldl_of_body fun state entry _ => chain_onIwant source entry
  have refused : ∀ state : State R, Chain env event state (rpc.control.idontwant.foldl (onIdontwant env peer) state) :=
    fun state => chain_foldl_of_body fun state entry _ => chain_onIdontwant source entry
  exact (advertised.trans (served _)).trans (refused _)

omit source decoded allocated in
theorem handleIhave_eq : (state.handleIhave env peer rpc.control.ihave).2 = true := by
  unfold handleIhave
  dsimp only
  split_ifs
  all_goals rfl

/-- An RPC of a gossipsub peer is handled part by part, and its reader goes on. -/
theorem onRpc_eq : state.onRpc env peer rpc = ((state.afterPrunes env peer rpc).handleGossip env peer rpc, true) := by
  have first : Chain env event state _ := chain_beforeGrafts source decoded allocated
  obtain ⟨allocated₁, capable₁⟩ := first.capable allocated capable
  have grafted : Chain env event state (state.afterGrafts env peer rpc) :=
    chain_afterGrafts source decoded allocated capable
  obtain ⟨allocated₂, capable₂⟩ := grafted.capable allocated capable
  have pruned : Chain env event state (state.afterPrunes env peer rpc) :=
    grafted.trans (chain_afterPrunes source decoded)
  obtain ⟨allocated₃, capable₃⟩ := pruned.capable allocated capable
  have grafts : forGossipsub peer (onGraft env peer) rpc.control.graft
      (rpc.publish.foldl (onPublish env peer) (rpc.subscriptions.foldl (onSubscription env peer) state)) =
      (state.afterGrafts env peer rpc, true) :=
    forGossipsub_eq (fun state entry member allocated capable => chain_onGraft source decoded allocated capable member)
      allocated₁ capable₁
  have prunes : forGossipsub peer (onPrune env peer) rpc.control.prune (state.afterGrafts env peer rpc) =
      (state.afterPrunes env peer rpc, true) :=
    forGossipsub_eq (fun state entry member _ _ => chain_onPrune source decoded member state) allocated₂ capable₂
  obtain ⟨advertised, ihaves⟩ : ∃ advertised, (state.afterPrunes env peer rpc).handleIhave env peer rpc.control.ihave =
      (advertised, true) := ⟨_, Prod.ext rfl (handleIhave_eq capable₃)⟩
  have gossiped : Chain env event (state.afterPrunes env peer rpc) advertised := by
    have chain : Chain env event _ _ := @chain_handleIhave R _ env event (state.afterPrunes env peer rpc) (by rw [source]; rfl)
      peer rpc.control.ihave
    rwa [ihaves] at chain
  obtain ⟨allocated₄, capable₄⟩ := gossiped.capable allocated₃ capable₃
  have iwants : forGossipsub peer (onIwant env peer) rpc.control.iwant advertised =
      (rpc.control.iwant.foldl (onIwant env peer) advertised, true) :=
    forGossipsub_eq (fun state entry _ _ _ => chain_onIwant source entry) allocated₄ capable₄
  have served : Chain env event advertised (rpc.control.iwant.foldl (onIwant env peer) advertised) :=
    chain_foldl_of_body fun state entry _ => chain_onIwant source entry
  obtain ⟨allocated₅, capable₅⟩ := served.capable allocated₄ capable₄
  have idontwants : forGossipsub peer (onIdontwant env peer) rpc.control.idontwant
      (rpc.control.iwant.foldl (onIwant env peer) advertised) =
      (rpc.control.idontwant.foldl (onIdontwant env peer) (rpc.control.iwant.foldl (onIwant env peer) advertised), true) :=
    forGossipsub_eq (fun state entry _ _ _ => chain_onIdontwant source entry) allocated₅ capable₅
  unfold onRpc onControl handleGossip
  simp only [grafts, prunes, ihaves, iwants, idontwants, not_true, if_false]

/-- What handling a frame of a gossipsub peer comes to. -/
theorem onMessage_eq (heard : ¬ state.below peer env.config.score.graylistThreshold) :
    state.onMessage env peer encoded = ((state.afterPrunes env peer rpc).handleGossip env peer rpc, true) := by
  unfold onMessage
  rw [decoded]
  dsimp only
  rw [if_neg heard, onRpc_eq source decoded allocated capable]

/-- The handling of one prune singled out: what comes before it, which logs nothing after the grafts, the entry itself,
and what follows. -/
theorem exists_onPrune (heard : ¬ state.below peer env.config.score.graylistThreshold) {pbPrune : Pb.ControlPrune}
    (entry : pbPrune ∈ rpc.control.prune) : ∃ middle : State R, Chain env event state middle ∧
      middle.log = (state.afterGrafts env peer rpc).log ∧
      Chain env event (middle.onPrune env peer pbPrune) (state.onMessage env peer encoded).1 := by
  rw [onMessage_eq source decoded allocated capable heard]
  obtain ⟨earlier, later, entries⟩ := List.append_of_mem entry
  have silent : ∀ (state : State R) other, (state.onPrune env peer other).log = state.log := by
    intro state other
    unfold onPrune
    rw [removePeerFromMesh_eq]
  have first : Chain env event state (state.afterGrafts env peer rpc) :=
    chain_afterGrafts source decoded allocated capable
  have second : Chain env event (state.afterGrafts env peer rpc)
      (earlier.foldl (onPrune env peer) (state.afterGrafts env peer rpc)) :=
    chain_foldl_of_body fun state other member => chain_onPrune source decoded (by rw [entries]; simp [member]) state
  refine ⟨_, first.trans second, foldl_field State.log silent, ?_⟩
  have third : Chain env event ((earlier.foldl (onPrune env peer) (state.afterGrafts env peer rpc)).onPrune env peer pbPrune)
      (state.afterPrunes env peer rpc) := by
    rw [afterPrunes, entries, List.foldl_append, List.foldl_cons]
    exact chain_foldl_of_body fun state other member =>
      chain_onPrune source decoded (by rw [entries]; simp [member]) state
  exact third.trans (chain_handleGossip source)

end Whole

end Libp2p.Gossip
