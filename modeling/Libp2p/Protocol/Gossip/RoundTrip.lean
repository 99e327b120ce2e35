import Libp2p.Protocol.Gossip.Topic

/-! # RPCs are read back

Every RPC that the node writes is read back as it was: the control part of a batch with all its entries, and a message
on its own. Nothing in an RPC is larger than its encoding, so one bound on the encoding is enough.
-/

namespace Libp2p.Gossip.Pb

open Library WireFormat

variable {α β : Type} {depth : ℕ} {merge : α → Field → Option α} {initial : α} {fields : List Field} {field : Field}

/-- A field as the generated code writes it. -/
structure Written (field : Field) : Prop where
  positive : 0 < field.number
  bound : field.number < 2 ^ 29
  scalar : (∃ value, field.value = .varint value ∧ value < 2 ^ 64) ∨ ∃ data, field.value = .bytes data

theorem written_optional {number : ℕ} {value : Option Bytes} (positive : 0 < number) (bound : number < 2 ^ 29)
    (member : field ∈ optional number value) : Written field := by
  cases value with
  | none => cases member
  | some data =>
    obtain rfl := List.mem_singleton.mp member
    exact ⟨positive, bound, .inr ⟨data, rfl⟩⟩

theorem written_repeated {number : ℕ} {values : List Bytes} (positive : 0 < number) (bound : number < 2 ^ 29)
    (member : field ∈ repeated number values) : Written field := by
  obtain ⟨data, -, rfl⟩ := List.mem_map.mp member
  exact ⟨positive, bound, .inr ⟨data, rfl⟩⟩

theorem length_le_of_mem {data : Bytes} {number : ℕ} (member : ⟨number, .bytes data⟩ ∈ fields) :
    data.length ≤ (encodeFields fields).length := by
  obtain ⟨earlier, later, rfl⟩ := List.append_of_mem member
  have inside : (Field.encode ⟨number, .bytes data⟩).length ≤
      (encodeFields (earlier ++ ⟨number, .bytes data⟩ :: later)).length := by
    simp only [encodeFields, List.flatMap_append, List.flatMap_cons, List.length_append]
    omega
  refine le_trans ?_ inside
  simp only [Field.encode, List.length_append]
  omega

/-- Written fields are folded in order. -/
theorem parseInto_encodeFields (written : ∀ field ∈ fields, Written field)
    (small : (encodeFields fields).length < 2 ^ 35) :
    parseInto depth merge initial (encodeFields fields) = fields.foldlM merge initial := by
  have flat : ∀ field ∈ fields, field.Flat := by
    rintro ⟨number, value⟩ member
    obtain ⟨positive, bound, scalar⟩ := written _ member
    refine ⟨positive, bound, scalar.imp_right ?_⟩
    rintro ⟨data, same⟩
    obtain rfl : value = .bytes data := same
    exact ⟨data, rfl, (length_le_of_mem member).trans_lt small⟩
  rw [parseInto, parseFields_encodeFields flat, Option.bind_some]

/-- The parts of a repeated field are collected in order. -/
theorem foldlM_repeated {number : ℕ} {parts : List β} {encode : β → Bytes} {result : α} (collect : List β → α)
    (begins : initial = collect []) (ends : result = collect parts) (each : ∀ collected, ∀ part ∈ parts,
      merge (collect collected) ⟨number, .bytes (encode part)⟩ = some (collect (collected ++ [part]))) :
    (repeated number (parts.map encode)).foldlM merge initial = some result := by
  have onward : ∀ collected, (repeated number (parts.map encode)).foldlM merge (collect collected) =
      some (collect (collected ++ parts)) := by
    clear begins ends
    induction parts with
    | nil =>
      intro collected
      rw [List.append_nil]
      rfl
    | cons part rest ih =>
      intro collected
      have first := each collected part (by simp)
      have later := ih (fun collected other member => each collected other (by simp [member])) (collected ++ [part])
      rw [List.append_assoc] at later
      simp only [repeated, List.map_cons, List.foldlM_cons, first] at later ⊢
      exact later
  rw [begins, ends]
  exact onward []

theorem foldlM_ids {number : ℕ} {ids : List Bytes} {result : α} (collect : List Bytes → α) (begins : initial = collect [])
    (ends : result = collect ids)
    (each : ∀ collected data, merge (collect collected) ⟨number, .bytes data⟩ = some (collect (collected ++ [data]))) :
    (repeated number ids).foldlM merge initial = some result := by
  have folded : (repeated number (ids.map id)).foldlM merge initial = some result :=
    foldlM_repeated collect begins ends fun collected part _ => each collected part
  rwa [List.map_id] at folded

section Parts

theorem SubOpts.parseInto_encode {part : SubOpts} (small : part.encode.length < 2 ^ 35) :
    parseInto depth SubOpts.merge {} part.encode = some part := by
  unfold SubOpts.encode at small ⊢
  rw [parseInto_encodeFields _ small]
  · obtain ⟨subscribe, topicId⟩ := part
    cases subscribe with
    | none => cases topicId <;> rfl
    | some flag => cases flag <;> cases topicId <;> rfl
  · intro field member
    rcases List.mem_append.mp member with flag | topic
    · obtain ⟨value, -, rfl⟩ := Option.map_eq_some_iff.mp (Option.mem_toList.mp flag)
      exact ⟨Nat.one_pos, (by decide : 1 < 2 ^ 29), .inl ⟨_, rfl, by cases value <;> decide⟩⟩
    · exact written_optional (by decide) (by decide) topic

theorem Message.parseInto_encode {part : Message} (small : part.encode.length < 2 ^ 35) (known : part.unknown = []) :
    parseInto depth Message.merge {} part.encode = some part := by
  unfold Message.encode at small ⊢
  rw [known, List.append_nil] at small ⊢
  rw [parseInto_encodeFields _ small, Message.foldlM_fields, ← known]
  intro field member
  simp only [Message.fields, List.mem_append] at member
  rcases member with ((((member | member) | member) | member) | member) | member
  all_goals exact written_optional (by decide) (by decide) member

theorem ControlGraft.parseInto_encode {part : ControlGraft} (small : part.encode.length < 2 ^ 35) :
    parseInto depth ControlGraft.merge {} part.encode = some part := by
  unfold ControlGraft.encode at small ⊢
  rw [parseInto_encodeFields (fun field member => written_optional (by decide) (by decide) member) small]
  obtain ⟨topicId⟩ := part
  cases topicId <;> rfl

theorem ControlPrune.parseInto_encode {part : ControlPrune} (small : part.encode.length < 2 ^ 35) :
    parseInto depth ControlPrune.merge {} part.encode = some part := by
  unfold ControlPrune.encode at small ⊢
  rw [parseInto_encodeFields _ small]
  · obtain ⟨topicId, backoff⟩ := part
    cases topicId <;> cases backoff <;> simp [optional, ControlPrune.merge, List.foldlM_cons]
  · intro field member
    rcases List.mem_append.mp member with topic | backoff
    · exact written_optional (by decide) (by decide) topic
    · obtain ⟨value, -, rfl⟩ := Option.map_eq_some_iff.mp (Option.mem_toList.mp backoff)
      exact ⟨Nat.succ_pos 2, (by decide : 3 < 2 ^ 29), .inl ⟨_, rfl, value.toNat_lt⟩⟩

theorem ControlIHave.parseInto_encode {part : ControlIHave} (small : part.encode.length < 2 ^ 35) :
    parseInto depth ControlIHave.merge {} part.encode = some part := by
  unfold ControlIHave.encode at small ⊢
  rw [parseInto_encodeFields _ small]
  · obtain ⟨topicId, messageIds⟩ := part
    have topic : (optional 1 topicId).foldlM ControlIHave.merge {} = some { topicId } := by cases topicId <;> rfl
    rw [List.foldlM_append, topic]
    exact foldlM_ids (fun messageIds => ({ topicId, messageIds } : ControlIHave)) rfl rfl fun _ _ => rfl
  · intro field member
    rcases List.mem_append.mp member with topic | ids
    · exact written_optional (by decide) (by decide) topic
    · exact written_repeated (by decide) (by decide) ids

theorem ControlIWant.parseInto_encode {part : ControlIWant} (small : part.encode.length < 2 ^ 35) :
    parseInto depth ControlIWant.merge {} part.encode = some part := by
  unfold ControlIWant.encode at small ⊢
  rw [parseInto_encodeFields (fun field member => written_repeated (by decide) (by decide) member) small]
  exact foldlM_ids (fun messageIds => ({ messageIds } : ControlIWant)) rfl rfl fun _ _ => rfl

theorem ControlIDontWant.parseInto_encode {part : ControlIDontWant} (small : part.encode.length < 2 ^ 35) :
    parseInto depth ControlIDontWant.merge {} part.encode = some part := by
  unfold ControlIDontWant.encode at small ⊢
  rw [parseInto_encodeFields (fun field member => written_repeated (by decide) (by decide) member) small]
  exact foldlM_ids (fun messageIds => ({ messageIds } : ControlIDontWant)) rfl rfl fun _ _ => rfl

/-- A part of a message is smaller than the message. -/
theorem small_of_mem (number : ℕ) {parts : List β} {encode : β → Bytes} {part : β} (member : part ∈ parts)
    (inside : ∀ field ∈ repeated number (parts.map encode), field ∈ fields)
    (small : (encodeFields fields).length < 2 ^ 35) : (encode part).length < 2 ^ 35 :=
  (length_le_of_mem (inside _ (List.mem_map_of_mem (List.mem_map_of_mem member)))).trans_lt small

theorem ControlMessage.parseInto_encode {control : ControlMessage} (small : control.encode.length < 2 ^ 35) :
    parseInto depth ControlMessage.merge {} control.encode = some control := by
  unfold ControlMessage.encode at small ⊢
  rw [parseInto_encodeFields _ small]
  · obtain ⟨ihave, iwant, graft, prune, idontwant⟩ := control
    dsimp only at small ⊢
    have first : (repeated 1 (ihave.map ControlIHave.encode)).foldlM ControlMessage.merge {} = some { ihave } := by
      refine foldlM_repeated (fun ihave => ({ ihave } : ControlMessage)) rfl rfl fun collected part member => ?_
      simp only [ControlMessage.merge]
      rw [ControlIHave.parseInto_encode (small_of_mem 1 member (by simp +contextual) small)]
      rfl
    have second : (repeated 2 (iwant.map ControlIWant.encode)).foldlM ControlMessage.merge { ihave } =
        some { ihave, iwant } := by
      refine foldlM_repeated (fun iwant => ({ ihave, iwant } : ControlMessage)) rfl rfl fun collected part member => ?_
      simp only [ControlMessage.merge]
      rw [ControlIWant.parseInto_encode (small_of_mem 2 member (by simp +contextual) small)]
      rfl
    have third : (repeated 3 (graft.map ControlGraft.encode)).foldlM ControlMessage.merge { ihave, iwant } =
        some { ihave, iwant, graft } := by
      refine foldlM_repeated (fun graft => ({ ihave, iwant, graft } : ControlMessage)) rfl rfl fun collected part member => ?_
      simp only [ControlMessage.merge]
      rw [ControlGraft.parseInto_encode (small_of_mem 3 member (by simp +contextual) small)]
      rfl
    have fourth : (repeated 4 (prune.map ControlPrune.encode)).foldlM ControlMessage.merge { ihave, iwant, graft } =
        some { ihave, iwant, graft, prune } := by
      refine foldlM_repeated (fun prune => ({ ihave, iwant, graft, prune } : ControlMessage)) rfl rfl
        fun collected part member => ?_
      simp only [ControlMessage.merge]
      rw [ControlPrune.parseInto_encode (small_of_mem 4 member (by simp +contextual) small)]
      rfl
    have fifth : (repeated 5 (idontwant.map ControlIDontWant.encode)).foldlM ControlMessage.merge
        { ihave, iwant, graft, prune } = some { ihave, iwant, graft, prune, idontwant } := by
      refine foldlM_repeated (fun idontwant => ({ ihave, iwant, graft, prune, idontwant } : ControlMessage)) rfl rfl
        fun collected part member => ?_
      simp only [ControlMessage.merge]
      rw [ControlIDontWant.parseInto_encode (small_of_mem 5 member (by simp +contextual) small)]
      rfl
    simp only [List.foldlM_append, first, second, third, fourth, fifth, Option.bind_eq_bind, Option.bind_some]
  · intro field member
    simp only [List.mem_append] at member
    rcases member with (((member | member) | member) | member) | member
    all_goals exact written_repeated (by decide) (by decide) member

end Parts

/-- Every RPC that is written, with messages as the node writes them, is read back. -/
theorem RPC.decode_encode {rpc : RPC} (small : rpc.encode.length < 2 ^ 35)
    (known : ∀ message ∈ rpc.publish, message.unknown = [] ∧ message.topic.isSome) :
    RPC.decode rpc.encode = some rpc := by
  unfold RPC.decode
  unfold RPC.encode at small ⊢
  rw [parseInto_encodeFields _ small]
  · obtain ⟨subscriptions, publish, control⟩ := rpc
    dsimp only at small known ⊢
    have first : (repeated 1 (subscriptions.map SubOpts.encode)).foldlM RPC.merge {} = some { subscriptions } := by
      refine foldlM_repeated (fun subscriptions => ({ subscriptions } : RPC)) rfl rfl fun collected part member => ?_
      simp only [RPC.merge]
      rw [SubOpts.parseInto_encode (small_of_mem 1 member (by simp +contextual) small)]
      rfl
    have second : (repeated 2 (publish.map Message.encode)).foldlM RPC.merge { subscriptions } =
        some { subscriptions, publish } := by
      refine foldlM_repeated (fun publish => ({ subscriptions, publish } : RPC)) rfl rfl fun collected part member => ?_
      obtain ⟨unknown, topic⟩ := known part member
      have short : part.encode.length < 2 ^ 35 := small_of_mem 2 member (by simp +contextual) small
      simp only [RPC.merge]
      rw [Message.parseInto_encode short unknown]
      simp [Message.initialized, topic]
    have third : (if control = {} then [] else [(⟨3, .bytes control.encode⟩ : Field)]).foldlM RPC.merge
        { subscriptions, publish } = some { subscriptions, publish, control } := by
      split_ifs with empty
      · rw [empty]
        rfl
      · have short : control.encode.length < 2 ^ 35 := by
          rw [if_neg empty] at small
          exact (length_le_of_mem (List.mem_append_right _ (List.mem_singleton_self _))).trans_lt small
        simp [RPC.merge, ControlMessage.parseInto_encode short]
    simp only [List.foldlM_append, first, second, third, Option.bind_eq_bind, Option.bind_some]
  · intro field member
    simp only [List.mem_append] at member
    rcases member with (member | member) | member
    · exact written_repeated (by decide) (by decide) member
    · exact written_repeated (by decide) (by decide) member
    · split_ifs at member
      · cases member
      · rw [List.mem_singleton.mp member]
        exact ⟨Nat.succ_pos 2, (by decide : 3 < 2 ^ 29), .inr ⟨_, rfl⟩⟩

end Libp2p.Gossip.Pb
