import Libp2p.Protocol.Gossip.Leaving

/-! # Credit for deliveries in a mesh

A mesh peer is credited for a message on two paths: as the first that delivers it, and as one that sends a duplicate in
time. The record of a message lists the peers of the second path only. While the record lives a peer is credited once
for its duplicates, however often it sends them, but the first deliverer is not on the list, and a message whose id the
duplicate cache has forgotten is delivered again.
-/

namespace Libp2p.Gossip

open Library State

/-- The sender, the message and the topic of a copy that is handled. -/
def ScoreOp.copy : ScoreOp → Option (PeerId × MessageId × TopicHash)
  | .duplicateMessage peerId messageId topic _ _ | .deliverMessage peerId messageId topic _ _ =>
    some (peerId, messageId, topic)
  | _ => none

/-- The copy is one that is delivered. -/
def ScoreOp.delivers : ScoreOp → Bool
  | .deliverMessage .. => true
  | _ => false

namespace Score

variable {R : Type} [Double R]

def meshDeliveries (scores : Score R) (peerId : PeerId) (topic : TopicHash) : R :=
  (((scores.peerStats.lookup peerId).bind fun stats => stats.topics.lookup topic).map
    TopicStats.meshMessageDeliveries).getD 0

/-- A duplicate counts if the message was found valid, the peer is not listed for it and its time has not passed. -/
def countsDuplicate (scores : Score R) (peerId : PeerId) (messageId : MessageId) (topic : TopicHash) (now later : Time) :
    Bool :=
  let record := (scores.record messageId now).2
  match record.status with
  | .valid time => decide (peerId ∉ record.peers) && (scores.params.topics.lookup topic).all fun params =>
      ! decide ((later : Int) > time + params.meshMessageDeliveriesWindow * 10 ^ 6)
  | _ => false

/-- The copy of a peer of the mesh reaches its counter. -/
def reaches (scores : Score R) (peerId : PeerId) (messageId : MessageId) : ScoreOp → Bool
  | .deliverMessage from_ delivered topic _ _ =>
    decide (from_ = peerId ∧ delivered = messageId) && scores.standing.active peerId topic
  | .duplicateMessage sender sent topic now later => decide (sender = peerId ∧ sent = messageId) &&
    scores.standing.active peerId topic && scores.countsDuplicate peerId messageId topic now later
  | _ => false

/-- The scores after the first so many operations. -/
def after (scores : Score R) (ops : List ScoreOp) (count : ℕ) : Score R := (ops.take count).foldl apply scores

/-- The operation handles a copy of the message and makes the counter of the peer larger. -/
def Credits (scores : Score R) (ops : List ScoreOp) (index : ℕ) (peerId : PeerId) (messageId : MessageId) : Prop :=
  ∃ op sender topic, ops[index]? = some op ∧ op.copy = some (sender, messageId, topic) ∧
    (scores.after ops index).meshDeliveries peerId topic < (scores.after ops (index + 1)).meshDeliveries peerId topic

/-- The record of a message lives, with the same expiration, after each of the operations. -/
def Alive (scores : Score R) (ops : List ScoreOp) (messageId : MessageId) (time : Time) : Prop :=
  ∀ index < ops.length, (time, messageId) ∈ (scores.after ops (index + 1)).deliveries.expirations

/-- Where a delivered copy of a peer reaches its counter, no other copy of it does. -/
def Alone (scores : Score R) (ops : List ScoreOp) (peerId : PeerId) (messageId : MessageId) : Prop :=
  ∀ second < ops.length, ∀ first < second,
    ops[first]?.any ((scores.after ops first).reaches peerId messageId) →
      ops[second]?.any ((scores.after ops second).reaches peerId messageId) →
        (ops[first]?.any ScoreOp.delivers || ops[second]?.any ScoreOp.delivers) = false

section Counters

variable {scores : Score R} {peerId sender other : PeerId} {messageId : MessageId} {topic : TopicHash} {now later : Time}
  {change : TopicStats R → TopicStats R}

/-- A change leaves a counter alone, or it is the counter of the peer it is about, in statistics that it changes. -/
theorem meshDeliveries_modifyTopic_or :
    (scores.modifyTopic sender topic change).meshDeliveries peerId topic = scores.meshDeliveries peerId topic ∨
      sender = peerId ∧ ∃ topicStats,
        ((scores.peerStats.lookup peerId).bind fun stats => scores.statsOrDefault stats topic) = some topicStats ∧
          (change topicStats).meshMessageDeliveries ≠ topicStats.meshMessageDeliveries := by
  by_cases same : sender = peerId
  · subst same
    unfold meshDeliveries modifyTopic
    rw [lookup_modifyPeer, if_pos rfl]
    cases found : scores.peerStats.lookup sender with
    | none => exact .inl rfl
    | some stats =>
      rw [Option.map_some, Option.bind_some, Option.bind_some, Option.bind_some]
      have present : ∀ topicStats, scores.statsOrDefault stats topic = some topicStats →
          topicStats.meshMessageDeliveries =
            ((stats.topics.lookup topic).map TopicStats.meshMessageDeliveries).getD 0 := by
        intro topicStats known
        unfold statsOrDefault at known
        cases here : stats.topics.lookup topic with
        | some old =>
          rw [here] at known
          rw [← Option.some.inj known]
          rfl
        | none =>
          rw [here] at known
          obtain ⟨-, created⟩ := Option.ite_none_right_eq_some.mp known
          rw [← Option.some.inj created]
          rfl
      cases known : scores.statsOrDefault stats topic with
      | none => exact .inl rfl
      | some topicStats =>
        by_cases kept : (change topicStats).meshMessageDeliveries = topicStats.meshMessageDeliveries
        · left
          simp only [UnorderedMap.lookup_insert_eq, if_true, Option.map_some, Option.getD_some]
          rw [kept, present topicStats known]
        · exact .inr ⟨rfl, topicStats, rfl, kept⟩
  · left
    unfold meshDeliveries modifyTopic
    rw [lookup_modifyPeer, if_neg (Ne.symm same)]

/-- Only the counter of a peer in the mesh is changed where statistics outside of it stay as they are. -/
theorem meshDeliveries_modifyTopic (idle : ∀ stats, stats.meshActive = none →
    (change stats).meshMessageDeliveries = stats.meshMessageDeliveries) :
    (scores.modifyTopic sender topic change).meshDeliveries peerId topic = scores.meshDeliveries peerId topic ∨
      sender = peerId ∧ scores.standing.active peerId topic := by
  refine meshDeliveries_modifyTopic_or.imp_right fun ⟨same, topicStats, found, changed⟩ => ⟨same, ?_⟩
  rw [← any_statsOrDefault, found, Option.any_some, ← Option.ne_none_iff_isSome]
  exact fun outside => changed (idle topicStats outside)

theorem meshDeliveries_of_eq {after : Score R} (same : after.peerStats = scores.peerStats) :
    after.meshDeliveries peerId topic = scores.meshDeliveries peerId topic := by
  unfold meshDeliveries
  rw [same]

/-- A peer that is not the first to deliver a message gets nothing for it when it is found valid. -/
theorem meshDeliveries_markUndated : (scores.markDuplicateMessageDelivery other topic none now).meshDeliveries peerId topic =
    scores.meshDeliveries peerId topic := by
  refine meshDeliveries_modifyTopic_or.resolve_right fun ⟨_, topicStats, _, changed⟩ => changed ?_
  split_ifs <;> rfl

theorem meshDeliveries_markFirst :
    (scores.markFirstMessageDelivery sender topic).meshDeliveries peerId topic = scores.meshDeliveries peerId topic ∨
      sender = peerId ∧ scores.standing.active peerId topic := by
  refine meshDeliveries_modifyTopic fun stats idle => ?_
  split
  · rfl
  · simp [idle]

theorem meshDeliveries_deliverMessage :
    (scores.deliverMessage sender messageId topic now later).meshDeliveries peerId topic =
      (scores.markFirstMessageDelivery sender topic).meshDeliveries peerId topic := by
  have marked : ∀ (peers : List PeerId) (scores : Score R), (peers.foldl (fun scores peer =>
      if peer ≠ sender then scores.markDuplicateMessageDelivery peer topic none later else scores)
      scores).meshDeliveries peerId topic = scores.meshDeliveries peerId topic := by
    refine fun _ _ => foldl_field (fun scores : Score R => scores.meshDeliveries peerId topic) fun scores peer => ?_
    split_ifs
    · exact meshDeliveries_markUndated
    · rfl
  unfold deliverMessage
  dsimp only
  split_ifs
  · exact meshDeliveries_of_eq rfl
  · rw [marked]
    exact meshDeliveries_of_eq rfl

/-- A duplicate of a valid message changes the counter of a peer in the mesh, in time. -/
theorem meshDeliveries_markDated {time : Time} :
    (scores.markDuplicateMessageDelivery sender topic (some time) later).meshDeliveries peerId topic =
        scores.meshDeliveries peerId topic ∨
      sender = peerId ∧ scores.standing.active peerId topic ∧
        (scores.params.topics.lookup topic).all fun params =>
          ! decide ((later : Int) > time + params.meshMessageDeliveriesWindow * 10 ^ 6) := by
  refine meshDeliveries_modifyTopic_or.imp_right fun ⟨same, topicStats, found, changed⟩ => ⟨same, ?_, ?_⟩
  · rw [← any_statsOrDefault, found, Option.any_some]
    by_contra outside
    exact changed (by rw [if_neg outside])
  · cases known : scores.params.topics.lookup topic with
    | none => rfl
    | some params =>
      rw [Option.all_some, Bool.not_eq_true', decide_eq_false_iff_not]
      intro late
      refine changed ?_
      simp only [known, if_pos late, ite_self]

/-- A duplicate changes no counter but that of its sender, if it counts and its sender is in the mesh. -/
theorem meshDeliveries_duplicateMessage :
    (scores.duplicateMessage sender messageId topic now later).meshDeliveries peerId topic =
        scores.meshDeliveries peerId topic ∨
      sender = peerId ∧ scores.standing.active peerId topic ∧
        scores.countsDuplicate peerId messageId topic now later := by
  unfold duplicateMessage
  dsimp only
  split_ifs with listed
  · exact .inl (meshDeliveries_of_eq rfl)
  · split
    · exact .inl (meshDeliveries_of_eq rfl)
    · next time status =>
      set seen := (scores.record messageId now).1.modifyRecord messageId fun record =>
        { record with peers := record.peers.insert sender } with seeing
      have same : seen.meshDeliveries peerId topic = scores.meshDeliveries peerId topic := meshDeliveries_of_eq rfl
      rcases @meshDeliveries_markDated R _ seen peerId sender topic later time with kept | ⟨rfl, active, early⟩
      · exact .inl (kept.trans same)
      · refine .inr ⟨rfl, active, ?_⟩
        unfold countsDuplicate
        dsimp only
        rw [status]
        have params : seen.params = scores.params := rfl
        rw [params] at early
        simpa [listed] using early
    · refine .inl (Eq.trans ?_ (meshDeliveries_of_eq rfl : (scores.record messageId now).1.meshDeliveries peerId topic = _))
      exact meshDeliveries_modifyTopic_or.resolve_right fun ⟨_, _, _, changed⟩ => changed rfl
    · exact .inl (meshDeliveries_of_eq rfl)

/-- A copy that makes a counter larger is one of its peer that reaches it. -/
theorem reaches_of_credit {op : ScoreOp} (copy : op.copy = some (sender, messageId, topic))
    (credit : (scores.apply op).meshDeliveries peerId topic ≠ scores.meshDeliveries peerId topic) :
    scores.reaches peerId messageId op := by
  cases op with
  | deliverMessage from_ delivered place now later =>
    obtain ⟨rfl, rfl, rfl⟩ : from_ = sender ∧ delivered = messageId ∧ place = topic := by simpa [ScoreOp.copy] using copy
    have first : (scores.markFirstMessageDelivery from_ place).meshDeliveries peerId place ≠
        scores.meshDeliveries peerId place := fun same => credit (meshDeliveries_deliverMessage.trans same)
    obtain ⟨rfl, active⟩ := meshDeliveries_markFirst.resolve_left first
    simp [reaches, active]
  | duplicateMessage from_ sent place now later =>
    obtain ⟨rfl, rfl, rfl⟩ : from_ = sender ∧ sent = messageId ∧ place = topic := by simpa [ScoreOp.copy] using copy
    obtain ⟨rfl, active, counts⟩ := meshDeliveries_duplicateMessage.resolve_left credit
    simp [reaches, active, counts]
  | _ => cases copy

end Counters

section Lifetime

variable {scores : Score R} {peerId : PeerId} {messageId : MessageId} {topic : TopicHash} {now later time : Time}
  {op : ScoreOp}

/-- What an operation may do to the records of messages: look one up, and add to its peers or change its status. -/
inductive RecordStep (before : TimeCache MessageId DeliveryRecord) : TimeCache MessageId DeliveryRecord → Prop
  | same : RecordStep before before
  | looked (messageId : MessageId) (now : Time) : RecordStep before (before.getOrDefault messageId {} now)
  | changed (messageId : MessageId) (now : Time) {change : DeliveryRecord → DeliveryRecord}
      (grows : ∀ record, ∀ peerId ∈ record.peers, peerId ∈ (change record).peers) :
      RecordStep before ((before.getOrDefault messageId {} now).modify messageId change)

theorem deliveries_markDuplicates {from_ : PeerId} {peers : List PeerId} : (peers.foldl (fun scores peer =>
    if peer ≠ from_ then scores.markDuplicateMessageDelivery peer topic none later else scores) scores).deliveries =
      scores.deliveries := by
  refine foldl_field (fun scores : Score R => scores.deliveries) fun scores peer => ?_
  split_ifs <;> rfl

theorem recordStep_apply (scores : Score R) (op : ScoreOp) : RecordStep scores.deliveries (scores.apply op).deliveries := by
  cases op with
  | duplicateMessage sender messageId topic now later =>
    have seen : ∀ record : DeliveryRecord, ∀ peer ∈ record.peers, peer ∈ record.peers.insert sender := by
      intro record peer listed
      simp [listed]
    unfold apply duplicateMessage
    dsimp only
    split_ifs
    · exact .looked messageId now
    · split
      · exact .changed messageId now seen
      · exact .changed messageId now seen
      · exact .looked messageId now
      · exact .looked messageId now
  | validateMessage messageId now => exact .looked messageId now
  | deliverMessage from_ messageId topic now later =>
    unfold apply deliverMessage
    dsimp only
    split_ifs
    · exact .looked messageId now
    · rw [deliveries_markDuplicates]
      exact .changed messageId now fun _ _ listed => listed
  | disconnect peerId now =>
    have kept : (scores.apply (.disconnect peerId now)).deliveries = scores.deliveries := by
      unfold apply disconnect
      dsimp only
      split
      · rfl
      · split_ifs <;> rfl
    rw [kept]
    exact .same
  | onDecay now =>
    have kept : (scores.apply (.onDecay now)).deliveries = scores.deliveries := by
      refine foldl_field (fun scores : Score R => scores.deliveries) fun scores peer => ?_
      unfold decayPeer
      split
      · rfl
      · dsimp only
        split
        · split_ifs <;> rfl
        · rfl
    rw [kept]
    exact .same
  | _ => exact .same

/-- A peer is listed in the record of a message. -/
def Listed (scores : Score R) (peerId : PeerId) (messageId : MessageId) : Prop :=
  ∃ record, scores.deliveries.map.lookup messageId = some record ∧ peerId ∈ record.peers

theorem RecordStep.ttl_eq {before after : TimeCache MessageId DeliveryRecord} (step : RecordStep before after) :
    after.ttl = before.ttl := by
  cases step with
  | same => rfl
  | looked => exact TimeCache.getOrDefault_ttl
  | changed => exact TimeCache.getOrDefault_ttl

/-- A record that lives through a step keeps its peers. -/
theorem RecordStep.listed {before after : TimeCache MessageId DeliveryRecord} (step : RecordStep before after)
    (lasting : 0 < before.ttl) (alive : (time, messageId) ∈ before.expirations)
    (alive' : (time, messageId) ∈ after.expirations) {record : DeliveryRecord}
    (found : before.map.lookup messageId = some record) (listed : peerId ∈ record.peers) :
    ∃ record, after.map.lookup messageId = some record ∧ peerId ∈ record.peers := by
  cases step with
  | same => exact ⟨record, found, listed⟩
  | looked key now => exact ⟨record, (TimeCache.lookup_getOrDefault_of_kept lasting alive alive').trans found, listed⟩
  | changed key now grows =>
    have kept := (TimeCache.lookup_getOrDefault_of_kept lasting alive alive').trans found
    unfold TimeCache.modify
    dsimp only
    rw [UnorderedMap.lookup_modify]
    split_ifs with same
    · subst same
      rw [kept]
      exact ⟨_, rfl, grows record peerId listed⟩
    · exact ⟨record, kept, listed⟩

/-- The record of a message whose duplicate counts. -/
theorem record_of_counts (counts : scores.countsDuplicate peerId messageId topic now later) : ∃ record validated,
    (scores.deliveries.getOrDefault messageId {} now).map.lookup messageId = some record ∧
      (scores.record messageId now).2 = record ∧ record.status = .valid validated ∧ peerId ∉ record.peers := by
  have looked : (scores.record messageId now).2 =
    ((scores.deliveries.getOrDefault messageId {} now).map.lookup messageId).getD {} := rfl
  unfold countsDuplicate at counts
  dsimp only at counts
  split at counts
  · next validated status =>
    rw [Bool.and_eq_true, decide_eq_true_eq] at counts
    cases found : (scores.deliveries.getOrDefault messageId {} now).map.lookup messageId with
    | none =>
      rw [looked, found] at status
      cases status
    | some record =>
      rw [looked, found] at status counts
      exact ⟨record, validated, rfl, by rw [looked, found]; rfl, status, counts.1⟩
  · cases counts

theorem counts_of_reaches {sender : PeerId} {sent : MessageId}
    (reached : scores.reaches peerId messageId (.duplicateMessage sender sent topic now later)) :
    sender = peerId ∧ sent = messageId ∧ scores.countsDuplicate peerId messageId topic now later := by
  unfold reaches at reached
  simp only [Bool.and_eq_true, decide_eq_true_eq] at reached
  exact ⟨reached.1.1.1, reached.1.1.2, reached.2⟩

/-- A duplicate that reaches its counter is listed afterwards. -/
theorem listed_of_reaches (reached : scores.reaches peerId messageId op) (duplicate : ¬ op.delivers) :
    (scores.apply op).Listed peerId messageId := by
  cases op with
  | duplicateMessage sender sent topic now later =>
    obtain ⟨rfl, rfl, counts⟩ := counts_of_reaches reached
    obtain ⟨record, validated, found, same, status, unlisted⟩ := record_of_counts counts
    have handled : (scores.apply (.duplicateMessage sender sent topic now later)).deliveries =
        (scores.deliveries.getOrDefault sent {} now).modify sent fun record =>
          { record with peers := record.peers.insert sender } := by
      unfold apply duplicateMessage
      dsimp only
      rw [same, if_neg unlisted, status]
      rfl
    refine ⟨{ record with peers := record.peers.insert sender }, ?_, by simp⟩
    rw [handled]
    unfold TimeCache.modify
    dsimp only
    rw [UnorderedMap.lookup_modify, if_pos rfl, found]
    rfl
  | deliverMessage => exact absurd rfl duplicate
  | _ => cases reached

theorem expirations_duplicateMessage {sender : PeerId} :
    (scores.duplicateMessage sender messageId topic now later).deliveries.expirations =
      (scores.deliveries.getOrDefault messageId {} now).expirations := by
  unfold duplicateMessage
  dsimp only
  split_ifs
  · rfl
  · split <;> rfl

/-- While the record of a message lives, a peer that is listed for it reaches its counter with no duplicate. -/
theorem not_reaches_of_listed (lasting : 0 < scores.deliveries.ttl) (listed : scores.Listed peerId messageId)
    (alive : (time, messageId) ∈ scores.deliveries.expirations)
    (alive' : (time, messageId) ∈ (scores.apply op).deliveries.expirations) (duplicate : ¬ op.delivers) :
    ¬ scores.reaches peerId messageId op := by
  intro reached
  cases op with
  | duplicateMessage sender sent topic now later =>
    obtain ⟨rfl, rfl, counts⟩ := counts_of_reaches reached
    obtain ⟨record, validated, found, -, -, unlisted⟩ := record_of_counts counts
    obtain ⟨old, known, member⟩ := listed
    have still : (time, sent) ∈ (scores.deliveries.getOrDefault sent {} now).expirations := by
      rwa [apply, expirations_duplicateMessage] at alive'
    rw [TimeCache.lookup_getOrDefault_of_kept lasting alive still, known] at found
    obtain rfl := Option.some.inj found
    exact unlisted member
  | deliverMessage => exact absurd rfl duplicate
  | _ => cases reached

end Lifetime

section Once

variable {params : ScoreConfig R} {scores : Score R} {early ops : List ScoreOp} {peerId : PeerId}
  {messageId : MessageId} {time : Time} {op : ScoreOp} {index first second : ℕ}

theorem after_succ (here : ops[index]? = some op) : scores.after ops (index + 1) = (scores.after ops index).apply op := by
  unfold after
  rw [List.take_add_one, here, List.foldl_append]
  rfl

/-- Records are kept for the same time in every run. -/
theorem ttl_of_runs (run : ScoreRuns params early scores) : scores.deliveries.ttl = kTimeCacheDuration := by
  refine run.preserves (fun scores => scores.deliveries.ttl = kTimeCacheDuration) rfl ?_
  rintro op before after kept rfl
  exact (recordStep_apply before op).ttl_eq.trans kept

theorem run_after (run : ScoreRuns params early scores) (index : ℕ) :
    ScoreRuns params (early ++ ops.take index) (scores.after ops index) :=
  run.append (run_foldl _)

/-- While the record of a message lives, a peer stays listed for it. -/
theorem listed_after (run : ScoreRuns params early scores) (alive : scores.Alive ops messageId time)
    (listed : (scores.after ops (first + 1)).Listed peerId messageId) (le : first + 1 ≤ index) (inside : index ≤ ops.length) :
    (scores.after ops index).Listed peerId messageId := by
  induction index, le using Nat.le_induction with
  | base => exact listed
  | succ index le ih =>
    obtain ⟨op, here⟩ : ∃ op, ops[index]? = some op := ⟨_, List.getElem?_eq_getElem inside⟩
    obtain ⟨record, found, member⟩ := ih (Nat.le_of_succ_le inside)
    have lasting : 0 < (scores.after ops index).deliveries.ttl := by
      rw [ttl_of_runs (run_after run index)]
      decide
    have before : (time, messageId) ∈ (scores.after ops index).deliveries.expirations := by
      obtain ⟨earlier, rfl⟩ : ∃ earlier, index = earlier + 1 := ⟨index - 1, by omega⟩
      exact alive earlier (by omega)
    have after := alive index inside
    rw [after_succ here] at after ⊢
    exact (recordStep_apply _ op).listed lasting before after found member

/-- A peer that reached its counter with a duplicate reaches it with no other while the record lives. -/
theorem not_reaches_twice (run : ScoreRuns params early scores) (alive : scores.Alive ops messageId time)
    (less : first < second) {op' : ScoreOp} (here : ops[first]? = some op) (there : ops[second]? = some op')
    (duplicate : ¬ op.delivers) (duplicate' : ¬ op'.delivers)
    (reached : (scores.after ops first).reaches peerId messageId op) :
    ¬ (scores.after ops second).reaches peerId messageId op' := by
  obtain ⟨inside, -⟩ := List.getElem?_eq_some_iff.mp there
  have listed := listed_of_reaches reached duplicate
  rw [← after_succ here] at listed
  have lasting : 0 < (scores.after ops second).deliveries.ttl := by
    rw [ttl_of_runs (run_after run second)]
    decide
  have before : (time, messageId) ∈ (scores.after ops second).deliveries.expirations := by
    obtain ⟨earlier, rfl⟩ : ∃ earlier, second = earlier + 1 := ⟨second - 1, by omega⟩
    exact alive earlier (by omega)
  have after := alive second inside
  rw [after_succ there] at after
  exact not_reaches_of_listed lasting (listed_after run alive listed less inside.le) before after duplicate'

end Once

section Credit

variable {params : ScoreConfig R} {scores : Score R} {early ops : List ScoreOp} {peerId : PeerId} {messageId : MessageId}
  {time : Time} {first second : ℕ}

theorem Credits.reaches (irrefl : ∀ value : R, ¬ value < value) (credit : scores.Credits ops first peerId messageId) :
    ∃ op, ops[first]? = some op ∧ (scores.after ops first).reaches peerId messageId op := by
  obtain ⟨op, sender, topic, here, copy, grows⟩ := credit
  rw [after_succ here] at grows
  refine ⟨op, here, reaches_of_credit copy fun same => ?_⟩
  rw [same] at grows
  exact irrefl _ grows

theorem Credits.not_lt (irrefl : ∀ value : R, ¬ value < value) (run : ScoreRuns params early scores)
    (alive : scores.Alive ops messageId time)
    (alone : scores.Alone ops peerId messageId) (one : scores.Credits ops first peerId messageId)
    (two : scores.Credits ops second peerId messageId) : ¬ first < second := by
  intro less
  obtain ⟨op, here, reached⟩ := one.reaches irrefl
  obtain ⟨op', there, reached'⟩ := two.reaches irrefl
  obtain ⟨inside, -⟩ := List.getElem?_eq_some_iff.mp there
  have apart := alone second inside first less
  rw [here, there] at apart
  obtain ⟨duplicate, duplicate'⟩ := Bool.or_eq_false_iff.mp (apart reached reached')
  exact not_reaches_twice run alive less here there (ne_true_of_eq_false duplicate) (ne_true_of_eq_false duplicate')
    reached reached'

/-- While the record of a message lives, a peer is credited for the message once, if no other copy of it reaches its
counter where one that was delivered does. No number may be less than itself. -/
theorem credited_once (irrefl : ∀ value : R, ¬ value < value) (run : ScoreRuns params early scores)
    (alive : scores.Alive ops messageId time) (alone : scores.Alone ops peerId messageId)
    (one : scores.Credits ops first peerId messageId) (two : scores.Credits ops second peerId messageId) : first = second :=
  le_antisymm (not_lt.mp (two.not_lt irrefl run alive alone one)) (not_lt.mp (one.not_lt irrefl run alive alone two))

/-- Two peers of a mesh, before a message arrives. -/
def meetingOps : List ScoreOp :=
  [.connect (samplePeerId 1), .connect (samplePeerId 2), .graft (samplePeerId 1) [] 0, .graft (samplePeerId 2) [] 0]

/-- One peer delivers a message that the other sends three times. -/
def resendingOps : List ScoreOp :=
  [.validateMessage [0x6d] 10, .deliverMessage (samplePeerId 2) [0x6d] [] 11 12,
    .duplicateMessage (samplePeerId 1) [0x6d] [] 13 14, .duplicateMessage (samplePeerId 1) [0x6d] [] 15 16,
    .onDecay 17, .duplicateMessage (samplePeerId 1) [0x6d] [] 18 19]

theorem credited_once_resent : ∃ scores : Score (Exact ℚ), ScoreRuns (sampleScoreConfig (1 / 2 : ℚ) 0 0 0) meetingOps scores ∧
    scores.Credits resendingOps 2 (samplePeerId 1) [0x6d] ∧
      ∀ second, scores.Credits resendingOps second (samplePeerId 1) [0x6d] → 2 = second := by
  have run : ScoreRuns (sampleScoreConfig (1 / 2 : ℚ) 0 0 0) meetingOps _ := run_foldl meetingOps
  have credit : Credits (meetingOps.foldl apply { params := sampleScoreConfig (1 / 2 : ℚ) 0 0 0 }) resendingOps 2
      (samplePeerId 1) [0x6d] := ⟨_, _, _, rfl, rfl, by decide +kernel⟩
  have alive : Alive (meetingOps.foldl apply { params := sampleScoreConfig (1 / 2 : ℚ) 0 0 0 }) resendingOps [0x6d]
      (10 + kTimeCacheDuration) := by
    unfold Alive
    decide
  have alone : Alone (meetingOps.foldl apply { params := sampleScoreConfig (1 / 2 : ℚ) 0 0 0 }) resendingOps
      (samplePeerId 1) [0x6d] := by
    unfold Alone
    decide
  exact ⟨_, run, credit, fun second two => credited_once lt_irrefl run alive alone credit two⟩

end Credit

end Score

/-- A message that a peer delivers and sends again. -/
def resentFrame : Bytes := Pb.RPC.encode { publish := [sampleMessage 2 7 [0x74] [0x68, 0x69]] }

/-- A peer in the mesh sends the same message in two frames and is credited for both, while one record lives. -/
theorem deliverer_credited_twice : ∃ before first second : State Rational, Runs scoringEnv 0 graftingEvents before ∧
    before.step scoringEnv (.message 0 resentFrame) = some first ∧
      first.step scoringEnv (.message 0 resentFrame) = some second ∧
      first.score.deliveries.expirations.length = 1 ∧
      second.score.deliveries.expirations = first.score.deliveries.expirations ∧
      before.score.meshDeliveries (samplePeerId 1) [0x74] < first.score.meshDeliveries (samplePeerId 1) [0x74] ∧
      first.score.meshDeliveries (samplePeerId 1) [0x74] < second.score.meshDeliveries (samplePeerId 1) [0x74] := by
  have followed : ((graftingEvents.foldlM (State.step scoringEnv) (State.initial scoringEnv 0)).bind fun before =>
      (before.step scoringEnv (.message 0 resentFrame)).bind fun first =>
        (first.step scoringEnv (.message 0 resentFrame)).map fun second =>
          decide (first.score.deliveries.expirations.length = 1) &&
            decide (second.score.deliveries.expirations = first.score.deliveries.expirations) &&
            decide (before.score.meshDeliveries (samplePeerId 1) [0x74] <
              first.score.meshDeliveries (samplePeerId 1) [0x74]) &&
            decide (first.score.meshDeliveries (samplePeerId 1) [0x74] <
              second.score.meshDeliveries (samplePeerId 1) [0x74])) = some true := by
    decide +kernel
  obtain ⟨before, ran, followed⟩ := Option.bind_eq_some_iff.mp followed
  obtain ⟨first, taken, followed⟩ := Option.bind_eq_some_iff.mp followed
  obtain ⟨second, taken', observed⟩ := Option.map_eq_some_iff.mp followed
  simp only [Bool.and_eq_true, decide_eq_true_eq] at observed
  obtain ⟨⟨⟨one, same⟩, once⟩, twice⟩ := observed
  exact ⟨before, first, second, Run.of_foldlM ran, taken, taken', one, same, once, twice⟩

end Libp2p.Gossip
