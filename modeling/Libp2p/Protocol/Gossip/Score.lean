import Libp2p.Protocol.Gossip.Config

/-! # Peer scores

The statistics behind a peer's score: per topic the time in the mesh and the delivery counters, per peer the
penalties. Statistics of a topic are created on demand, for topics that have score parameters. Operations that
read the clock take the readings as arguments.
-/

namespace Libp2p.Gossip

open Library

/-- How long delivery records are retained. -/
def kTimeCacheDuration : Ttl := 120 * 10 ^ 9

inductive DeliveryStatus where
  | unknown
  | valid (time : Time)
  | invalid
  | ignored
deriving DecidableEq, Repr

structure DeliveryRecord where
  status : DeliveryStatus := .unknown
  peers : UnorderedSet PeerId := ∅

/-- The time in the mesh is in milliseconds. -/
structure MeshActive where
  graftTime : Time
  meshTime : ℕ := 0

structure TopicStats (R : Type) [Double R] where
  meshActive : Option MeshActive := none
  firstMessageDeliveries : R := 0
  meshMessageDeliveriesActive : Bool := false
  meshMessageDeliveries : R := 0
  meshFailurePenalty : R := 0
  invalidMessageDeliveries : R := 0

/-- A record that expires may do so before the clock starts to count. -/
structure PeerStats (R : Type) [Double R] where
  expiresAt : Option Int := none
  topics : UnorderedMap TopicHash (TopicStats R) := ∅
  behaviourPenalty : R := 0
  applicationScore : R := 0
  slowPeerPenalty : R := 0

structure Score (R : Type) [Double R] where
  params : ScoreConfig R
  peerStats : UnorderedMap PeerId (PeerStats R) := ∅
  deliveries : TimeCache MessageId DeliveryRecord := .empty kTimeCacheDuration

namespace Score

variable {R : Type} [Double R]

/-- `duration_cast<std::chrono::seconds>`, which cuts towards zero. -/
def wholeSeconds (duration : Duration) : Seconds := duration.tdiv 1000

/-- `as_secs_f64`. -/
def asSecs (duration : Duration) : R := Double.ofInt (wholeSeconds duration)

/-- A duration that is not negative in whole seconds is converted as an unsigned number. -/
theorem asSecs_of_nonneg {duration : Duration} (nonneg : 0 ≤ wholeSeconds duration) :
    (asSecs duration : R) = ((wholeSeconds duration).toNat : R) := by
  unfold asSecs
  obtain ⟨seconds, same⟩ := Int.eq_ofNat_of_zero_le nonneg
  rw [same]
  rfl

/-- The contribution of one topic, before its weight. -/
def topicScore (params : TopicScoreParams R) (stats : TopicStats R) : R :=
  let score : R := 0
  let score := match stats.meshActive with
    | none => score
    | some active =>
      let p1 := Double.min (asSecs active.meshTime / asSecs params.timeInMeshQuantum) params.timeInMeshCap
      score + p1 * params.timeInMeshWeight
  let p2 := Double.min stats.firstMessageDeliveries params.firstMessageDeliveriesCap
  let score := score + p2 * params.firstMessageDeliveriesWeight
  let score :=
    if stats.meshMessageDeliveriesActive ∧ stats.meshMessageDeliveries < params.meshMessageDeliveriesThreshold then
      let deficit := params.meshMessageDeliveriesThreshold - stats.meshMessageDeliveries
      score + deficit * deficit * params.meshMessageDeliveriesWeight
    else score
  let score := score + stats.meshFailurePenalty * params.meshFailurePenaltyWeight
  let p4 := stats.invalidMessageDeliveries * stats.invalidMessageDeliveries
  score + p4 * params.invalidMessageDeliveriesWeight

/-- The full score of a peer; zero for an unknown one. -/
def score (scores : Score R) (peerId : PeerId) : R :=
  match scores.peerStats.lookup peerId with
  | none => 0
  | some stats =>
    let params := scores.params
    let score := stats.topics.entries.foldl (fun score entry =>
      match params.topics.lookup entry.1 with
      | none => score
      | some topicParams => score + topicScore topicParams entry.2 * topicParams.topicWeight) 0
    let score := if 0 < params.topicScoreCap ∧ params.topicScoreCap < score then params.topicScoreCap else score
    let score := score + stats.applicationScore * params.appSpecificWeight
    let score :=
      if params.behaviourPenaltyThreshold < stats.behaviourPenalty then
        let excess := stats.behaviourPenalty - params.behaviourPenaltyThreshold
        score + excess * excess * params.behaviourPenaltyWeight
      else score
    if params.slowPeerThreshold < stats.slowPeerPenalty then
      let excess := stats.slowPeerPenalty - params.slowPeerThreshold
      score + excess * params.slowPeerWeight
    else score

def below (scores : Score R) (peerId : PeerId) (threshold : R) : Bool := scores.score peerId < threshold

/-- Change the statistics of a known peer. -/
def modifyPeer (scores : Score R) (peerId : PeerId) (change : PeerStats R → PeerStats R) : Score R :=
  { scores with peerStats := UnorderedMap.modify scores.peerStats peerId change }

def addPenalty (scores : Score R) (peerId : PeerId) (count : ℕ) : Score R :=
  scores.modifyPeer peerId fun stats => { stats with behaviourPenalty := stats.behaviourPenalty + (count : R) }

/-- `statsOrDefault`: default statistics are created for topics with parameters only. -/
def statsOrDefault (scores : Score R) (stats : PeerStats R) (topic : TopicHash) : Option (TopicStats R) :=
  match stats.topics.lookup topic with
  | some topicStats => some topicStats
  | none => if topic ∈ scores.params.topics then some {} else none

/-- Change the statistics of a known peer in one topic. -/
def modifyTopic (scores : Score R) (peerId : PeerId) (topic : TopicHash)
    (change : TopicStats R → TopicStats R) : Score R :=
  scores.modifyPeer peerId fun stats =>
    match scores.statsOrDefault stats topic with
    | none => stats
    | some topicStats => { stats with topics := stats.topics.insert topic (change topicStats) }

def graft (scores : Score R) (peerId : PeerId) (topic : TopicHash) (now : Time) : Score R :=
  scores.modifyTopic peerId topic fun stats =>
    { stats with meshActive := some { graftTime := now }, meshMessageDeliveriesActive := false }

/-- The penalty for leaving a mesh with too few deliveries. -/
def failurePenalty (threshold : R) (stats : TopicStats R) : R :=
  let deficit := threshold - stats.meshMessageDeliveries
  stats.meshFailurePenalty + deficit * deficit

/-- Statistics are only created for topics with parameters, so `params_.topics.at` finds them. -/
def prune (scores : Score R) (peerId : PeerId) (topic : TopicHash) : Score R :=
  scores.modifyTopic peerId topic fun stats =>
    let stats := match scores.params.topics.lookup topic with
      | none => stats
      | some params =>
        let threshold := params.meshMessageDeliveriesThreshold
        if stats.meshMessageDeliveriesActive ∧ stats.meshMessageDeliveries < threshold then
          { stats with meshFailurePenalty := failurePenalty threshold stats }
        else stats
    { stats with meshMessageDeliveriesActive := false, meshActive := none }

def markFirstMessageDelivery (scores : Score R) (peerId : PeerId) (topic : TopicHash) : Score R :=
  scores.modifyTopic peerId topic fun stats =>
    match scores.params.topics.lookup topic with
    | none => stats
    | some params =>
      let first := Double.min (stats.firstMessageDeliveries + 1) params.firstMessageDeliveriesCap
      let mesh := if stats.meshActive.isSome then
          Double.min (stats.meshMessageDeliveries + 1) params.meshMessageDeliveriesCap
        else stats.meshMessageDeliveries
      { stats with firstMessageDeliveries := first, meshMessageDeliveries := mesh }

def markDuplicateMessageDelivery (scores : Score R) (peerId : PeerId) (topic : TopicHash)
    (validatedTime : Option Time) (now : Time) : Score R :=
  scores.modifyTopic peerId topic fun stats =>
    if stats.meshActive.isSome then
      match validatedTime, scores.params.topics.lookup topic with
      | some validated, some params =>
        if (now : Int) > validated + params.meshMessageDeliveriesWindow * 10 ^ 6 then stats
        else { stats with
          meshMessageDeliveries := Double.min (stats.meshMessageDeliveries + 1) params.meshMessageDeliveriesCap }
      | _, _ => stats
    else stats

def markInvalidMessageDelivery (scores : Score R) (peerId : PeerId) (topic : TopicHash) : Score R :=
  scores.modifyTopic peerId topic fun stats =>
    { stats with invalidMessageDeliveries := stats.invalidMessageDeliveries + 1 }

/-- The record of a message, created on first sight. -/
def record (scores : Score R) (messageId : MessageId) (now : Time) : Score R × DeliveryRecord :=
  let deliveries := scores.deliveries.getOrDefault messageId {} now
  ({ scores with deliveries }, (deliveries.map.lookup messageId).getD {})

def modifyRecord (scores : Score R) (messageId : MessageId) (change : DeliveryRecord → DeliveryRecord) : Score R :=
  { scores with deliveries := scores.deliveries.modify messageId change }

def duplicateMessage (scores : Score R) (peerId : PeerId) (messageId : MessageId) (topic : TopicHash)
    (now later : Time) : Score R :=
  let (scores, record) := scores.record messageId now
  if peerId ∈ record.peers then scores
  else
    let seen := fun scores : Score R => scores.modifyRecord messageId fun record =>
      { record with peers := record.peers.insert peerId }
    match record.status with
    | .unknown => seen scores
    | .valid time => (seen scores).markDuplicateMessageDelivery peerId topic (some time) later
    | .invalid => scores.markInvalidMessageDelivery peerId topic
    | .ignored => scores

def validateMessage (scores : Score R) (messageId : MessageId) (now : Time) : Score R := (scores.record messageId now).1

def deliverMessage (scores : Score R) (from_ : PeerId) (messageId : MessageId) (topic : TopicHash)
    (now later : Time) : Score R :=
  let scores := scores.markFirstMessageDelivery from_ topic
  let (scores, record) := scores.record messageId now
  if record.status ≠ .unknown then scores
  else
    let scores := scores.modifyRecord messageId fun record => { record with status := .valid later }
    record.peers.elements.foldl (fun scores peer =>
      if peer ≠ from_ then scores.markDuplicateMessageDelivery peer topic none later else scores) scores

def connect (scores : Score R) (peerId : PeerId) : Score R :=
  let stats := (scores.peerStats.lookup peerId).getD {}
  { scores with peerStats := scores.peerStats.insert peerId { stats with expiresAt := none } }

/-- What `disconnect` does to the statistics of one topic. -/
def leaveTopic (params : Option (TopicScoreParams R)) (stats : TopicStats R) : TopicStats R :=
  let penalty := match params with
    | none => stats.meshFailurePenalty
    | some params =>
      let threshold := params.meshMessageDeliveriesThreshold
      if stats.meshActive.isSome ∧ stats.meshMessageDeliveriesActive ∧ stats.meshMessageDeliveries < threshold then
        failurePenalty threshold stats
      else stats.meshFailurePenalty
  { stats with
    firstMessageDeliveries := 0
    meshFailurePenalty := penalty
    meshActive := none
    meshMessageDeliveriesActive := false }

/-- Change the statistics of every topic of a peer. -/
def mapTopics (scores : Score R) (topics : UnorderedMap TopicHash (TopicStats R))
    (change : Option (TopicScoreParams R) → TopicStats R → TopicStats R) : UnorderedMap TopicHash (TopicStats R) :=
  topics.keys.foldl (fun topics topic =>
    UnorderedMap.modify topics topic (change (scores.params.topics.lookup topic))) topics

def disconnect (scores : Score R) (peerId : PeerId) (now : Time) : Score R :=
  match scores.peerStats.lookup peerId with
  | none => scores
  | some stats =>
    if 0 < scores.score peerId then { scores with peerStats := scores.peerStats.erase peerId }
    else
      let stats := { stats with
        topics := scores.mapTopics stats.topics leaveTopic
        expiresAt := some (now + scores.params.retainScore * 10 ^ 9) }
      { scores with peerStats := scores.peerStats.insert peerId stats }

/-- A counter after one decay interval. -/
def decayed (scores : Score R) (value decay : R) : R :=
  let value := value * decay
  if value < scores.params.decayToZero then 0 else value

/-- What one decay interval does to the statistics of one topic. -/
def decayTopic (scores : Score R) (now : Time) (params : Option (TopicScoreParams R)) (stats : TopicStats R) :
    TopicStats R :=
  match params with
  | none => stats
  | some params =>
    let meshActive := stats.meshActive.map fun active =>
      { active with meshTime := (now - active.graftTime) / 10 ^ 6 }
    let activated := match meshActive with
      | none => false
      | some active => (active.meshTime : Int) > params.meshMessageDeliveriesActivation * 1000
    { meshActive
      firstMessageDeliveries := scores.decayed stats.firstMessageDeliveries params.firstMessageDeliveriesDecay
      meshMessageDeliveriesActive := stats.meshMessageDeliveriesActive || activated
      meshMessageDeliveries := scores.decayed stats.meshMessageDeliveries params.meshMessageDeliveriesDecay
      meshFailurePenalty := scores.decayed stats.meshFailurePenalty params.meshFailurePenaltyDecay
      invalidMessageDeliveries :=
        scores.decayed stats.invalidMessageDeliveries params.invalidMessageDeliveriesDecay }

/-- One decay interval for one peer; a disconnected peer is dropped once its retention has ended. -/
def decayPeer (scores : Score R) (now : Time) (peerId : PeerId) : Score R :=
  match scores.peerStats.lookup peerId with
  | none => scores
  | some stats =>
    match stats.expiresAt with
    | some expiresAt =>
      if expiresAt < (now : Int) then { scores with peerStats := scores.peerStats.erase peerId } else scores
    | none =>
      let stats := { stats with
        topics := scores.mapTopics stats.topics (scores.decayTopic now)
        behaviourPenalty := scores.decayed stats.behaviourPenalty scores.params.behaviourPenaltyDecay
        slowPeerPenalty := scores.decayed stats.slowPeerPenalty scores.params.slowPeerDecay }
      { scores with peerStats := scores.peerStats.insert peerId stats }

def onDecay (scores : Score R) (now : Time) : Score R :=
  scores.peerStats.keys.foldl (fun scores peerId => scores.decayPeer now peerId) scores

end Score

end Libp2p.Gossip
