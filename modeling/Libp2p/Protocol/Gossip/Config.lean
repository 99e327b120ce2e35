import Libp2p.Peer.PeerId
import Libp2p.Protocol.Gossip.TimeCache

/-! # Gossip configuration and messages

Durations that meet the steady clock are in nanoseconds; backoffs and the heartbeat interval, which are
divided by each other and travel in protocol buffers, are whole seconds in a signed 64-bit count. The durations
among the parameters of scores are signed and in the units of the source, and nothing checks them. Scores are
`double` in the source. The model only fixes the operations that the code applies to them, so that its
results hold for every arithmetic.
-/

namespace Libp2p.Gossip

open Library

abbrev ProtocolName := Bytes

abbrev TopicHash := Bytes

abbrev MessageId := Bytes

abbrev Seqno := UInt64

/-- Whole seconds. -/
abbrev Backoff := Int

/-- `score::Duration`, in milliseconds. -/
abbrev Duration := Int

abbrev Seconds := Int

/-- The arithmetic of `double` as far as the code uses it. -/
class Double (R : Type) extends Add R, Sub R, Mul R, Div R, Zero R, One R, NatCast R, LT R where
  decidableLt : DecidableRel fun left right : R => left < right
  truncate : R → ℕ

instance instDecidableRelLt {R : Type} [Double R] : DecidableRel fun left right : R => left < right := Double.decidableLt

/-- `std::min`. -/
def Double.min {R : Type} [Double R] (left right : R) : R := if right < left then right else left

/-- The conversion of a signed number. -/
def Double.ofInt {R : Type} [Double R] : Int → R
  | .ofNat value => (value : R)
  | .negSucc value => 0 - ((value + 1 : ℕ) : R)

inductive PeerKind where
  | notSupported
  | floodsub
  | gossipsub
  | gossipsubv1_1
  | gossipsubv1_2
deriving DecidableEq, Repr

/-- The position in the enumeration, by which kinds are compared. -/
def PeerKind.rank : PeerKind → ℕ
  | .notSupported => 0
  | .floodsub => 1
  | .gossipsub => 2
  | .gossipsubv1_1 => 3
  | .gossipsubv1_2 => 4

inductive ValidationMode where
  | strict
  | anonymous
deriving DecidableEq, Repr

inductive MessageAuthenticity where
  | signed
  | anonymous
deriving DecidableEq, Repr

structure Message where
  from_ : Option PeerId := none
  data : Bytes := []
  seqno : Option Seqno := none
  topic : TopicHash := []
  signature : Option Bytes := none
  receivedFrom : Option PeerId := none
deriving DecidableEq

structure TopicMeshConfig where
  meshN : ℕ := 6
  meshNLow : ℕ := 5
  meshNHigh : ℕ := 12
  meshOutboundMin : ℕ := 2

structure TopicScoreParams (R : Type) where
  topicWeight : R
  timeInMeshWeight : R
  timeInMeshQuantum : Duration
  timeInMeshCap : R
  firstMessageDeliveriesWeight : R
  firstMessageDeliveriesDecay : R
  firstMessageDeliveriesCap : R
  meshMessageDeliveriesWeight : R
  meshMessageDeliveriesDecay : R
  meshMessageDeliveriesCap : R
  meshMessageDeliveriesThreshold : R
  meshMessageDeliveriesWindow : Duration
  meshMessageDeliveriesActivation : Seconds
  meshFailurePenaltyWeight : R
  meshFailurePenaltyDecay : R
  invalidMessageDeliveriesWeight : R
  invalidMessageDeliveriesDecay : R

structure ScoreConfig (R : Type) where
  zero : R
  gossipThreshold : R
  publishThreshold : R
  graylistThreshold : R
  opportunisticGraftThreshold : R
  topics : UnorderedMap TopicHash (TopicScoreParams R) := ∅
  topicScoreCap : R
  appSpecificWeight : R
  behaviourPenaltyWeight : R
  behaviourPenaltyThreshold : R
  behaviourPenaltyDecay : R
  decayToZero : R
  retainScore : Seconds
  slowPeerWeight : R
  slowPeerThreshold : R
  slowPeerDecay : R

theorem historyPositive_default : 0 < 5 := Nat.succ_pos 4

structure Config (R : Type) where
  messageIdFn : Message → MessageId
  validationMode : ValidationMode := .strict
  messageAuthenticity : MessageAuthenticity := .signed
  protocolVersions : UnorderedMap ProtocolName PeerKind
  duplicateCacheTime : Ttl := 60 * 10 ^ 9
  defaultMeshParams : TopicMeshConfig := {}
  pruneBackoff : Backoff := 60
  backoffSlack : ℕ := 1
  graftFloodThreshold : Backoff := 10
  heartbeatInterval : Backoff := 1
  fanoutTtl : Ttl := 60 * 10 ^ 9
  retainScores : ℕ := 4
  historyLength : ℕ := 5
  historyGossip : ℕ := 3
  gossipRetransimission : ℕ := 3
  gossipLazy : ℕ := 6
  gossipFactor : R
  maxIhaveLength : ℕ := 5000
  maxIhaveMessages : ℕ := 10
  floodPublish : Bool := true
  idontwantMessageSizeThreshold : ℕ := 1000
  idontwantOnPublish : Bool := false
  iwantFollowupTime : Ttl := 3 * 10 ^ 9
  opportunisticGraftTicks : ℕ := 60
  opportunisticGraftPeers : ℕ := 2
  score : ScoreConfig R
  historyPositive : 0 < historyLength := by first | exact historyPositive_default | decide

namespace Config

variable {R : Type} (config : Config R)

def meshNForTopic (_ : TopicHash) : ℕ := config.defaultMeshParams.meshN

def meshNLowForTopic (_ : TopicHash) : ℕ := config.defaultMeshParams.meshNLow

def meshNHighForTopic (_ : TopicHash) : ℕ := config.defaultMeshParams.meshNHigh

def meshOutboundMinForTopic (_ : TopicHash) : ℕ := config.defaultMeshParams.meshOutboundMin

end Config

end Libp2p.Gossip
