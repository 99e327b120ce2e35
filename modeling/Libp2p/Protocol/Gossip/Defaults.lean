import Libp2p.Protocol.Gossip.System
import Mathlib.Data.Rat.Floor

/-! # The default configuration

The defaults of the source with exact rational scores, and a node that runs with them: its clock starts after an hour
and advances by a period at every reading, it does not shuffle, and a signature is the key followed by what was signed.
-/

namespace Libp2p.Gossip

open Library

/-- Exact rationals in the place of `double`. -/
def Rational : Type := ℚ

instance : Double Rational where
  add := fun left right : ℚ => left + right
  sub := fun left right : ℚ => left - right
  mul := fun left right : ℚ => left * right
  div := fun left right : ℚ => left / right
  zero := (0 : ℚ)
  one := (1 : ℚ)
  natCast := fun value => (value : ℚ)
  lt := fun left right : ℚ => left < right
  decidableLt := fun left right : ℚ => inferInstanceAs (Decidable (left < right))
  truncate := fun value : ℚ => ⌊value⌋.toNat

instance : DecidableEq Rational := inferInstanceAs (DecidableEq ℚ)

/-- The thresholds of a score configuration are in order. -/
def ScoreConfig.valid {R : Type} [Double R] (config : ScoreConfig R) : Bool :=
  ! decide (0 < config.gossipThreshold) &&
    ! (decide (0 < config.publishThreshold) || decide (config.gossipThreshold < config.publishThreshold)) &&
    ! (decide (0 < config.graylistThreshold) || decide (config.publishThreshold < config.graylistThreshold)) &&
    ! decide (config.opportunisticGraftThreshold < 0)

def ScoreConfig.default : ScoreConfig Rational where
  zero := (0 : ℚ)
  gossipThreshold := (-10 : ℚ)
  publishThreshold := (-50 : ℚ)
  graylistThreshold := (-80 : ℚ)
  opportunisticGraftThreshold := (20 : ℚ)
  topicScoreCap := (3600 : ℚ)
  appSpecificWeight := (10 : ℚ)
  behaviourPenaltyWeight := (-10 : ℚ)
  behaviourPenaltyThreshold := (0 : ℚ)
  behaviourPenaltyDecay := (1 / 5 : ℚ)
  decayToZero := (1 / 10 : ℚ)
  retainScore := 3600
  slowPeerWeight := (-1 / 5 : ℚ)
  slowPeerThreshold := (0 : ℚ)
  slowPeerDecay := (1 / 5 : ℚ)

def TopicScoreParams.default : TopicScoreParams Rational where
  topicWeight := (1 / 2 : ℚ)
  timeInMeshWeight := (1 : ℚ)
  timeInMeshQuantum := 1
  timeInMeshCap := (3600 : ℚ)
  firstMessageDeliveriesWeight := (1 : ℚ)
  firstMessageDeliveriesDecay := (1 / 2 : ℚ)
  firstMessageDeliveriesCap := (2000 : ℚ)
  meshMessageDeliveriesWeight := (-1 : ℚ)
  meshMessageDeliveriesDecay := (1 / 2 : ℚ)
  meshMessageDeliveriesCap := (100 : ℚ)
  meshMessageDeliveriesThreshold := (20 : ℚ)
  meshMessageDeliveriesWindow := 10
  meshMessageDeliveriesActivation := 5
  meshFailurePenaltyWeight := (-1 : ℚ)
  meshFailurePenaltyDecay := (1 / 2 : ℚ)
  invalidMessageDeliveriesWeight := (-1 : ℚ)
  invalidMessageDeliveriesDecay := (3 / 10 : ℚ)

theorem ScoreConfig.valid_default : ScoreConfig.default.valid = true := by decide

/-- The bytes of a name of ASCII characters. -/
def name (text : String) : Bytes := text.toList.map fun character => UInt8.ofNat character.toNat

def kProtocolFloodsub : ProtocolName := name "/floodsub/1.0.0"

def kProtocolGossipsub : ProtocolName := name "/meshsub/1.0.0"

def kProtocolGossipsubv1_1 : ProtocolName := name "/meshsub/1.1.0"

def kProtocolGossipsubv1_2 : ProtocolName := name "/meshsub/1.2.0"

def protocolVersions : UnorderedMap ProtocolName PeerKind :=
  (((∅ : UnorderedMap ProtocolName PeerKind).insert kProtocolFloodsub .floodsub).insert kProtocolGossipsub .gossipsub
    |>.insert kProtocolGossipsubv1_1 .gossipsubv1_1).insert kProtocolGossipsubv1_2 .gossipsubv1_2

/-- The defaults, with the id of a message made of its author and its sequence number. -/
def Config.default (floodPublish : Bool) : Config Rational where
  messageIdFn message := (message.from_.map PeerId.toVector).getD [] ++ storeBigU64 (message.seqno.getD 0)
  protocolVersions := Gossip.protocolVersions
  floodPublish
  gossipFactor := (1 / 4 : ℚ)
  score := .default

/-- The data of a Secp256k1 key. -/
def sampleKey (byte : UInt8) : Bytes := 0x02 :: List.replicate 32 byte

def samplePeerId (byte : UInt8) : PeerId :=
  ⟨⟨HashType.identity, [0x08, 0x02, 0x12, 0x21] ++ sampleKey byte, by simp [kMaxHashLength, sampleKey]⟩⟩

/-- A node with the default configuration. -/
def sampleEnv (floodPublish : Bool) (period : Ttl) : Env Rational where
  config := .default floodPublish
  hostId := samplePeerId 0
  sign signable := sampleKey 0 ++ signable
  rsaBits _ := none
  verify signable signature key := signature = key.data ++ signable
  clock reading := 3600 * 10 ^ 9 + reading * period
  monotone := fun _ _ le => Nat.add_le_add_left (Nat.mul_le_mul_right _ le) _
  shufflePeers _ peers := peers
  shufflePeers_perm _ peers := .refl peers
  shuffleIds _ ids := ids
  shuffleIds_perm _ ids := .refl ids
  outOfBounds _ := (0 : ℚ)

/-- A message that its author signed. -/
def sampleMessage (author : UInt8) (seqno : Seqno) (topicHash : TopicHash) (data : Bytes) : Pb.Message :=
  let unsigned : Pb.Message :=
    { from_ := some (samplePeerId author).toVector, data := some data, seqno := some (storeBigU64 seqno)
      topic := some topicHash }
  { unsigned with signature := some (sampleKey author ++ getSignable unsigned) }

end Libp2p.Gossip
