import Libp2p.Multi.Accessors
import Libp2p.Multi.Capsules
import Libp2p.Peer.Factories

/-! # Peer addresses

A peer address is written as an address with the id of the peer behind it. It is read from the front: the id is the first
value of `p2p` in the text, and what is cut off is the last place of that value. An address that goes through another peer
has its id in front.
-/

namespace Libp2p

open Library Multi Protocol Multiaddress

structure PeerAddress where
  id : PeerId
  address : Multiaddress
deriving DecidableEq

namespace PeerAddress

inductive Error where
  | conversion (error : Converters.ConversionError)
  | multiaddress (error : Multiaddress.Error)
  | peerId (error : PeerId.TextError)
deriving DecidableEq, Repr

def p2p : Protocol := ⟨.p2p, kVarLen, ascii "p2p"⟩

def kP2PSubstr : Bytes := 0x2f :: (p2p.name ++ [0x2f])

/-- `create` of a text; nothing is returned when an assertion fails. -/
def create (ip : IpTexts) (address : Bytes) : Option (Except Error PeerAddress) :=
  match createFromString ip address with
  | none => none
  | some (.error error) => some (.error (.conversion error))
  | some (.ok multiaddress) =>
    match multiaddress.getFirstValueForProtocol .p2p with
    | .error error => some (.error (.multiaddress error))
    | .ok idB58Str =>
      match PeerId.fromBase58 (View.string 0 idB58Str) with
      | none => none
      | some (.error error) => some (.error (.peerId error))
      | some (.ok id) => some (.ok ⟨id, (multiaddress.decapsulateProtocol ip .p2p idB58Str).1⟩)

def toString (peerAddress : PeerAddress) : Bytes :=
  peerAddress.address.stringifiedAddress ++ kP2PSubstr ++ peerAddress.id.toBase58

/-- The component of a peer id. -/
def idComponent (id : PeerId) : Component := ⟨p2p, id.hash.toBuffer⟩

/-- If one of the components has the word `p2p` for its name or its value, the first of them is that of the id. -/
def Leads (ip : IpTexts) (id : PeerId) (cs : List Component) : Prop :=
  ∀ first ∈ cs.find? fun component => p2p.name ∈ component.words ip, first = idComponent id

/-- No value of the address is empty, and no other peer leads. -/
def ReadsOwn (ip : IpTexts) (id : PeerId) (address : Multiaddress) : Prop :=
  ∃ cs, components address.bytes = .ok cs ∧ (∀ component ∈ cs, component.Full) ∧ Leads ip id cs

variable {ip : IpTexts} {id : PeerId} {self address : Multiaddress} {cs : List Component} {component : Component}
  {text value : Bytes} {result : PeerAddress}

theorem p2p_known : p2p ∈ ProtocolList.protocols := by decide

theorem p2p_valued : p2p.size ≠ 0 := by decide

theorem getByCode_p2p : ProtocolList.getByCode Code.p2p.number = some p2p := ProtocolList.getByCode_number p2p p2p_known

/-- The name of a protocol whose value can be written is not the text of a peer id; `dccp`, whose value cannot, is one. -/
theorem fromBase58_name (printable : component.Printable) (id : PeerId) :
    PeerId.fromBase58 (View.string 0 component.protocol.name) ≠ some (.ok id) := by
  have checked : ∀ protocol ∈ ProtocolList.protocols, protocol.code ≠ .dccp → ((PeerId.fromDecoded
      ((Base58.decodeBase58 protocol.name).elim (.error .invalidBase58Input) .ok)).toOption).isNone = true := by
    decide +kernel
  have written : component.protocol.code ≠ .dccp := by
    intro same
    have fits := printable.fits
    rw [same] at fits
    exact fits
  intro read
  rw [PeerId.fromBase58, Base58.decodeBase58View_string, Option.map_some, Option.some.injEq] at read
  have none := checked component.protocol printable.known written
  rw [read] at none
  cases none

theorem idComponent_printable : (idComponent id).Printable where
  known := p2p_known
  fits := (PeerId.toVector_length_le id).trans_lt (by decide)
  shown := rfl

theorem idComponent_full : (idComponent id).Full := fun _ empty =>
  List.cons_ne_nil _ _ (List.append_eq_nil_iff.mp (List.append_eq_nil_iff.mp empty).1).2

theorem idComponent_value : (idComponent id).value ip = id.toBase58 := rfl

theorem idComponent_words : (idComponent id).words ip = [p2p.name, id.toBase58] := rfl

theorem toString_eq (composed : Composed ip address cs) :
    toString ⟨id, address⟩ = (cs ++ [idComponent id]).flatMap (Component.text ip) := by
  unfold toString
  rw [composed.text, List.flatMap_append, List.flatMap_singleton, Component.text, idComponent_words, kP2PSubstr]
  simp

theorem create_eq_ok : create ip text = some (.ok result) ↔ ∃ multiaddress value,
    createFromString ip text = some (.ok multiaddress) ∧ multiaddress.getFirstValueForProtocol .p2p = .ok value ∧
      PeerId.fromBase58 (View.string 0 value) = some (.ok result.id) ∧
      (multiaddress.decapsulateProtocol ip .p2p value).1 = result.address := by
  unfold create
  constructor
  · intro created
    rcases made : createFromString ip text with _ | _ | multiaddress
    · rw [made] at created
      cases created
    · rw [made] at created
      cases created
    rw [made] at created
    dsimp only at created
    rcases first : multiaddress.getFirstValueForProtocol .p2p with error | value
    · rw [first] at created
      cases created
    rw [first] at created
    dsimp only at created
    rcases read : PeerId.fromBase58 (View.string 0 value) with _ | _ | id
    · rw [read] at created
      cases created
    · rw [read] at created
      cases created
    rw [read] at created
    obtain rfl := Except.ok.inj (Option.some.inj created)
    exact ⟨multiaddress, value, rfl, first, read, rfl⟩
  · rintro ⟨multiaddress, value, made, first, read, cut⟩
    rw [made]
    dsimp only
    rw [first]
    dsimp only
    rw [read]
    dsimp only
    rw [cut]

/-- The text of an address makes it again, and nothing else, when no value is empty. -/
theorem createFromString_composed (composed : Composed ip self cs) (present : cs ≠ []) :
    createFromString ip self.stringifiedAddress = some (.ok address) ↔
      (∀ component ∈ cs, component.Full) ∧ address = self := by
  rw [createFromString_eq_ok, composed.text, multiaddrToBytes_text composed.printable]
  constructor
  · rintro ⟨⟨-, full, same⟩, printed⟩
    rw [← composed.bytes] at same
    rw [same, composed.inStep] at printed
    exact ⟨full, congrArg₂ Multiaddress.mk (Except.ok.inj printed).symm same⟩
  · rintro ⟨full, rfl⟩
    exact ⟨⟨present, full, composed.bytes⟩, composed.inStep⟩

/-- The first value is the word behind the first `p2p`. -/
theorem firstValue (front rest : List Bytes) (composed : Composed ip self cs)
    (spelled : cs.flatMap (Component.words ip) = front ++ p2p.name :: value :: rest) (absent : p2p.name ∉ front) :
    self.getFirstValueForProtocol .p2p = .ok value := by
  unfold getFirstValueForProtocol
  rw [getValuesForProtocol_words getByCode_p2p composed.printable composed.text, spelled, following_append absent,
    following, if_pos rfl]
  rfl

theorem leads_of_none (found : (cs.find? fun component => p2p.name ∈ component.words ip) = none) : Leads ip id cs := by
  intro first member
  rw [found] at member
  cases member

theorem leads_of_some {first : Component}
    (found : (cs.find? fun component => p2p.name ∈ component.words ip) = some first) :
    Leads ip id cs ↔ first = idComponent id := by
  refine ⟨fun leads => leads first found, fun same other member => ?_⟩
  rw [found] at member
  exact (Option.some.inj member).symm.trans same

/-- It belongs to the component that leads, or it is the name behind a value that reads `p2p`. -/
theorem firstValue_cases (composed : Composed ip self (cs ++ [idComponent id])) :
    (∃ component ∈ cs ++ [idComponent id], component.protocol = p2p ∧
      self.getFirstValueForProtocol .p2p = .ok (component.value ip) ∧ (Leads ip id cs ↔ component = idComponent id)) ∨
    (∃ component ∈ cs ++ [idComponent id], self.getFirstValueForProtocol .p2p = .ok component.protocol.name ∧
      ¬ Leads ip id cs) := by
  rcases found : cs.find? fun component => p2p.name ∈ component.words ip with _ | first
  · have silent := List.find?_eq_none.mp found
    refine .inl ⟨idComponent id, by simp, rfl, ?_, iff_of_true (leads_of_none found) rfl⟩
    refine firstValue (cs.flatMap (Component.words ip)) [] composed ?_ ?_
    · rw [List.flatMap_append, List.flatMap_singleton, idComponent_words, idComponent_value]
    · intro member
      obtain ⟨component, listed, spoken⟩ := List.mem_flatMap.mp member
      exact silent component listed (decide_eq_true spoken)
  obtain ⟨spoken, before, after, rfl, silent⟩ := List.find?_eq_some_iff_append.mp found
  have absent : p2p.name ∉ before.flatMap (Component.words ip) := by
    intro member
    obtain ⟨component, listed, spoken⟩ := List.mem_flatMap.mp member
    simpa [spoken] using silent component listed
  have known := (composed.printable first (by simp)).known
  obtain ⟨next, more, tail⟩ := List.exists_cons_of_ne_nil
    (List.append_ne_nil_of_right_ne_nil after (List.cons_ne_nil (idComponent id) []))
  have listed : before ++ first :: after ++ [idComponent id] = before ++ first :: next :: more := by
    rw [List.append_assoc, List.cons_append, tail]
  rw [listed] at composed ⊢
  rw [leads_of_some found]
  replace spoken := of_decide_eq_true spoken
  by_cases named : first.protocol.name = p2p.name
  -- The name of the first component is followed by its own value.
  · have same := eq_of_name known p2p_known named
    have spelled : first.words ip = [p2p.name, first.value ip] := by
      unfold Component.words
      rw [same, if_neg p2p_valued]
    refine .inl ⟨first, by simp, same, firstValue _ ((next :: more).flatMap (Component.words ip)) composed ?_ absent,
      Iff.rfl⟩
    rw [List.flatMap_append, List.flatMap_cons, spelled]
    rfl
  -- Its value is followed by the name of the next one, which may be that of the id.
  · have valued : first.protocol.size ≠ 0 := by
      intro bare
      unfold Component.words at spoken
      rw [if_pos bare, List.mem_singleton] at spoken
      exact named spoken.symm
    have spelled : first.words ip = [first.protocol.name, p2p.name] := by
      unfold Component.words at spoken ⊢
      rw [if_neg valued] at spoken ⊢
      rcases List.mem_cons.mp spoken with same | member
      · exact absurd same.symm named
      · rw [List.mem_singleton.mp member]
    refine .inr ⟨next, by simp, firstValue (before.flatMap (Component.words ip) ++ [first.protocol.name])
      ((if next.protocol.size = 0 then [] else [next.value ip]) ++ more.flatMap (Component.words ip)) composed ?_ ?_,
      fun leads => named ?_⟩
    · rw [List.flatMap_append, List.flatMap_cons, List.flatMap_cons, spelled, Component.words]
      simp
    · simp [absent, Ne.symm named]
    · rw [leads]
      rfl

/-- The text of an address and an id is read as these exactly when no value of the address is empty and no other peer
leads. -/
theorem create_toString_iff (built : Built ip address)
    (own : PeerId.fromBase58 (View.string 0 id.toBase58) = some (.ok id)) :
    create ip (toString ⟨id, address⟩) = some (.ok ⟨id, address⟩) ↔ ReadsOwn ip id address := by
  obtain ⟨cs, present, composed⟩ := composed_of_built built
  have added : Composed ip (address.encapsulate ⟨(idComponent id).text ip, (idComponent id).encode⟩)
      (cs ++ [idComponent id]) :=
    composed.encapsulate ⟨List.forall_mem_singleton.mpr idComponent_printable, (List.flatMap_singleton _ _).symm,
      (List.flatMap_singleton _ _).symm⟩
  set whole := address.encapsulate ⟨(idComponent id).text ip, (idComponent id).encode⟩
  have text : toString ⟨id, address⟩ = whole.stringifiedAddress := (toString_eq composed).trans added.text.symm
  have remade (multiaddress : Multiaddress) : createFromString ip (toString ⟨id, address⟩) = some (.ok multiaddress) ↔
      (∀ component ∈ cs, component.Full) ∧ multiaddress = whole := by
    rw [text, createFromString_composed added (List.append_ne_nil_of_right_ne_nil _ (List.cons_ne_nil _ _)),
      List.forall_mem_append, and_iff_left (List.forall_mem_singleton.mpr idComponent_full)]
  have reads : ReadsOwn ip id address ↔ (∀ component ∈ cs, component.Full) ∧ Leads ip id cs := by
    constructor
    · rintro ⟨_, read, full, leads⟩
      obtain rfl := Except.ok.inj (composed.components.symm.trans read)
      exact ⟨full, leads⟩
    · exact fun ⟨full, leads⟩ => ⟨cs, composed.components, full, leads⟩
  have parted : address = ⟨cs.flatMap (Component.text ip), cs.flatMap Component.encode⟩ := by
    rw [← composed.text, ← composed.bytes]
  have cuts {component : Component} (listed : component ∈ cs ++ [idComponent id]) (same : component.protocol = p2p)
      (full : ∀ component ∈ cs, component.Full) :
      (whole.decapsulateProtocol ip .p2p (component.value ip)).1 = address ↔ component = idComponent id := by
    have printable := added.printable component listed
    have mine : component.Full :=
      List.forall_mem_append.mpr ⟨full, List.forall_mem_singleton.mpr idComponent_full⟩ component listed
    have searched := @decapsulateProtocol_component ip whole _ printable (by rw [same]; exact p2p_valued) mine
    rw [same] at searched
    rw [parted, ← added.decapsulate_last printable.toValid, ← searched]
    rfl
  rw [create_eq_ok, reads]
  constructor
  · rintro ⟨multiaddress, value, made, first, read, cut⟩
    obtain ⟨full, rfl⟩ := (remade multiaddress).mp made
    refine ⟨full, ?_⟩
    rcases firstValue_cases added with ⟨component, listed, same, value_, leads⟩ | ⟨component, listed, name, -⟩
    · obtain rfl := Except.ok.inj (first.symm.trans value_)
      exact leads.mpr ((cuts listed same full).mp cut)
    · obtain rfl := Except.ok.inj (first.symm.trans name)
      exact absurd read (fromBase58_name (added.printable component listed) id)
  · rintro ⟨full, leads⟩
    rcases firstValue_cases added with ⟨component, listed, same, first, leads_⟩ | ⟨_, -, -, silent⟩
    · obtain rfl := leads_.mp leads
      exact ⟨whole, _, (remade whole).mpr ⟨full, rfl⟩, first, own, (cuts listed same full).mpr rfl⟩
    · exact absurd leads silent

/-- A peer that relays, and one behind it. -/
def relayId : PeerId := ⟨⟨HashType.identity, [7], by decide⟩⟩

def targetId : PeerId := ⟨⟨HashType.identity, [8], by decide⟩⟩

def direct : Multiaddress := ⟨ascii "/ip4/127.0.0.1", [4, 127, 0, 0, 1]⟩

def relayed : Multiaddress :=
  ⟨ascii "/ip4/127.0.0.1/p2p/15Y/p2p-circuit", [4, 127, 0, 0, 1, 0xa5, 3, 3, 0, 1, 7, 0xa2, 2]⟩

theorem create_toString_direct : create plainTexts (toString ⟨relayId, direct⟩) = some (.ok ⟨relayId, direct⟩) :=
  (create_toString_iff ⟨ascii "/ip4/127.0.0.1", by decide, by decide⟩ (by decide)).mpr
    ⟨[⟨⟨.ip4, 32, ascii "ip4"⟩, [127, 0, 0, 1]⟩], by decide,
      List.forall_mem_singleton.mpr fun _ => List.cons_ne_nil _ _, leads_of_none (by decide)⟩

/-- The target is lost behind the relay, together with the relay's part of the address; behind a host of the name `p2p`
the id is not found. -/
theorem reads_other :
    (createFromString plainTexts (ascii "/ip4/127.0.0.1/p2p/15Y/p2p-circuit") = some (.ok relayed) ∧
      PeerId.fromBase58 (View.string 0 targetId.toBase58) = some (.ok targetId) ∧
      toString ⟨targetId, relayed⟩ = ascii "/ip4/127.0.0.1/p2p/15Y/p2p-circuit/p2p/15Z" ∧
      create plainTexts (toString ⟨targetId, relayed⟩) = some (.ok ⟨relayId, direct⟩) ∧
      (⟨relayId, direct⟩ : PeerAddress) ≠ ⟨targetId, relayed⟩) ∧
    createFromString plainTexts (ascii "/dns4/p2p") = some (.ok ⟨ascii "/dns4/p2p", [54, 3, 0x70, 0x32, 0x70]⟩) ∧
      create plainTexts (toString ⟨targetId, ⟨ascii "/dns4/p2p", [54, 3, 0x70, 0x32, 0x70]⟩⟩) =
        some (.error (.peerId (.peerId (.multihash .inconsistentLength)))) := by
  decide +kernel

end PeerAddress

end Libp2p
