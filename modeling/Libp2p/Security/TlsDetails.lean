import Libp2p.Basic.Varint

/-! # The identity extension of certificates

The extension is a sequence of two octet strings, the marshalled key and the signature, each with a tag and its length in
one byte in front. Every element and every part of the input is taken with a proof that it is inside. The sequence is cut
off the input like the strings are, but what is left behind it is not looked at.
-/

namespace Libp2p.Security.TlsDetails

def kSequenceTag : UInt8 := 0x30

def kOctetStringTag : UInt8 := 0x04

def kAsnHeaderSize : ℕ := 2

structure KeyAndSignature where
  pkey : Bytes
  signature : Bytes
deriving DecidableEq, Repr

/-- The lengths are converted to bytes. -/
def marshalExtensionData (pubKeyBytes signature : Bytes) : Bytes :=
  [kSequenceTag, UInt8.ofNat (kAsnHeaderSize + pubKeyBytes.length + kAsnHeaderSize + signature.length),
    kOctetStringTag, UInt8.ofNat pubKeyBytes.length] ++ pubKeyBytes ++
    [kOctetStringTag, UInt8.ofNat signature.length] ++ signature

/-- `count` bytes from `offset` on, which are inside. -/
def subspan (input : Bytes) (offset count : ℕ) (_ : offset + count ≤ input.length) : Bytes :=
  (input.drop offset).take count

/-- What is read, and what the cursor is set to. -/
def read (input : Bytes) (tag : UInt8) : Option (Bytes × Bytes) :=
  if header : input.length < kAsnHeaderSize then none
  else
    have second : 1 < input.length := not_lt.mp header
    if input[0] ≠ tag then none
    else if long : input.length < kAsnHeaderSize + input[1].toNat then none
    else
      have inside : kAsnHeaderSize + input[1].toNat ≤ input.length := not_lt.mp long
      some (subspan input kAsnHeaderSize input[1].toNat inside,
        subspan input (kAsnHeaderSize + input[1].toNat) (input.length - (kAsnHeaderSize + input[1].toNat))
          (Nat.add_sub_cancel' inside).le)

def unmarshalExtensionData (data : Bytes) : Option KeyAndSignature :=
  match read data kSequenceTag with
  | none => none
  | some (data, _) =>
    match read data kOctetStringTag with
    | none => none
    | some (publicKey, data) =>
      match read data kOctetStringTag with
      | none => none
      | some (signature, data) => if data ≠ [] then none else some ⟨publicKey, signature⟩

variable {input content rest d key signature : Bytes} {tag : UInt8} {fields : KeyAndSignature}

theorem length_ofNat {content : Bytes} (small : content.length < 256) : (UInt8.ofNat content.length).toNat = content.length := by
  rw [UInt8.toNat_ofNat']
  omega

theorem read_cons (first size : UInt8) (tail : Bytes) : read (first :: size :: tail) tag =
    if first = tag ∧ size.toNat ≤ tail.length then some (tail.take size.toNat, tail.drop size.toNat) else none := by
  have header : ¬ (first :: size :: tail).length < kAsnHeaderSize := by
    simp only [List.length_cons, kAsnHeaderSize]
    omega
  have long : (first :: size :: tail).length < kAsnHeaderSize + size.toNat ↔ tail.length < size.toNat := by
    simp only [List.length_cons, kAsnHeaderSize]
    omega
  unfold read
  rw [dif_neg header]
  dsimp only [List.getElem_cons_zero, List.getElem_cons_succ]
  by_cases other : first = tag
  · rw [if_neg (not_not.mpr other)]
    by_cases inside : size.toNat ≤ tail.length
    · rw [dif_neg (mt long.mp (not_lt.mpr inside)), if_pos ⟨other, inside⟩]
      have left : (first :: size :: tail).length - (kAsnHeaderSize + size.toNat) = (tail.drop size.toNat).length := by
        rw [List.length_drop]
        simp only [List.length_cons, kAsnHeaderSize]
        omega
      have dropped : (first :: size :: tail).drop (kAsnHeaderSize + size.toNat) = tail.drop size.toNat := by
        rw [kAsnHeaderSize, Nat.add_comm]
        rfl
      rw [subspan, subspan, dropped, left, List.take_length]
      rfl
    · rw [dif_pos (long.mpr (not_le.mp inside)), if_neg (fun both => inside both.2)]
  · rw [if_pos other, if_neg (fun both => other both.1)]

/-- What is read is a tag, a length and as many bytes, whatever stands behind them. -/
theorem read_eq_some : read input tag = some (content, rest) ↔
    content.length < 256 ∧ input = tag :: UInt8.ofNat content.length :: (content ++ rest) := by
  constructor
  · intro taken
    rcases input with _ | ⟨first, _ | ⟨size, tail⟩⟩
    · cases taken
    · cases taken
    rw [read_cons] at taken
    split_ifs at taken with inside
    obtain ⟨rfl, rfl⟩ := Prod.mk.inj (Option.some.inj taken)
    have length : (tail.take size.toNat).length = size.toNat := List.length_take_of_le inside.2
    rw [length, inside.1, List.take_append_drop, UInt8.ofNat_toNat]
    exact ⟨size.toNat_lt, rfl⟩
  · rintro ⟨small, rfl⟩
    rw [read_cons, length_ofNat small, List.take_left, List.drop_left, if_pos]
    exact ⟨rfl, by rw [List.length_append]; omega⟩

theorem marshalExtensionData_eq (key signature : Bytes) : marshalExtensionData key signature =
    kSequenceTag :: UInt8.ofNat (4 + key.length + signature.length) ::
      (kOctetStringTag :: UInt8.ofNat key.length ::
        (key ++ kOctetStringTag :: UInt8.ofNat signature.length :: signature)) := by
  unfold marshalExtensionData
  rw [show kAsnHeaderSize + key.length + kAsnHeaderSize + signature.length = 4 + key.length + signature.length by
    rw [kAsnHeaderSize]; omega]
  simp only [List.append_assoc, List.cons_append, List.nil_append]

/-- What is accepted is the encoding of the fields and anything behind it. -/
theorem unmarshal_eq_some : unmarshalExtensionData d = some fields ↔
    4 + fields.pkey.length + fields.signature.length < 256 ∧
      ∃ rest, d = marshalExtensionData fields.pkey fields.signature ++ rest := by
  obtain ⟨key, signature⟩ := fields
  dsimp only
  set content := kOctetStringTag :: UInt8.ofNat key.length ::
    (key ++ kOctetStringTag :: UInt8.ofNat signature.length :: signature) with spelled
  have size : content.length = 4 + key.length + signature.length := by
    simp only [spelled, List.length_cons, List.length_append]
    omega
  have marshalled : marshalExtensionData key signature = kSequenceTag :: UInt8.ofNat content.length :: content := by
    rw [marshalExtensionData_eq, size]
  constructor
  · intro accepted
    unfold unmarshalExtensionData at accepted
    rcases outer : read d kSequenceTag with _ | ⟨sequence, rest⟩
    · rw [outer] at accepted
      cases accepted
    rw [outer] at accepted
    dsimp only at accepted
    rcases first : read sequence kOctetStringTag with _ | ⟨publicKey, left⟩
    · rw [first] at accepted
      cases accepted
    rw [first] at accepted
    dsimp only at accepted
    rcases second : read left kOctetStringTag with _ | ⟨signed, beyond⟩
    · rw [second] at accepted
      cases accepted
    rw [second] at accepted
    dsimp only at accepted
    split_ifs at accepted with empty
    obtain rfl := not_not.mp empty
    cases accepted
    obtain ⟨-, rfl⟩ := read_eq_some.mp second
    obtain ⟨-, rfl⟩ := read_eq_some.mp first
    obtain ⟨small, rfl⟩ := read_eq_some.mp outer
    rw [List.append_nil] at small ⊢
    rw [← spelled] at small ⊢
    rw [marshalled, ← size]
    exact ⟨small, rest, rfl⟩
  · rintro ⟨small, rest, rfl⟩
    have outer : read (kSequenceTag :: UInt8.ofNat content.length :: (content ++ rest)) kSequenceTag =
        some (content, rest) := read_eq_some.mpr ⟨by omega, rfl⟩
    have first : read content kOctetStringTag =
        some (key, kOctetStringTag :: UInt8.ofNat signature.length :: signature) := read_eq_some.mpr ⟨by omega, rfl⟩
    have second : read (kOctetStringTag :: UInt8.ofNat signature.length :: signature) kOctetStringTag =
        some (signature, []) := read_eq_some.mpr ⟨by omega, by rw [List.append_nil]⟩
    unfold unmarshalExtensionData
    rw [marshalled, List.cons_append, List.cons_append, outer]
    dsimp only
    rw [first]
    dsimp only
    rw [second]
    rfl

/-- Nothing stands behind the sequence. -/
def EndsWithSequence (d : Bytes) : Prop := d.length = kAsnHeaderSize + (d.getD 1 0).toNat

/-- The fields of an extension are read back, and the bytes they were read from are their encoding exactly when they end
with the sequence. -/
theorem marshal_eq_iff (d : Bytes) :
    (∀ key signature, 4 + key.length + signature.length ≤ 255 →
      unmarshalExtensionData (marshalExtensionData key signature) = some ⟨key, signature⟩) ∧
    ∀ fields, unmarshalExtensionData d = some fields →
      (marshalExtensionData fields.pkey fields.signature = d ↔ EndsWithSequence d) := by
  refine ⟨fun key signature small => ?_, fun fields accepted => ?_⟩
  · exact unmarshal_eq_some.mpr ⟨Nat.lt_succ_of_le small, [], (List.append_nil _).symm⟩
  · obtain ⟨small, rest, rfl⟩ := unmarshal_eq_some.mp accepted
    have number : (UInt8.ofNat (4 + fields.pkey.length + fields.signature.length)).toNat =
        4 + fields.pkey.length + fields.signature.length := by
      rw [UInt8.toNat_ofNat']
      omega
    have ends : EndsWithSequence (marshalExtensionData fields.pkey fields.signature ++ rest) ↔ rest = [] := by
      rw [EndsWithSequence, marshalExtensionData_eq, ← List.length_eq_zero_iff]
      simp only [List.cons_append, List.getD_cons_succ, List.getD_cons_zero, number, List.length_cons,
        List.length_append, kAsnHeaderSize]
      omega
    rw [ends, List.self_eq_append_right]

theorem marshal_eq_short : marshalExtensionData [1] [2, 3] = [0x30, 7, 4, 1, 1, 4, 2, 2, 3] :=
  ((marshal_eq_iff [0x30, 7, 4, 1, 1, 4, 2, 2, 3]).2 ⟨[1], [2, 3]⟩ (by decide)).mpr (by unfold EndsWithSequence; decide)

/-- A byte behind the sequence is accepted. -/
theorem unmarshal_trailing :
    unmarshalExtensionData [0x30, 7, 4, 1, 1, 4, 2, 2, 3, 0xff] = some ⟨[1], [2, 3]⟩ ∧
    marshalExtensionData [1] [2, 3] = [0x30, 7, 4, 1, 1, 4, 2, 2, 3] := by
  decide

end Libp2p.Security.TlsDetails
