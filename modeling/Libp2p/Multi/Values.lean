import Libp2p.Basic.PrefixReader
import Libp2p.Library.Bits
import Libp2p.Multi.Converters

/-! # Values of a multiaddress

A value stands in bytes as its payload, framed as its protocol demands, and in text as a word without slashes. The
lemmas say of every protocol at once that a framed payload is read back, and that the word of a payload is.
-/

namespace Libp2p.Multi

open Library Protocol

namespace UVarint

variable {bytes groups : Bytes} {size got res : ℕ}

/-- Shifting a group and back keeps it exactly when it stays below the width. -/
theorem shifted_back {slice shift : ℕ} : ((slice <<< shift) % 2 ^ 64) >>> shift = slice ↔ slice * 2 ^ shift < 2 ^ 64 := by
  rw [Nat.shiftLeft_eq, Nat.shiftRight_eq_div_pow]
  constructor
  · intro same
    have low : slice * 2 ^ shift ≤ slice * 2 ^ shift % 2 ^ 64 := by
      conv_lhs => rw [← same]
      exact Nat.div_mul_le_self _ _
    exact low.trans_lt (Nat.mod_lt _ (by decide))
  · intro small
    rw [Nat.mod_eq_of_lt small, Nat.mul_div_cancel _ (by positivity)]

theorem refused_iff (byte : UInt8) (size : ℕ) :
    (7 * size ≥ 64 ∨ (((byte &&& 0x7f).toNat <<< (7 * size)) % 2 ^ 64) >>> (7 * size) ≠ (byte &&& 0x7f).toNat) ↔
      ¬ (7 * size < 64 ∧ byte.toNat % 128 * 128 ^ size < 2 ^ 64) := by
  rw [Ne, shifted_back, UInt8.and_low_toNat, pow_mul, show (2 : ℕ) ^ 7 = 128 from rfl, not_and_or, not_lt,
    not_lt]

/-- The size of a prefix that fits. -/
theorem calculateSizeLoop_of_fits (found : Leb128.cut bytes = some groups) (fits : Leb128.Fits 64 size groups) :
    calculateSizeLoop bytes size (7 * size) = size + groups.length := by
  induction bytes generalizing groups size with
  | nil => cases found
  | cons byte rest ih =>
    unfold calculateSizeLoop
    dsimp only
    by_cases last : byte.toNat < 128
    · rw [Leb128.cut_last last] at found
      obtain rfl := Option.some.inj found
      rw [if_neg (mt (refused_iff byte size).mp (not_not.mpr (Leb128.fits_last.mp fits))),
        if_pos ((UInt8.and_high_eq_zero byte).mpr last)]
      rfl
    · rw [Leb128.cut_more (not_lt.mp last)] at found
      obtain ⟨first, earlier, rfl⟩ := Option.map_eq_some_iff.mp found
      have nonempty := (Leb128.cut_eq_some earlier).1
      have positive : 0 < first.length := List.length_pos_iff.mpr nonempty
      have tail := (Leb128.fits_more nonempty).mp fits
      have starts := tail.starts
      have slice : byte.toNat % 128 * 128 ^ size < 2 ^ 64 := by
        calc byte.toNat % 128 * 128 ^ size
            < 128 * 128 ^ size := Nat.mul_lt_mul_of_pos_right (Nat.mod_lt _ (by decide)) (by positivity)
          _ = 128 ^ (size + 1) := by rw [pow_succ, mul_comm]
          _ ≤ 128 ^ 9 := Nat.pow_le_pow_right (by decide) (by omega)
          _ < 2 ^ 64 := by decide
      rw [if_neg (mt (refused_iff byte size).mp (not_not.mpr ⟨by omega, slice⟩)),
        if_neg (mt (UInt8.and_high_eq_zero byte).mp last), show 7 * size + 7 = 7 * (size + 1) by omega,
        ih earlier tail, List.length_cons]
      omega

/-- Other bytes have no size. -/
theorem fits_of_calculateSizeLoop (sized : calculateSizeLoop bytes size (7 * size) ≠ 0) :
    ∃ groups, Leb128.cut bytes = some groups ∧ Leb128.Fits 64 size groups := by
  induction bytes generalizing size with
  | nil => exact absurd rfl sized
  | cons byte rest ih =>
    unfold calculateSizeLoop at sized
    dsimp only at sized
    split_ifs at sized with refused ended
    · exact absurd rfl sized
    · have last := (UInt8.and_high_eq_zero byte).mp ended
      rw [refused_iff, not_not] at refused
      exact ⟨[byte], Leb128.cut_last last, Leb128.fits_last.mpr refused⟩
    · have more : 128 ≤ byte.toNat := not_lt.mp (mt (UInt8.and_high_eq_zero byte).mpr ended)
      rw [show 7 * size + 7 = 7 * (size + 1) by omega] at sized
      obtain ⟨groups, found, fits⟩ := ih sized
      refine ⟨byte :: groups, ?_, (Leb128.fits_more (Leb128.cut_eq_some found).1).mpr fits⟩
      rw [Leb128.cut_more more, found]
      rfl

/-- `create` takes the prefixes that fit. -/
theorem create_eq_some : create bytes = some groups ↔ Leb128.cut bytes = some groups ∧ Leb128.Fits 64 0 groups := by
  have taken {other : Bytes} (found : Leb128.cut bytes = some other) (fits : Leb128.Fits 64 0 other) :
      create bytes = some other := by
    have size : calculateSize bytes = other.length :=
      (calculateSizeLoop_of_fits found fits).trans (Nat.zero_add _)
    obtain ⟨nonempty, rest, rfl⟩ := Leb128.cut_eq_some found
    unfold create
    rw [size, if_pos (List.length_pos_iff.mpr nonempty), List.take_left]
  constructor
  · intro created
    have sized : calculateSizeLoop bytes 0 (7 * 0) ≠ 0 := by
      intro zero
      have none : calculateSize bytes = 0 := zero
      unfold create at created
      rw [none] at created
      cases created
    obtain ⟨other, found, fits⟩ := fits_of_calculateSizeLoop sized
    obtain rfl := Option.some.inj ((taken found fits).symm.trans created)
    exact ⟨found, fits⟩
  · rintro ⟨found, fits⟩
    exact taken found fits

theorem toUInt64Loop_eq (small : res + Leb128.denote groups * 128 ^ got < 2 ^ 64) :
    toUInt64Loop groups (7 * got) res = res + Leb128.denote groups * 128 ^ got := by
  induction groups generalizing got res with
  | nil => rw [toUInt64Loop, Leb128.denote, Nat.zero_mul, Nat.add_zero]
  | cons byte rest ih =>
    have parts : Leb128.denote (byte :: rest) * 128 ^ got =
        byte.toNat % 128 * 128 ^ got + Leb128.denote rest * 128 ^ (got + 1) := by
      rw [Leb128.denote, pow_succ]
      ring
    rw [parts] at small ⊢
    rw [toUInt64Loop, UInt8.and_low_toNat, Nat.shiftLeft_eq, pow_mul, show (2 : ℕ) ^ 7 = 128 from rfl,
      Nat.mod_eq_of_lt (show byte.toNat % 128 * 128 ^ got < 2 ^ 64 by omega),
      Nat.mod_eq_of_lt (show res + byte.toNat % 128 * 128 ^ got < 2 ^ 64 by omega),
      show 7 * got + 7 = 7 * (got + 1) by omega, ih (by omega)]
    omega

theorem toUInt64_eq (fits : Leb128.Fits 64 0 groups) : toUInt64 groups = Leb128.denote groups := by
  have small := fits.value
  rw [pow_zero, mul_one] at small
  have looped := @toUInt64Loop_eq groups 0 0 (by rw [pow_zero, mul_one]; omega)
  rw [pow_zero, mul_one, Nat.zero_add] at looped
  exact looped

theorem create_encodeVarint {value : ℕ} (small : value < 2 ^ 64) (rest : Bytes) :
    create (encodeVarint value ++ rest) = some (encodeVarint value) ∧
      calculateSize (encodeVarint value ++ rest) = (encodeVarint value).length ∧ toUInt64 (encodeVarint value) = value := by
  obtain ⟨found, denoted, fits⟩ := VarintPrefixReader.encodeVarint_spec small rest
  refine ⟨create_eq_some.mpr ⟨found, fits⟩, ?_, (toUInt64_eq fits).trans denoted⟩
  exact (calculateSizeLoop_of_fits found fits).trans (Nat.zero_add _)

theorem toUInt64_lt (bytes : Bytes) : toUInt64 bytes < 2 ^ 64 := by
  have looped : ∀ (bytes : Bytes) (index res : ℕ), res < 2 ^ 64 → toUInt64Loop bytes index res < 2 ^ 64 := by
    intro bytes
    induction bytes with
    | nil => exact fun _ _ small => small
    | cons byte rest ih => exact fun _ _ _ => ih _ _ (Nat.mod_lt _ (by decide))
  exact looped bytes 0 0 (by decide)

end UVarint

namespace Converters

theorem bind_eq_ok {α β : Type} {first : Result α} {next : α → Result β} {result : β} :
    (first >>= next) = .ok result ↔ ∃ value, first = .ok value ∧ next value = .ok result := by
  rcases first with error | value
  · constructor
    · intro impossible
      cases impossible
    · rintro ⟨_, impossible, _⟩
      cases impossible
  · constructor
    · exact fun ended => ⟨value, rfl, ended⟩
    · rintro ⟨_, same, ended⟩
      obtain rfl := Except.ok.inj same
      exact ended

section Reading

theorem uvar_encodeVarint {value : ℕ} (fits : value < 2 ^ 64) (rest : Bytes) :
    uvar (encodeVarint value ++ rest) = .ok (value, rest) := by
  obtain ⟨created, -, number⟩ := UVarint.create_encodeVarint fits rest
  unfold uvar
  rw [created]
  dsimp only
  rw [number, List.drop_left]

theorem uvar_lt {bytes rest : Bytes} {value : ℕ} (taken : uvar bytes = .ok (value, rest)) :
    value < 2 ^ 64 ∧ rest.length < bytes.length := by
  unfold uvar UVarint.create at taken
  dsimp only at taken
  by_cases positive : UVarint.calculateSize bytes > 0
  · rw [if_pos positive] at taken
    obtain ⟨rfl, rfl⟩ := Prod.mk.inj (Except.ok.inj taken)
    have some_ : 0 < bytes.length := by
      rcases bytes with _ | ⟨byte, rest⟩
      · exact absurd positive (by decide)
      · exact Nat.succ_pos _
    refine ⟨UVarint.toUInt64_lt _, ?_⟩
    rw [List.length_drop, List.length_take]
    omega
  · rw [if_neg positive] at taken
    cases taken

theorem readUvar_withLength {payload : Bytes} (fits : payload.length < 2 ^ 64) (rest : Bytes) :
    readUvar (withLength payload ++ rest) = .ok (payload, rest) := by
  unfold readUvar withLength
  rw [List.append_assoc, uvar_encodeVarint fits]
  change read payload.length (payload ++ rest) = _
  unfold read
  rw [if_neg (by simp), List.take_left, List.drop_left]

theorem read_ok {n : ℕ} {bytes data rest : Bytes} (taken : read n bytes = .ok (data, rest)) :
    data.length = n ∧ rest.length ≤ bytes.length := by
  unfold read at taken
  split_ifs at taken with short
  obtain ⟨rfl, rfl⟩ := Prod.mk.inj (Except.ok.inj taken)
  refine ⟨?_, ?_⟩
  · rw [List.length_take]
    omega
  · rw [List.length_drop]
    omega

theorem readUvar_ok {bytes data rest : Bytes} (taken : readUvar bytes = .ok (data, rest)) :
    data.length < 2 ^ 64 ∧ rest.length ≤ bytes.length := by
  obtain ⟨⟨n, remaining⟩, first, second⟩ := bind_eq_ok.mp taken
  obtain ⟨small, shorter⟩ := uvar_lt first
  obtain ⟨size, left⟩ := read_ok second
  exact ⟨size ▸ small, left.trans shorter.le⟩

end Reading

section Percent

/-- A printable ASCII character other than a blank and a slash. -/
def isVisible (c : UInt8) : Bool := 0x21 ≤ c && c ≤ 0x7e && c ≠ 0x2f

/-- What is written as it is. -/
theorem isVisible_of_not_encoded {c : UInt8} (plain : ¬ isEncoded c) : isVisible c ∧ c ≠ 0x25 := by
  have table : ∀ code : Fin 256, isEncoded (UInt8.ofNat code.val) = true ∨
      isVisible (UInt8.ofNat code.val) = true ∧ UInt8.ofNat code.val ≠ 0x25 := by decide +kernel
  have row := table ⟨c.toNat, c.toNat_lt⟩
  rw [UInt8.ofNat_toNat] at row
  exact row.resolve_left plain

/-- A digit gives back what it stands for. -/
theorem unhex_hexDigit {digit : ℕ} (small : digit < 16) : unhex (hexDigit digit) = some (UInt8.ofNat digit) ∧
    isVisible (hexDigit digit) := by
  have table : ∀ index : Fin 16, unhex (hexDigit index.val) = some (UInt8.ofNat index.val) ∧
      isVisible (hexDigit index.val) = true := by decide
  exact table ⟨digit, small⟩

theorem plain_of_visible {c : UInt8} (visible : isVisible c) : c ≠ 0x2f ∧ c ≠ 0 := by
  constructor
  · rintro rfl
    cases visible
  · rintro rfl
    cases visible

theorem percentDecode_cons {c : UInt8} (plain : c ≠ 0x25) (rest : Bytes) :
    percentDecode (c :: rest) = c :: percentDecode rest := by
  match rest with
  | [] => rfl
  | [_] => rfl
  | first :: second :: rest => rw [percentDecode, if_neg plain]

theorem percentDecode_percentEncode (str : Bytes) : percentDecode (percentEncode str) = str := by
  induction str with
  | nil => rfl
  | cons c rest ih =>
    unfold percentEncode at ih ⊢
    rw [List.flatMap_cons]
    by_cases encoded : isEncoded c
    · have small := c.toNat_lt
      obtain ⟨first, -⟩ := @unhex_hexDigit (c.toNat / 16) (by omega)
      obtain ⟨second, -⟩ := @unhex_hexDigit (c.toNat % 16) (by omega)
      rw [if_pos encoded]
      simp only [List.cons_append, List.nil_append]
      rw [percentDecode, if_pos rfl, first, second]
      dsimp only
      rw [Library.nibbles, ih]
    · rw [if_neg encoded, List.singleton_append, percentDecode_cons (isVisible_of_not_encoded encoded).2, ih]

theorem mem_percentEncode {str : Bytes} {c : UInt8} (member : c ∈ percentEncode str) : isVisible c := by
  obtain ⟨source, -, written⟩ := List.mem_flatMap.mp member
  by_cases encoded : isEncoded source
  · rw [if_pos encoded] at written
    have small := source.toNat_lt
    rcases List.mem_cons.mp written with rfl | written
    · decide
    rcases List.mem_cons.mp written with rfl | written
    · exact (unhex_hexDigit (by omega)).2
    · rw [List.mem_singleton.mp written]
      exact (unhex_hexDigit (by omega)).2
  · rw [if_neg encoded] at written
    rw [List.mem_singleton.mp written]
    exact (isVisible_of_not_encoded encoded).1

theorem percentEncode_eq_nil {str : Bytes} : percentEncode str = [] ↔ str = [] := by
  constructor
  · intro empty
    have decoded := percentDecode_percentEncode str
    rw [empty] at decoded
    exact decoded.symm
  · rintro rfl
    rfl

theorem percentDecode_eq_nil {str : Bytes} : percentDecode str = [] ↔ str = [] := by
  constructor
  · intro empty
    match str with
    | [] => rfl
    | [_] | [_, _] => cases empty
    | c :: first :: second :: rest =>
      rw [percentDecode] at empty
      split at empty <;> cases empty
  · rintro rfl
    rfl

theorem length_percentDecode (str : Bytes) : (percentDecode str).length ≤ str.length := by
  fun_induction percentDecode str with
  | case1 => exact le_rfl
  | case2 => exact le_rfl
  | case3 => exact le_rfl
  | case4 c first second rest x1 x2 _ _ ih =>
    simp only [List.length_cons]
    omega
  | case5 c first second rest _ ih =>
    simp only [List.length_cons] at ih ⊢
    omega

end Percent

section Ports

theorem isDigit_ofNat : ∀ digit < 10, isDigit (UInt8.ofNat (0x30 + digit)) = true ∧
    (UInt8.ofNat (0x30 + digit)).toNat - 0x30 = digit := by decide

theorem stoi_concat (addr : Bytes) (c : UInt8) : stoi (addr ++ [c]) = 10 * stoi addr + (c.toNat - 0x30) := by
  simp [stoi]

theorem toDecimal_spec {room value : ℕ} (fits : value < 10 ^ room) (some_ : 0 < room) :
    stoi (toDecimal room value) = value ∧ (toDecimal room value).all isDigit = true ∧
      toDecimal room value ≠ [] := by
  induction room generalizing value with
  | zero => omega
  | succ room ih =>
    unfold toDecimal
    split_ifs with small
    · obtain ⟨digit, number⟩ := isDigit_ofNat value small
      refine ⟨?_, by simpa using digit, List.cons_ne_nil _ _⟩
      change 10 * 0 + _ = value
      omega
    · have fewer : value / 10 < 10 ^ room := by
        rw [Nat.div_lt_iff_lt_mul (by decide)]
        rwa [pow_succ] at fits
      have left : 0 < room := by
        rcases Nat.eq_zero_or_pos room with rfl | left
        · omega
        · exact left
      obtain ⟨value_, digits, -⟩ := ih fewer left
      obtain ⟨digit, number⟩ := isDigit_ofNat (value % 10) (Nat.mod_lt _ (by decide))
      refine ⟨?_, ?_, by simp⟩
      · rw [stoi_concat, value_, number]
        omega
      · rw [List.all_append, digits, Bool.true_and]
        simpa using digit

theorem isDigit_plain {c : UInt8} (digit : isDigit c = true) : c ≠ 0x2f ∧ c ≠ 0 := by
  constructor <;> rintro rfl <;> cases digit

theorem putUint16BE_loadBigU16 {bytes : Bytes} (size : bytes.length = 2) :
    putUint16BE (loadBigU16 bytes) = bytes ∧ loadBigU16 bytes < 65536 := by
  match bytes with
  | [high, low] =>
    have first := high.toNat_lt
    have second := low.toNat_lt
    change [UInt8.ofNat ((high.toNat * 256 + low.toNat) / 256), UInt8.ofNat ((high.toNat * 256 + low.toNat) % 256)] = _ ∧
      high.toNat * 256 + low.toNat < 65536
    rw [show (high.toNat * 256 + low.toNat) / 256 = high.toNat by omega,
      show (high.toNat * 256 + low.toNat) % 256 = low.toNat by omega, UInt8.ofNat_toNat, UInt8.ofNat_toNat]
    exact ⟨rfl, by omega⟩

end Ports

/-- How the value of a protocol stands in bytes. -/
inductive Shape where
  | absent
  | fixed (width : ℕ)
  | counted
  | unsupported
deriving DecidableEq, Repr

/-- Protocols of other sizes are known by name, but no value of theirs is read or written. -/
def shape : Code → Shape
  | .ip4 => .fixed 4
  | .ip6 => .fixed 16
  | .tcp | .udp => .fixed 2
  | .dns | .dns4 | .dns6 | .dnsAddr | .unix | .p2p | .xParityWs | .xParityWss => .counted
  | .dccp | .ip6Zone | .sctp | .onion | .onion3 | .garlic64 | .dummyProto3 | .dummyProto4 => .unsupported
  | _ => .absent

theorem shape_eq_absent : ∀ protocol ∈ ProtocolList.protocols, shape protocol.code = .absent ↔ protocol.size = 0 := by
  decide

/-- The payload of a value of a given shape. -/
def Fits : Shape → Bytes → Prop
  | .absent, payload => payload = []
  | .fixed width, payload => payload.length = width
  | .counted, payload => payload.length < 2 ^ 64
  | .unsupported, _ => False

def frame : Shape → Bytes → Bytes
  | .fixed _, payload => payload
  | .counted, payload => withLength payload
  | _, _ => []

/-- The payload in front of some bytes. -/
def readPayload : Shape → Bytes → Result (Bytes × Bytes)
  | .absent, bytes => .ok ([], bytes)
  | .fixed width, bytes => read width bytes
  | .counted, bytes => readUvar bytes
  | .unsupported, _ => .error .notImplemented

section Payloads

variable {shape_ : Shape} {payload bytes rest : Bytes}

theorem readPayload_frame (fits : Fits shape_ payload) (rest : Bytes) :
    readPayload shape_ (frame shape_ payload ++ rest) = .ok (payload, rest) := by
  cases shape_ with
  | absent =>
    obtain rfl : payload = [] := fits
    rfl
  | fixed width =>
    obtain rfl : payload.length = width := fits
    change read payload.length (payload ++ rest) = _
    unfold read
    rw [if_neg (by simp), List.take_left, List.drop_left]
  | counted => exact readUvar_withLength fits rest
  | unsupported => exact absurd fits id

theorem readPayload_ok (taken : readPayload shape_ bytes = .ok (payload, rest)) :
    Fits shape_ payload ∧ rest.length ≤ bytes.length := by
  cases shape_ with
  | absent =>
    obtain ⟨rfl, rfl⟩ := Prod.mk.inj (Except.ok.inj taken)
    exact ⟨rfl, le_rfl⟩
  | fixed width => exact read_ok taken
  | counted => exact readUvar_ok taken
  | unsupported => cases taken

end Payloads

section Words

variable (ip : IpTexts)

/-- The payload that the word of a value stands for. -/
def payloadOf (code : Code) (word : Bytes) : Option Bytes :=
  match code with
  | .ip4 => ip.makeAddressV4 word
  | .ip6 => ip.makeAddressV6 word
  | .tcp | .udp =>
    if word.all isDigit ∧ word ≠ [] ∧ stoi word ≤ 65535 then some (putUint16BE (stoi word)) else none
  | .p2p => Base58.decodeBase58 word
  | .dns | .dns4 | .dns6 | .dnsAddr | .unix => some word
  | .xParityWs | .xParityWss => some (percentDecode word)
  | _ => none

/-- The word of a value. -/
def valueText (code : Code) (payload : Bytes) : Bytes :=
  match code with
  | .ip4 => ip.toStringV4 payload
  | .ip6 => ip.toStringV6 payload
  | .tcp | .udp => toDecimal 5 (loadBigU16 payload)
  | .p2p => Base58.encodeBase58 payload
  | .dns | .dns4 | .dns6 | .dnsAddr => payload
  | .xParityWs | .xParityWss => percentEncode payload
  | _ => []

/-- The payloads that are written as text: every one of most protocols, and none of `unix`. -/
def printable (code : Code) (payload : Bytes) : Bool :=
  match code with
  | .dns | .dns4 | .dns6 | .dnsAddr => payload.all isDnsCharacter
  | .unix => false
  | _ => true

theorem addressToBytes_eq_ok {protocol : Protocol} {word bytes : Bytes} (some_ : word ≠ []) :
    addressToBytes ip protocol word = .ok bytes ↔
      ∃ payload, payloadOf ip protocol.code word = some payload ∧ bytes = frame (shape protocol.code) payload := by
  have port : portToBytes word = .ok bytes ↔ ∃ payload,
      (if word.all isDigit ∧ word ≠ [] ∧ stoi word ≤ 65535 then some (putUint16BE (stoi word)) else none) =
        some payload ∧ bytes = payload := by
    unfold portToBytes
    by_cases digits : word.all isDigit
    · by_cases small : stoi word ≤ 65535
      · simp [digits, small, some_, eq_comm]
      · simp [digits, small, some_]
    · simp [digits]
  have plain (value : Bytes) : dnsToBytes value = .ok bytes ↔ ∃ payload, some value = some payload ∧
      bytes = withLength payload := by simp [dnsToBytes, eq_comm]
  unfold addressToBytes payloadOf
  cases code : protocol.code with
  | ip4 =>
    change ip4ToBytes ip word = _ ↔ ∃ payload, ip.makeAddressV4 word = _ ∧ bytes = payload
    unfold ip4ToBytes
    cases ip.makeAddressV4 word <;> simp [eq_comm]
  | ip6 =>
    change ip6ToBytes ip word = _ ↔ ∃ payload, ip.makeAddressV6 word = _ ∧ bytes = payload
    unfold ip6ToBytes
    cases ip.makeAddressV6 word <;> simp [eq_comm]
  | tcp => exact port
  | udp => exact port
  | p2p =>
    change ipfsToBytes word = _ ↔ ∃ payload, Base58.decodeBase58 word = _ ∧ bytes = withLength payload
    unfold ipfsToBytes
    rw [if_neg some_]
    cases Base58.decodeBase58 word <;> simp [eq_comm]
  | dns => exact plain word
  | dns4 => exact plain word
  | dns6 => exact plain word
  | dnsAddr => exact plain word
  | unix => exact plain word
  | xParityWs => exact plain _
  | xParityWss => exact plain _
  | _ => simp

theorem map_payload_eq_ok (taken : Result (Bytes × Bytes)) (text : Bytes → Bytes) {value rest : Bytes} :
    (do let (data, bytes) ← taken; return (text data, bytes)) = .ok (value, rest) ↔
      ∃ payload, taken = .ok (payload, rest) ∧ true = true ∧ value = text payload := by
  rw [bind_eq_ok]
  constructor
  · rintro ⟨⟨payload, left⟩, read, ended⟩
    obtain ⟨rfl, rfl⟩ := Prod.mk.inj (Except.ok.inj ended)
    exact ⟨payload, read, rfl, rfl⟩
  · rintro ⟨payload, read, -, rfl⟩
    exact ⟨(payload, rest), read, rfl⟩

theorem dnsName_eq_ok {bytes value rest : Bytes} :
    (do
      let (data, bytes) ← readUvar bytes
      if data.all isDnsCharacter then return (data, bytes) else .error .invalidAddress : Result (Bytes × Bytes)) =
      .ok (value, rest) ↔
      ∃ payload, readUvar bytes = .ok (payload, rest) ∧ payload.all isDnsCharacter = true ∧ value = payload := by
  rw [bind_eq_ok]
  constructor
  · rintro ⟨⟨payload, left⟩, read, ended⟩
    dsimp only at ended
    split_ifs at ended with allowed
    obtain ⟨rfl, rfl⟩ := Prod.mk.inj (Except.ok.inj ended)
    exact ⟨payload, read, allowed, rfl⟩
  · rintro ⟨payload, read, allowed, rfl⟩
    refine ⟨(value, rest), read, ?_⟩
    dsimp only
    rw [if_pos allowed]
    rfl

/-- A value that is read as text is a payload that can be written. -/
theorem valueToString_eq_ok {code : Code} {bytes value rest : Bytes} (valued : shape code ≠ .absent) :
    valueToString ip code bytes = .ok (value, rest) ↔
      ∃ payload, readPayload (shape code) bytes = .ok (payload, rest) ∧ printable code payload = true ∧
        value = valueText ip code payload := by
  cases code with
  | ip4 => exact map_payload_eq_ok (read 4 bytes) ip.toStringV4
  | ip6 => exact map_payload_eq_ok (read 16 bytes) ip.toStringV6
  | tcp => exact map_payload_eq_ok (read 2 bytes) fun data => toDecimal 5 (loadBigU16 data)
  | udp => exact map_payload_eq_ok (read 2 bytes) fun data => toDecimal 5 (loadBigU16 data)
  | p2p => exact map_payload_eq_ok (readUvar bytes) Base58.encodeBase58
  | dns => exact dnsName_eq_ok
  | dns4 => exact dnsName_eq_ok
  | dns6 => exact dnsName_eq_ok
  | dnsAddr => exact dnsName_eq_ok
  | xParityWs => exact map_payload_eq_ok (readUvar bytes) percentEncode
  | xParityWss => exact map_payload_eq_ok (readUvar bytes) percentEncode
  | unix => simp [valueToString, printable]
  | _ => first | exact absurd rfl valued | simp [valueToString, readPayload, shape]

variable {ip} {code : Code} {payload word : Bytes}

theorem payload_port (size : payload.length = 2) : payloadOf ip .tcp (toDecimal 5 (loadBigU16 payload)) = some payload := by
  obtain ⟨back, small⟩ := putUint16BE_loadBigU16 size
  obtain ⟨number, digits, some_⟩ := @toDecimal_spec 5 (loadBigU16 payload) (by omega) (by decide)
  unfold payloadOf
  dsimp only
  rw [number, if_pos ⟨digits, some_, by omega⟩, back]

/-- The word of a payload stands for it. -/
theorem payloadOf_valueText (fits : Fits (shape code) payload) (shown : printable code payload = true)
    (valued : shape code ≠ .absent) : payloadOf ip code (valueText ip code payload) = some payload := by
  cases code with
  | ip4 => exact ip.inverse_v4 payload fits
  | ip6 => exact ip.inverse_v6 payload fits
  | tcp => exact payload_port fits
  | udp => exact @payload_port ip payload fits
  | p2p => exact Base58.decode_encode payload
  | dns => rfl
  | dns4 => rfl
  | dns6 => rfl
  | dnsAddr => rfl
  | xParityWs => exact congrArg some (percentDecode_percentEncode payload)
  | xParityWss => exact congrArg some (percentDecode_percentEncode payload)
  | unix => cases shown
  | _ => first | exact absurd rfl valued | exact absurd fits id

/-- A word of at most so many bytes stands for a payload that can be framed. -/
theorem payloadOf_fits (small : word.length < 2 ^ 64) (read : payloadOf ip code word = some payload) :
    Fits (shape code) payload ∧ shape code ≠ .absent := by
  have port (word : Bytes) (read : payloadOf ip .tcp word = some payload) : payload.length = 2 := by
    unfold payloadOf at read
    dsimp only at read
    split_ifs at read
    obtain rfl := Option.some.inj read
    rfl
  cases code with
  | ip4 => exact ⟨ip.length_v4 word payload read, by decide⟩
  | ip6 => exact ⟨ip.length_v6 word payload read, by decide⟩
  | tcp => exact ⟨port word read, by decide⟩
  | udp => exact ⟨port word read, by decide⟩
  | p2p => exact ⟨(Base58.length_decodeBase58 read).trans_lt small, by decide⟩
  | dns => exact ⟨Option.some.inj read ▸ small, by decide⟩
  | dns4 => exact ⟨Option.some.inj read ▸ small, by decide⟩
  | dns6 => exact ⟨Option.some.inj read ▸ small, by decide⟩
  | dnsAddr => exact ⟨Option.some.inj read ▸ small, by decide⟩
  | unix => exact ⟨Option.some.inj read ▸ small, by decide⟩
  | xParityWs => exact ⟨Option.some.inj read ▸ (length_percentDecode word).trans_lt small, by decide⟩
  | xParityWss => exact ⟨Option.some.inj read ▸ (length_percentDecode word).trans_lt small, by decide⟩
  | _ => cases read

theorem isDnsCharacter_plain {c : UInt8} (allowed : isDnsCharacter c = true) : c ≠ 0x2f ∧ c ≠ 0 := by
  constructor <;> rintro rfl <;> cases allowed

theorem plain_of_absent {alphabet : Bytes} {c : UInt8} (absent : 0x2f ∉ alphabet ∧ 0 ∉ alphabet) (member : c ∈ alphabet) :
    c ≠ 0x2f ∧ c ≠ 0 :=
  ⟨fun slash => absent.1 (slash ▸ member), fun zero => absent.2 (zero ▸ member)⟩

/-- A word has no slash and no zero byte. -/
theorem valueText_plain (fits : Fits (shape code) payload) (shown : printable code payload = true) :
    ∀ c ∈ valueText ip code payload, c ≠ 0x2f ∧ c ≠ 0 := by
  have port (size : payload.length = 2) : ∀ c ∈ toDecimal 5 (loadBigU16 payload), c ≠ 0x2f ∧ c ≠ 0 := by
    obtain ⟨-, small⟩ := putUint16BE_loadBigU16 size
    obtain ⟨-, digits, -⟩ := @toDecimal_spec 5 (loadBigU16 payload) (by omega) (by decide)
    exact fun c member => isDigit_plain (List.all_eq_true.mp digits c member)
  have named (allowed : payload.all isDnsCharacter = true) : ∀ c ∈ payload, c ≠ 0x2f ∧ c ≠ 0 :=
    fun c member => isDnsCharacter_plain (List.all_eq_true.mp allowed c member)
  cases code with
  | ip4 =>
    have allowed : 0x2f ∉ ascii "0123456789." ∧ 0 ∉ ascii "0123456789." := by decide
    exact fun c member => plain_of_absent allowed ((ip.plain_v4 payload fits).2 c member)
  | ip6 =>
    have allowed : 0x2f ∉ ascii "0123456789abcdef:." ∧ 0 ∉ ascii "0123456789abcdef:." := by decide
    exact fun c member => plain_of_absent allowed ((ip.plain_v6 payload fits).2 c member)
  | tcp => exact port fits
  | udp => exact port fits
  | p2p => exact fun c member => ⟨(Base58.encoded_plain member).2.2, (Base58.encoded_plain member).1⟩
  | dns => exact named shown
  | dns4 => exact named shown
  | dns6 => exact named shown
  | dnsAddr => exact named shown
  | xParityWs => exact fun c member => plain_of_visible (mem_percentEncode member)
  | xParityWss => exact fun c member => plain_of_visible (mem_percentEncode member)
  | _ => exact fun c member => absurd member List.not_mem_nil

/-- Only values with a length in front can be empty, and only when there is nothing to write. -/
theorem valueText_eq_nil (fits : Fits (shape code) payload) (shown : printable code payload = true)
    (valued : shape code ≠ .absent) : valueText ip code payload = [] ↔ payload = [] := by
  have port (size : payload.length = 2) : toDecimal 5 (loadBigU16 payload) = [] ↔ payload = [] := by
    obtain ⟨-, small⟩ := putUint16BE_loadBigU16 size
    obtain ⟨-, -, some_⟩ := @toDecimal_spec 5 (loadBigU16 payload) (by omega) (by decide)
    exact iff_of_false some_ fun empty => by rw [empty] at size; cases size
  cases code with
  | ip4 => exact iff_of_false (ip.plain_v4 payload fits).1 fun empty => by rw [empty] at fits; cases fits
  | ip6 => exact iff_of_false (ip.plain_v6 payload fits).1 fun empty => by rw [empty] at fits; cases fits
  | tcp => exact port fits
  | udp => exact port fits
  | p2p => exact Base58.encodeBase58_eq_nil
  | dns => exact Iff.rfl
  | dns4 => exact Iff.rfl
  | dns6 => exact Iff.rfl
  | dnsAddr => exact Iff.rfl
  | xParityWs => exact percentEncode_eq_nil
  | xParityWss => exact percentEncode_eq_nil
  | unix => cases shown
  | _ => first | exact absurd rfl valued | exact absurd fits id

end Words

end Converters

end Libp2p.Multi
