import Libp2p.Multi.Protocols

/-! # Multiaddresses as text and as bytes

`multiaddrToBytes` reads a text word by word and `bytesToMultiaddrString` writes one, each with its own table of
protocols. The texts of IP addresses are those of Boost, which are not part of the source; what is used of them is stated
with the functions. Strings are the bytes they consist of.
-/

namespace Libp2p.Multi

open Protocol

namespace UVarint

/-- The loop of `calculateSize`: zero for a number that is too large or that does not end. -/
def calculateSizeLoop : Bytes → ℕ → ℕ → ℕ
  | [], _, _ => 0
  | byte :: rest, size, shift =>
    let slice := (byte &&& 0x7f).toNat
    if shift ≥ 64 ∨ ((slice <<< shift) % 2 ^ 64) >>> shift ≠ slice then 0
    else if byte &&& 0x80 = 0 then size + 1
    else calculateSizeLoop rest (size + 1) (shift + 7)

def calculateSize (varintBytes : Bytes) : ℕ := calculateSizeLoop varintBytes 0 0

def create (varintBytes : Bytes) : Option Bytes :=
  let size := calculateSize varintBytes
  if size > 0 then some (varintBytes.take size) else none

def toUInt64Loop : Bytes → ℕ → ℕ → ℕ
  | [], _, res => res
  | byte :: rest, index, res =>
    toUInt64Loop rest (index + 7) ((res + ((byte &&& 0x7f).toNat <<< index) % 2 ^ 64) % 2 ^ 64)

def toUInt64 (bytes : Bytes) : ℕ := toUInt64Loop bytes 0 0

end UVarint

/-- The texts of IP addresses. -/
structure IpTexts where
  makeAddressV4 : Bytes → Option Bytes
  toStringV4 : Bytes → Bytes
  makeAddressV6 : Bytes → Option Bytes
  toStringV6 : Bytes → Bytes
  length_v4 : ∀ text bytes, makeAddressV4 text = some bytes → bytes.length = 4
  length_v6 : ∀ text bytes, makeAddressV6 text = some bytes → bytes.length = 16
  inverse_v4 : ∀ bytes, bytes.length = 4 → makeAddressV4 (toStringV4 bytes) = some bytes
  inverse_v6 : ∀ bytes, bytes.length = 16 → makeAddressV6 (toStringV6 bytes) = some bytes
  plain_v4 : ∀ bytes, bytes.length = 4 → toStringV4 bytes ≠ [] ∧ ∀ byte ∈ toStringV4 bytes, byte ∈ ascii "0123456789."
  plain_v6 : ∀ bytes, bytes.length = 16 → toStringV6 bytes ≠ [] ∧
    ∀ byte ∈ toStringV6 bytes, byte ∈ ascii "0123456789abcdef:."

namespace Converters

inductive ConversionError where
  | addressDoesNotBeginWithSlash
  | emptyProtocol
  | noSuchProtocol
  | emptyAddress
  | invalidAddress
  | notImplemented
deriving DecidableEq, Repr

abbrev Result := Except ConversionError

section Percent

/-- The ASCII characters that are not written as they are. -/
def mask : List ℕ := [0xffffffff, 0xd000802d, 0x00000000, 0xa8000001]

def isEncoded (c : UInt8) : Bool := c > 0x7f || (mask.getD (c.toNat / 32) 0).testBit (c.toNat % 32)

/-- An upper case hexadecimal digit. -/
def hexDigit (digit : ℕ) : UInt8 := if digit < 10 then UInt8.ofNat (0x30 + digit) else UInt8.ofNat (0x41 + digit - 10)

def percentEncode (str : Bytes) : Bytes :=
  str.flatMap fun c => if isEncoded c then [0x25, hexDigit (c.toNat / 16), hexDigit (c.toNat % 16)] else [c]

def unhex (c : UInt8) : Option UInt8 :=
  if 0x30 ≤ c ∧ c ≤ 0x39 then some (c - 0x30)
  else if 0x41 ≤ c ∧ c ≤ 0x46 then some (c - 0x41 + 10)
  else if 0x61 ≤ c ∧ c ≤ 0x66 then some (c - 0x61 + 10)
  else none

def percentDecode : Bytes → Bytes
  | [] => []
  | [c] => [c]
  | [c, first] => [c, first]
  | c :: first :: second :: rest =>
    match if c = 0x25 then unhex first else none, unhex second with
    | some x1, some x2 => ((x1 <<< 4) ||| x2) :: percentDecode rest
    | _, _ => c :: percentDecode (first :: second :: rest)

end Percent

section Values

def isDigit (c : UInt8) : Bool := 0x30 ≤ c && c ≤ 0x39

/-- `stoi` of digits. -/
def stoi (addr : Bytes) : ℕ := addr.foldl (fun value c => 10 * value + (c.toNat - 0x30)) 0

def putUint16BE (value : ℕ) : Bytes := [UInt8.ofNat (value / 256), UInt8.ofNat (value % 256)]

/-- `TcpConverter` and `UdpConverter`; a number that `stoi` cannot hold is no port either. -/
def portToBytes (addr : Bytes) : Result Bytes :=
  if ¬ addr.all isDigit then .error .invalidAddress
  else if addr = [] then .error .invalidAddress
  else if stoi addr ≤ 65535 then .ok (putUint16BE (stoi addr))
  else .error .invalidAddress

/-- A value with its length in front. -/
def withLength (value : Bytes) : Bytes := encodeVarint value.length ++ value

/-- `IpfsConverter`; the multibase codec is given the prefix of base 58. -/
def ipfsToBytes (addr : Bytes) : Result Bytes :=
  if addr = [] then .error .invalidAddress
  else
    match Base58.decodeBase58 addr with
    | none => .error .invalidAddress
    | some decoded => .ok (withLength decoded)

/-- `DnsConverter`. -/
def dnsToBytes (addr : Bytes) : Result Bytes := .ok (withLength addr)

variable (ip : IpTexts)

def ip4ToBytes (addr : Bytes) : Result Bytes :=
  match ip.makeAddressV4 addr with
  | none => .error .invalidAddress
  | some bytes => .ok bytes

def ip6ToBytes (addr : Bytes) : Result Bytes :=
  match ip.makeAddressV6 addr with
  | none => .error .invalidAddress
  | some bytes => .ok bytes

def addressToBytes (protocol : Protocol) (addr : Bytes) : Result Bytes :=
  match protocol.code with
  | .ip4 => ip4ToBytes ip addr
  | .ip6 => ip6ToBytes ip addr
  | .tcp => portToBytes addr
  | .udp => portToBytes addr
  | .p2p => ipfsToBytes addr
  | .dns | .dns4 | .dns6 | .dnsAddr | .unix => dnsToBytes addr
  | .xParityWs | .xParityWss => dnsToBytes (percentDecode addr)
  | .ip6Zone | .onion3 | .garlic64 | .quic | .ws | .wss | .p2pWebsocketStar | .p2pStardust | .p2pWebrtcDirect
  | .p2pCircuit => .error .notImplemented
  | _ => .error .noSuchProtocol

end Values

section Text

variable (ip : IpTexts)

/-- The loop over the words of a text; `protx` is the protocol whose address comes next. -/
def wordsToBytes : List Bytes → Option Protocol → Bytes → Result Bytes
  | [], none, processed => .ok processed
  | [], some _, _ => .error .emptyAddress
  | word :: rest, none, processed =>
    if word = [] then .error .emptyProtocol
    else
      match ProtocolList.getByName word with
      | none => .error .noSuchProtocol
      | some protx =>
        wordsToBytes rest (if protx.size ≠ 0 then some protx else none)
          (processed ++ encodeVarint protx.code.number)
  | word :: rest, some protx, processed =>
    if word = [] then .error .emptyAddress
    else
      match addressToBytes ip protx word with
      | .error error => .error error
      | .ok bytes => wordsToBytes rest none (processed ++ bytes)

/-- The words of a text without its first slash; a slash at the end is dropped. -/
def wordsOf (str : Bytes) : List Bytes :=
  (if str.getLast? = some 0x2f then str.dropLast else str).splitOn 0x2f

def multiaddrToBytes (str : Bytes) : Result Bytes :=
  match str with
  | [] => .error .addressDoesNotBeginWithSlash
  | first :: rest =>
    if first ≠ 0x2f then .error .addressDoesNotBeginWithSlash
    else if rest = [] then .error .emptyProtocol
    else wordsToBytes ip (wordsOf rest) none []

end Text

section Bytes

def read (n : ℕ) (bytes : Bytes) : Result (Bytes × Bytes) :=
  if n > bytes.length then .error .invalidAddress else .ok (bytes.take n, bytes.drop n)

def uvar (bytes : Bytes) : Result (ℕ × Bytes) :=
  match UVarint.create bytes with
  | none => .error .invalidAddress
  | some var => .ok (UVarint.toUInt64 var, bytes.drop var.length)

def readUvar (bytes : Bytes) : Result (Bytes × Bytes) := do
  let (n, bytes) ← uvar bytes
  read n bytes

def isAlnum (c : UInt8) : Bool := isDigit c || (0x41 ≤ c && c ≤ 0x5a) || (0x61 ≤ c && c ≤ 0x7a)

def isDnsCharacter (c : UInt8) : Bool := isAlnum c || c = 0x2d || c = 0x2e

/-- `to_string` of a number with at most `room` digits. -/
def toDecimal : ℕ → ℕ → Bytes
  | 0, _ => []
  | room + 1, value =>
    if value < 10 then [UInt8.ofNat (0x30 + value)]
    else toDecimal room (value / 10) ++ [UInt8.ofNat (0x30 + value % 10)]

def loadBigU16 (bytes : Bytes) : ℕ := (bytes.getD 0 0).toNat * 256 + (bytes.getD 1 0).toNat

variable (ip : IpTexts)

/-- The value of a protocol is read and written. -/
def valueToString (code : Code) (bytes : Bytes) : Result (Bytes × Bytes) :=
  match code with
  | .p2p => do
    let (data, bytes) ← readUvar bytes
    return (Base58.encodeBase58 data, bytes)
  | .dns | .dns4 | .dns6 | .dnsAddr => do
    let (data, bytes) ← readUvar bytes
    if data.all isDnsCharacter then return (data, bytes) else .error .invalidAddress
  | .xParityWs | .xParityWss => do
    let (data, bytes) ← readUvar bytes
    return (percentEncode data, bytes)
  | .ip4 => do
    let (data, bytes) ← read 4 bytes
    return (ip.toStringV4 data, bytes)
  | .ip6 => do
    let (data, bytes) ← read 16 bytes
    return (ip.toStringV6 data, bytes)
  | .tcp | .udp => do
    let (data, bytes) ← read 2 bytes
    return (toDecimal 5 (loadBigU16 data), bytes)
  | _ => .error .notImplemented

/-- The loop of `bytesToMultiaddrString`, one protocol per unit of `room`. -/
def bytesToStringLoop : ℕ → Bytes → Bytes → Result Bytes
  | _, [], results => .ok results
  | 0, _ :: _, results => .ok results
  | room + 1, bytes, results => do
    let (protocolNum, bytes) ← uvar bytes
    match ProtocolList.getByCode protocolNum with
    | none => .error .noSuchProtocol
    | some protocol =>
      let results := results ++ 0x2f :: protocol.name
      if protocol.size = 0 then bytesToStringLoop room bytes results
      else
        let (value, bytes) ← valueToString ip protocol.code bytes
        bytesToStringLoop room bytes (results ++ 0x2f :: value)

def bytesToMultiaddrString (bytes : Bytes) : Result Bytes := bytesToStringLoop ip bytes.length bytes []

end Bytes

end Converters

end Libp2p.Multi
