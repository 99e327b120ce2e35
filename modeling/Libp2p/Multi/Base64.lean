import Libp2p.Library.Bits
import Libp2p.Multi.Base32

/-! # Base64

Three bytes are written as four characters of six bits each, and a shorter group at the end is filled up with `=`. The
decoder collects four characters at a time until the text ends or the first `=` comes.
-/

namespace Libp2p.Multi.Base64

open Library

def base64Alphabet : Bytes := ascii "ABCDEFGHIJKLMNOPQRSTUVWXYZabcdefghijklmnopqrstuvwxyz0123456789+/"

def inverseTable : List ℤ :=
  [-1, -1, -1, -1, -1, -1, -1, -1, -1, -1, -1, -1, -1, -1, -1, -1,
   -1, -1, -1, -1, -1, -1, -1, -1, -1, -1, -1, -1, -1, -1, -1, -1,
   -1, -1, -1, -1, -1, -1, -1, -1, -1, -1, -1, 62, -1, -1, -1, 63,
   52, 53, 54, 55, 56, 57, 58, 59, 60, 61, -1, -1, -1, -1, -1, -1,
   -1, 0, 1, 2, 3, 4, 5, 6, 7, 8, 9, 10, 11, 12, 13, 14,
   15, 16, 17, 18, 19, 20, 21, 22, 23, 24, 25, -1, -1, -1, -1, -1,
   -1, 26, 27, 28, 29, 30, 31, 32, 33, 34, 35, 36, 37, 38, 39, 40,
   41, 42, 43, 44, 45, 46, 47, 48, 49, 50, 51, -1, -1, -1, -1, -1] ++ List.replicate 128 (-1)

/-- A character of the regular expression's class. -/
def isBase64 (c : UInt8) : Bool :=
  (0x61 ≤ c && c ≤ 0x7a) || (0x41 ≤ c && c ≤ 0x5a) || (0x30 ≤ c && c ≤ 0x39) || c = 0x2b || c = 0x2f

/-- The regular expression is matched against the characters up to the first zero byte. -/
def isValidBase64 (text : Bytes) : Bool :=
  text.length % 4 = 0 && ((text.takeWhile (· ≠ 0)).dropWhile isBase64 ∈ [[], [0x3d], [0x3d, 0x3d]])

def tab (index : UInt8) : UInt8 := base64Alphabet.getD index.toNat 0

/-- It returns the characters and how many of them there are. -/
def encodeImpl (out : Bytes) : Bytes → ℕ → Bytes × ℕ
  | b0 :: b1 :: b2 :: rest, decodedSize =>
    encodeImpl (out ++ [tab ((b0 &&& 0xfc) >>> 2), tab (((b0 &&& 0x03) <<< 4) + ((b1 &&& 0xf0) >>> 4)),
      tab (((b2 &&& 0xc0) >>> 6) + ((b1 &&& 0x0f) <<< 2)), tab (b2 &&& 0x3f)]) rest (decodedSize + 4)
  | [b0, b1], decodedSize =>
    (out ++ [tab ((b0 &&& 0xfc) >>> 2), tab (((b0 &&& 0x03) <<< 4) + ((b1 &&& 0xf0) >>> 4)),
      tab ((b1 &&& 0x0f) <<< 2), 0x3d], decodedSize + 4)
  | [b0], decodedSize => (out ++ [tab ((b0 &&& 0xfc) >>> 2), tab ((b0 &&& 0x03) <<< 4), 0x3d, 0x3d], decodedSize + 4)
  | [], decodedSize => (out, decodedSize)

/-- `resize` of a string. -/
def resize (text : Bytes) (size : ℕ) : Bytes := text.take size ++ List.replicate (size - text.length) 0

def encodeBase64 (bytes : Bytes) : Bytes :=
  let (dest, size) := encodeImpl [] bytes 0
  resize dest size

/-- Three bytes of four values. -/
def c3 (c4 : Bytes) : Bytes :=
  [(c4.getD 0 0 <<< 2) + ((c4.getD 1 0 &&& 0x30) >>> 4),
    ((c4.getD 1 0 &&& 0xf) <<< 4) + ((c4.getD 2 0 &&& 0x3c) >>> 2),
    ((c4.getD 2 0 &&& 0x3) <<< 6) + c4.getD 3 0]

/-- The loop of `decodeImpl`, with the place of the next value, the values so far and the bytes so far. -/
def decodeLoop : Bytes → ℕ → Bytes → Bytes → Option (ℕ × Bytes × Bytes)
  | [], i, c4, out => some (i, c4, out)
  | character :: src, i, c4, out =>
    if character = 0x3d then some (i, c4, out)
    else
      let v := inverseTable.getD character.toNat (-1)
      if v = -1 then none
      else
        let c4 := c4.set i (UInt8.ofNat v.toNat)
        if i + 1 = 4 then decodeLoop src 0 c4 (out ++ c3 c4) else decodeLoop src (i + 1) c4 out

def decodeImpl (src : Bytes) : Option Bytes := do
  let (i, c4, out) ← decodeLoop src 0 (List.replicate 4 0) []
  if i ≠ 0 then return out ++ (c3 c4).take (i - 1) else return out

def decodeBase64 (text : Bytes) : Except BaseError Bytes :=
  if ! isValidBase64 text then .error .invalidBase64Input
  else
    match decodeImpl text with
    | none => .error .invalidBase64Input
    | some decodedBytes => .ok decodedBytes

section Values

variable (b : UInt8)

/-! The masks and shifts of the source, as quotients and remainders. -/

theorem toNat_high_six : ((b &&& 0xfc) >>> 2).toNat = b.toNat / 4 := by
  have bound := b.toNat_lt
  rw [@toNat_field b 0xfc 2 6 (by decide) (by decide)]
  change b.toNat / 4 % 64 = _
  omega

theorem toNat_low_two : ((b &&& 0x03) <<< 4).toNat = b.toNat % 4 * 16 := by
  rw [toNat_raised (by decide), @toNat_low b 0x03 2 (by decide)]
  change b.toNat % 4 * 16 % 256 = _
  omega

theorem toNat_high_four : ((b &&& 0xf0) >>> 4).toNat = b.toNat / 16 := by
  have bound := b.toNat_lt
  rw [@toNat_field b 0xf0 4 4 (by decide) (by decide)]
  change b.toNat / 16 % 16 = _
  omega

theorem toNat_low_four : ((b &&& 0x0f) <<< 2).toNat = b.toNat % 16 * 4 := by
  rw [toNat_raised (by decide), @toNat_low b 0x0f 4 (by decide)]
  change b.toNat % 16 * 4 % 256 = _
  omega

theorem toNat_high_two : ((b &&& 0xc0) >>> 6).toNat = b.toNat / 64 := by
  have bound := b.toNat_lt
  rw [@toNat_field b 0xc0 6 2 (by decide) (by decide)]
  change b.toNat / 64 % 4 = _
  omega

theorem toNat_low_six : (b &&& 0x3f).toNat = b.toNat % 64 := @toNat_low b 0x3f 6 (by decide)

theorem toNat_shiftLeft_two : (b <<< 2).toNat = b.toNat * 4 % 256 := toNat_raised (by decide)

theorem toNat_middle_two : ((b &&& 0x30) >>> 4).toNat = b.toNat / 16 % 4 :=
  @toNat_field b 0x30 4 2 (by decide) (by decide)

theorem toNat_shiftLeft_four : ((b &&& 0xf) <<< 4).toNat = b.toNat % 16 * 16 := by
  rw [toNat_raised (by decide), @toNat_low b 0xf 4 (by decide)]
  change b.toNat % 16 * 16 % 256 = _
  omega

theorem toNat_middle_four : ((b &&& 0x3c) >>> 2).toNat = b.toNat / 4 % 16 :=
  @toNat_field b 0x3c 2 4 (by decide) (by decide)

theorem toNat_shiftLeft_six : ((b &&& 0x3) <<< 6).toNat = b.toNat % 4 * 64 := by
  rw [toNat_raised (by decide), @toNat_low b 0x3 2 (by decide)]
  change b.toNat % 4 * 64 % 256 = _
  omega

end Values

section Alphabet

theorem base64Alphabet_eq : base64Alphabet =
    [0x41, 0x42, 0x43, 0x44, 0x45, 0x46, 0x47, 0x48, 0x49, 0x4a, 0x4b, 0x4c, 0x4d, 0x4e, 0x4f, 0x50, 0x51, 0x52, 0x53, 0x54,
      0x55, 0x56, 0x57, 0x58, 0x59, 0x5a, 0x61, 0x62, 0x63, 0x64, 0x65, 0x66, 0x67, 0x68, 0x69, 0x6a, 0x6b, 0x6c, 0x6d,
      0x6e, 0x6f, 0x70, 0x71, 0x72, 0x73, 0x74, 0x75, 0x76, 0x77, 0x78, 0x79, 0x7a, 0x30, 0x31, 0x32, 0x33, 0x34, 0x35,
      0x36, 0x37, 0x38, 0x39, 0x2b, 0x2f] :=
  ascii_ofList ['A', 'B', 'C', 'D', 'E', 'F', 'G', 'H', 'I', 'J', 'K', 'L', 'M', 'N', 'O', 'P', 'Q', 'R', 'S', 'T', 'U',
    'V', 'W', 'X', 'Y', 'Z', 'a', 'b', 'c', 'd', 'e', 'f', 'g', 'h', 'i', 'j', 'k', 'l', 'm', 'n', 'o', 'p', 'q', 'r', 's',
    't', 'u', 'v', 'w', 'x', 'y', 'z', '0', '1', '2', '3', '4', '5', '6', '7', '8', '9', '+', '/']

/-- The entries of the table are the values with their characters, in the order of the characters. -/
theorem entries_inverseTable : (inverseTable.zipIdx.filter fun entry => entry.1 ≠ -1) =
    let entries := base64Alphabet.zipIdx.map fun entry => ((entry.2 : ℤ), entry.1.toNat)
    (entries.drop 52).drop 10 ++ (entries.drop 52).take 10 ++ entries.take 52 := by
  rw [base64Alphabet_eq]
  decide

theorem base64Alphabet_plain : ∀ character ∈ base64Alphabet,
    isBase64 character = true ∧ character ≠ 0x3d ∧ character ≠ 0 := by
  rw [base64Alphabet_eq]
  decide +kernel

/-- The character of a value is read as that value, and the regular expression admits it. -/
theorem tab_spec {index : UInt8} (small : index.toNat < 64) :
    inverseTable.getD (tab index).toNat (-1) = index.toNat ∧ isBase64 (tab index) = true ∧ tab index ≠ 0x3d ∧
      tab index ≠ 0 := by
  have inside : index.toNat < base64Alphabet.length := by rwa [base64Alphabet_eq]
  constructor
  · refine @getD_of_entries _ _ _ _ UInt8.toNat Nat.cast _ _ _ (fun entry listed => ?_) inside
    rw [← List.take_append_drop 52 (base64Alphabet.zipIdx.map _), List.mem_append] at listed
    refine @List.mem_of_mem_filter _ (fun entry => entry.1 ≠ -1) _ _ ?_
    rw [entries_inverseTable, List.mem_append, List.mem_append]
    refine listed.elim .inr fun later => .inl ?_
    rw [← List.take_append_drop 10 (List.drop 52 _), List.mem_append] at later
    exact later.symm
  · apply base64Alphabet_plain
    rw [tab, List.getD_eq_getElem?_getD, List.getElem?_eq_getElem inside, Option.getD_some]
    exact List.getElem_mem inside

end Alphabet

/-- The values of the characters of three bytes; a byte that is missing counts as zero. -/
def sextets (b0 b1 b2 : UInt8) : Bytes :=
  [(b0 &&& 0xfc) >>> 2, ((b0 &&& 0x03) <<< 4) + ((b1 &&& 0xf0) >>> 4), ((b2 &&& 0xc0) >>> 6) + ((b1 &&& 0x0f) <<< 2),
    b2 &&& 0x3f]

theorem toNat_sextets (b0 b1 b2 : UInt8) : (sextets b0 b1 b2).map UInt8.toNat =
    [b0.toNat / 4, b0.toNat % 4 * 16 + b1.toNat / 16, b2.toNat / 64 + b1.toNat % 16 * 4, b2.toNat % 64] := by
  have first := b0.toNat_lt
  have second := b1.toNat_lt
  have third := b2.toNat_lt
  simp only [sextets, List.map_cons, List.map_nil, UInt8.toNat_add, toNat_high_six, toNat_low_two, toNat_high_four,
    toNat_low_four, toNat_high_two, toNat_low_six]
  have one : b0.toNat % 4 * 16 + b1.toNat / 16 < 2 ^ 8 := by omega
  have two : b2.toNat / 64 + b1.toNat % 16 * 4 < 2 ^ 8 := by omega
  rw [Nat.mod_eq_of_lt one, Nat.mod_eq_of_lt two]

theorem sextets_lt (b0 b1 b2 : UInt8) : ∀ index ∈ sextets b0 b1 b2, index.toNat < 64 := by
  intro index member
  have listed : index.toNat ∈ (sextets b0 b1 b2).map UInt8.toNat := List.mem_map_of_mem member
  have first := b0.toNat_lt
  have second := b1.toNat_lt
  have third := b2.toNat_lt
  rw [toNat_sextets] at listed
  simp only [List.mem_cons, List.not_mem_nil, or_false] at listed
  rcases listed with zero | one | two | three <;> omega

theorem c3_sextets (b0 b1 b2 : UInt8) : c3 (sextets b0 b1 b2) = [b0, b1, b2] := by
  have values := toNat_sextets b0 b1 b2
  have first := b0.toNat_lt
  have second := b1.toNat_lt
  have third := b2.toNat_lt
  unfold sextets at values ⊢
  simp only [List.map_cons, List.map_nil, List.cons.injEq, and_true] at values
  obtain ⟨zero, one, two, three⟩ := values
  unfold c3
  simp only [List.getD_cons_zero, List.getD_cons_succ, List.cons.injEq, and_true]
  refine ⟨?_, ?_, ?_⟩
  · apply UInt8.toNat_inj.mp
    rw [UInt8.toNat_add, toNat_shiftLeft_two, toNat_middle_two, zero, one]
    omega
  · apply UInt8.toNat_inj.mp
    rw [UInt8.toNat_add, toNat_shiftLeft_four, toNat_middle_four, one, two]
    omega
  · apply UInt8.toNat_inj.mp
    rw [UInt8.toNat_add, toNat_shiftLeft_six, two, three]
    omega

/-- One character of a value is collected. -/
theorem decodeLoop_tab {index : UInt8} (small : index.toNat < 64) (src : Bytes) (i : ℕ) (c4 out : Bytes) :
    decodeLoop (tab index :: src) i c4 out =
      if i + 1 = 4 then decodeLoop src 0 (c4.set i index) (out ++ c3 (c4.set i index))
      else decodeLoop src (i + 1) (c4.set i index) out := by
  obtain ⟨known, -, plain, -⟩ := tab_spec small
  have value : (index.toNat : ℤ) ≠ -1 := by omega
  rw [decodeLoop, if_neg plain]
  dsimp only
  rw [known, if_neg value, Int.toNat_natCast, UInt8.ofNat_toNat]

/-- The characters of a text. -/
def characters : Bytes → Bytes
  | b0 :: b1 :: b2 :: rest => (sextets b0 b1 b2).map tab ++ characters rest
  | [b0, b1] => ((sextets b0 b1 0).map tab).take 3 ++ [0x3d]
  | [b0] => ((sextets b0 0 0).map tab).take 2 ++ [0x3d, 0x3d]
  | [] => []

theorem encodeImpl_eq (out bytes : Bytes) (decodedSize : ℕ) :
    encodeImpl out bytes decodedSize = (out ++ characters bytes, decodedSize + (characters bytes).length) := by
  fun_induction characters bytes generalizing out decodedSize with
  | case1 b0 b1 b2 rest ih =>
    rw [encodeImpl, ih, List.append_assoc, List.length_append, ← Nat.add_assoc]
    rfl
  | case2 b0 b1 => simp [encodeImpl, sextets]
  | case3 b0 => simp [encodeImpl, sextets]
  | case4 => simp [encodeImpl]

theorem encodeBase64_eq (bytes : Bytes) : encodeBase64 bytes = characters bytes := by
  unfold encodeBase64 resize
  rw [encodeImpl_eq]
  simp

section Collecting

variable {v0 v1 v2 v3 : UInt8} (small : ∀ value ∈ [v0, v1, v2, v3], value.toNat < 64) (w0 w1 w2 w3 : UInt8)
  (src out : Bytes)

include small

theorem decodeLoop_four : decodeLoop ([v0, v1, v2, v3].map tab ++ src) 0 [w0, w1, w2, w3] out =
    decodeLoop src 0 [v0, v1, v2, v3] (out ++ c3 [v0, v1, v2, v3]) := by
  simp only [List.mem_cons, List.not_mem_nil, or_false, forall_eq_or_imp, forall_eq] at small
  obtain ⟨zero, one, two, three⟩ := small
  simp only [List.map_cons, List.map_nil, List.cons_append, List.nil_append]
  rw [decodeLoop_tab zero, if_neg (by decide), decodeLoop_tab one, if_neg (by decide), decodeLoop_tab two,
    if_neg (by decide), decodeLoop_tab three, if_pos rfl]
  rfl

theorem decodeLoop_three : decodeLoop (([v0, v1, v2, v3].map tab).take 3 ++ [0x3d]) 0 [w0, w1, w2, w3] out =
    some (3, [v0, v1, v2, w3], out) := by
  simp only [List.mem_cons, List.not_mem_nil, or_false, forall_eq_or_imp, forall_eq] at small
  obtain ⟨zero, one, two, -⟩ := small
  simp only [List.map_cons, List.map_nil, List.take_succ_cons, List.take_zero, List.cons_append, List.nil_append]
  rw [decodeLoop_tab zero, if_neg (by decide), decodeLoop_tab one, if_neg (by decide), decodeLoop_tab two,
    if_neg (by decide)]
  rfl

theorem decodeLoop_two : decodeLoop (([v0, v1, v2, v3].map tab).take 2 ++ [0x3d, 0x3d]) 0 [w0, w1, w2, w3] out =
    some (2, [v0, v1, w2, w3], out) := by
  simp only [List.mem_cons, List.not_mem_nil, or_false, forall_eq_or_imp, forall_eq] at small
  obtain ⟨zero, one, -, -⟩ := small
  simp only [List.map_cons, List.map_nil, List.take_succ_cons, List.take_zero, List.cons_append, List.nil_append]
  rw [decodeLoop_tab zero, if_neg (by decide), decodeLoop_tab one, if_neg (by decide)]
  rfl

end Collecting

/-- What is collected from the characters of a text, once the incomplete group at the end is added. -/
theorem decodeLoop_characters (bytes out : Bytes) (w0 w1 w2 w3 : UInt8) : ∃ i c4 done,
    decodeLoop (characters bytes) 0 [w0, w1, w2, w3] out = some (i, c4, done) ∧
      (if i ≠ 0 then done ++ (c3 c4).take (i - 1) else done) = out ++ bytes := by
  fun_induction characters bytes generalizing out w0 w1 w2 w3 with
  | case1 b0 b1 b2 rest ih =>
    have group := decodeLoop_four (sextets_lt b0 b1 b2) w0 w1 w2 w3 (characters rest) out
    obtain ⟨i, c4, done, looped, collected⟩ := ih (out ++ c3 (sextets b0 b1 b2)) _ _ _ _
    refine ⟨i, c4, done, group.trans looped, ?_⟩
    rw [collected, c3_sextets, List.append_assoc]
    rfl
  | case2 b0 b1 =>
    have group := decodeLoop_three (sextets_lt b0 b1 0) w0 w1 w2 w3 out
    refine ⟨3, _, out, group, ?_⟩
    have bytes := congrArg (List.take 2) (c3_sextets b0 b1 0)
    exact congrArg (out ++ ·) bytes
  | case3 b0 =>
    have group := decodeLoop_two (sextets_lt b0 0 0) w0 w1 w2 w3 out
    refine ⟨2, _, out, group, ?_⟩
    have bytes := congrArg (List.take 1) (c3_sextets b0 0 0)
    exact congrArg (out ++ ·) bytes
  | case4 => exact ⟨0, _, out, rfl, by simp⟩

theorem tab_sextets {character b0 b1 b2 : UInt8} (member : character ∈ (sextets b0 b1 b2).map tab) :
    isBase64 character = true ∧ character ≠ 0 := by
  obtain ⟨index, listed, rfl⟩ := List.mem_map.mp member
  have spec := tab_spec (sextets_lt b0 b1 b2 index listed)
  exact ⟨spec.2.1, spec.2.2.2⟩

/-- The characters of a text are those of the regular expression, in groups of four. -/
theorem characters_valid (bytes : Bytes) : (characters bytes).length % 4 = 0 ∧
    (∀ character ∈ characters bytes, character ≠ 0) ∧
    (characters bytes).dropWhile isBase64 ∈ [[], [0x3d], [0x3d, 0x3d]] := by
  fun_induction characters bytes with
  | case1 b0 b1 b2 rest ih =>
    obtain ⟨whole, nonzero, matched⟩ := ih
    refine ⟨?_, ?_, ?_⟩
    · rw [List.length_append, List.length_map, Nat.add_mod, whole]
      simp [sextets]
    · exact List.forall_mem_append.mpr ⟨fun character member => (tab_sextets member).2, nonzero⟩
    · rwa [List.dropWhile_append_of_pos fun character member => (tab_sextets member).1]
  | case2 b0 b1 =>
    refine ⟨by simp [sextets], ?_, ?_⟩
    · refine List.forall_mem_append.mpr ⟨fun character member => ?_, by simp⟩
      exact (tab_sextets (List.mem_of_mem_take member)).2
    · rw [List.dropWhile_append_of_pos fun character member => (tab_sextets (List.mem_of_mem_take member)).1]
      decide
  | case3 b0 =>
    refine ⟨by simp [sextets], ?_, ?_⟩
    · refine List.forall_mem_append.mpr ⟨fun character member => ?_, by simp⟩
      exact (tab_sextets (List.mem_of_mem_take member)).2
    · rw [List.dropWhile_append_of_pos fun character member => (tab_sextets (List.mem_of_mem_take member)).1]
      decide
  | case4 => simp

theorem decodeBase64_encodeBase64 (bytes : Bytes) : decodeBase64 (encodeBase64 bytes) = .ok bytes := by
  obtain ⟨whole, nonzero, matched⟩ := characters_valid bytes
  obtain ⟨i, c4, done, looped, collected⟩ := decodeLoop_characters bytes [] 0 0 0 0
  have valid : isValidBase64 (encodeBase64 bytes) = true := by
    rw [encodeBase64_eq, isValidBase64, List.takeWhile_eq_self_iff.mpr (by simpa using nonzero)]
    simp [whole, matched]
  have decoded : decodeImpl (encodeBase64 bytes) = some bytes := by
    rw [encodeBase64_eq, decodeImpl]
    change (decodeLoop (characters bytes) 0 [0, 0, 0, 0] []).bind _ = _
    rw [looped, Option.bind_some]
    rw [List.nil_append] at collected
    rw [← collected]
    dsimp only
    split_ifs <;> rfl
  unfold decodeBase64
  rw [valid, decoded]
  rfl

end Libp2p.Multi.Base64
