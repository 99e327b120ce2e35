import Libp2p.Library.View
import Libp2p.Multi.MultibaseCodec

/-! # Decoders of text views

A text is given to the decoders as a view of a buffer. The decoder of base 58 and the regular expression of base 64 are
given its place alone and go on to the next zero byte, so that characters of the view may be left out and characters
beyond it be taken in. It is stated here when that makes no difference.
-/

namespace Libp2p.Multi

open Library

namespace Base58

variable {text front back : Bytes}

/-- Spaces, then characters of the alphabet, then spaces. -/
def isBase58 (text : Bytes) : Bool := ((text.dropWhile isSpace).dropWhile (· ∈ pszBase58)).all isSpace

theorem isBase58_iff : isBase58 text = true ↔ ∃ front word back, text = front ++ (word ++ back) ∧
    (∀ character ∈ front, isSpace character = true) ∧ (∀ character ∈ word, character ∈ pszBase58) ∧
      ∀ character ∈ back, isSpace character = true := by
  constructor
  · intro plain
    refine ⟨text.takeWhile isSpace, (text.dropWhile isSpace).takeWhile (· ∈ pszBase58),
      (text.dropWhile isSpace).dropWhile (· ∈ pszBase58), ?_, ?_, ?_, List.all_eq_true.mp plain⟩
    · rw [List.takeWhile_append_dropWhile, List.takeWhile_append_dropWhile]
    · exact fun character member => List.mem_takeWhile_imp member
    · exact fun character member => by simpa using List.mem_takeWhile_imp member
  · rintro ⟨front, word, back, rfl, before, plain, after⟩
    rw [isBase58, List.dropWhile_append_of_pos before, List.all_eq_true]
    cases word with
    | nil =>
      rw [List.nil_append, List.dropWhile_eq_nil_iff.mpr after, List.dropWhile_nil]
      exact fun _ member => absurd member List.not_mem_nil
    | cons first rest =>
      have visible : ¬ isSpace first = true := by simp [(pszBase58_plain first (plain first List.mem_cons_self)).2.1]
      rw [List.cons_append, List.dropWhile_cons_of_neg visible, ← List.cons_append,
        List.dropWhile_append_of_pos fun character member => decide_eq_true (plain character member)]
      exact fun character member => after character ((List.dropWhile_sublist _).subset member)

theorem isBase58_of_append (plain : isBase58 (text ++ back) = true) : isBase58 text = true := by
  unfold isBase58 at plain ⊢
  rw [List.dropWhile_append] at plain
  split_ifs at plain with none
  · rw [List.isEmpty_iff.mp none]
    rfl
  · rw [List.dropWhile_append] at plain
    split_ifs at plain with none
    · rw [List.isEmpty_iff.mp none]
      rfl
    · rw [List.all_append, Bool.and_eq_true] at plain
      exact plain.1

theorem isBase58_append (plain : isBase58 text = true) (spaces : ∀ character ∈ back, isSpace character = true) :
    isBase58 (text ++ back) = true := by
  obtain ⟨front, word, rest, rfl, before, among, after⟩ := isBase58_iff.mp plain
  refine isBase58_iff.mpr ⟨front, word, rest ++ back, by simp, before, among, ?_⟩
  exact List.forall_mem_append.mpr ⟨after, spaces⟩

/-- A zero byte is not a character of these texts. -/
theorem isBase58_of_zero (zero : 0 ∈ text) : isBase58 text = false := by
  rw [← Bool.not_eq_true]
  intro plain
  obtain ⟨front, word, back, rfl, before, among, after⟩ := isBase58_iff.mp plain
  rcases List.mem_append.mp zero with front | rest
  · exact absurd (before 0 front) (by decide)
  · rcases List.mem_append.mp rest with word | back
    · exact (pszBase58_plain 0 (among 0 word)).1 rfl
    · exact absurd (after 0 back) (by decide)

/-- Such a text is decoded, and the text of its bytes is what it has beside spaces. -/
theorem decodeImpl_of_isBase58 (plain : isBase58 text = true) :
    ∃ bytes, decodeImpl text = some bytes ∧ encodeBase58 bytes = text.filter fun character => ! isSpace character := by
  obtain ⟨front, word, back, rfl, before, among, after⟩ := isBase58_iff.mp plain
  have visible : word.filter (fun character => ! isSpace character) = word :=
    List.filter_eq_self.mpr fun character member => by simp [(pszBase58_plain character (among character member)).2.1]
  have hidden : ∀ spaces : Bytes, (∀ character ∈ spaces, isSpace character = true) →
      spaces.filter (fun character => ! isSpace character) = [] := fun spaces all =>
    List.filter_eq_nil_iff.mpr fun character member => by simp [all character member]
  rw [List.filter_append, List.filter_append, visible, hidden front before, hidden back after, List.nil_append,
    List.append_nil]
  obtain ⟨zeroes, digits, small, leading, rfl⟩ := exists_ones_digits among
  exact ⟨_, decodeImpl_digits small leading before after, encode_digits small leading⟩

/-- Characters that the table knows are those of the alphabet. -/
theorem mem_pszBase58_of_map {character : UInt8} (known : mapBase58.getD character.toNat (-1) ≠ -1) :
    character ∈ pszBase58 := by
  have listed : (_, character.toNat) ∈ mapBase58.zipIdx.filter fun entry => entry.1 ≠ -1 :=
    List.mem_filter.mpr ⟨mem_zipIdx_of_getD known, decide_eq_true known⟩
  rw [entries_mapBase58] at listed
  obtain ⟨entry, member, same⟩ := List.mem_map.mp listed
  rw [← UInt8.toNat_inj.mp (congrArg Prod.snd same)]
  exact List.fst_mem_of_mem_zipIdx member

theorem decodeLoop_plain {digits : Bytes} {b256 : List ℕ} {length : ℕ} {result : List ℕ × ℕ}
    (decoded : decodeLoop digits b256 length = some result) : ∀ character ∈ digits, character ∈ pszBase58 := by
  induction digits generalizing b256 length with
  | nil => exact fun _ member => absurd member List.not_mem_nil
  | cons character rest ih =>
    unfold decodeLoop at decoded
    dsimp only at decoded
    split_ifs at decoded with unknown carried
    exact List.forall_mem_cons.mpr ⟨mem_pszBase58_of_map unknown, ih decoded⟩

theorem isBase58_of_decodeImpl {bytes : Bytes} (decoded : decodeImpl text = some bytes) : isBase58 text = true := by
  unfold decodeImpl at decoded
  dsimp only at decoded
  set visible := text.dropWhile isSpace with skipped
  set psz := visible.dropWhile (· = 0x31) with counted
  obtain ⟨⟨b256, length⟩, looped, ended⟩ := Option.bind_eq_some_iff.mp decoded
  dsimp only at ended
  split_ifs at ended with trailing
  refine isBase58_iff.mpr ⟨text.takeWhile isSpace, visible.takeWhile (· = 0x31) ++
    psz.takeWhile (fun character => ! isSpace character), psz.dropWhile fun character => ! isSpace character, ?_, ?_, ?_, ?_⟩
  · rw [List.append_assoc, List.takeWhile_append_dropWhile, List.takeWhile_append_dropWhile,
      List.takeWhile_append_dropWhile]
  · exact fun character member => List.mem_takeWhile_imp member
  · refine List.forall_mem_append.mpr ⟨fun character member => ?_, decodeLoop_plain looped⟩
    have one : character = 0x31 := by simpa using List.mem_takeWhile_imp member
    rw [one, pszBase58_eq]
    decide
  · exact List.dropWhile_eq_nil_iff.mp (not_not.mp trailing)

theorem decodeImpl_eq_none_iff : decodeImpl text = none ↔ isBase58 text = false := by
  constructor
  · intro refused
    rw [← Bool.not_eq_true]
    intro plain
    obtain ⟨bytes, decoded, -⟩ := decodeImpl_of_isBase58 plain
    rw [refused] at decoded
    cases decoded
  · intro other
    rw [Option.eq_none_iff_forall_ne_some]
    intro bytes decoded
    rw [isBase58_of_decodeImpl decoded] at other
    cases other

/-- More characters make no difference if they are spaces, and if the text is refused anyway. -/
theorem decodeImpl_append_iff : decodeImpl (text ++ back) = decodeImpl text ↔
    (∀ character ∈ back, isSpace character = true) ∨ isBase58 text = false := by
  cases plain : isBase58 text with
  | false =>
    have refused : isBase58 (text ++ back) = false := by
      rw [← Bool.not_eq_true]
      exact fun more => absurd (isBase58_of_append more) (by simp [plain])
    simp [decodeImpl_eq_none_iff.mpr plain, decodeImpl_eq_none_iff.mpr refused]
  | true =>
    obtain ⟨bytes, decoded, word⟩ := decodeImpl_of_isBase58 plain
    rw [decoded]
    constructor
    · intro more
      obtain ⟨bytes', decoded', word'⟩ := decodeImpl_of_isBase58 (isBase58_of_decodeImpl more)
      obtain rfl := Option.some.inj (decoded'.symm.trans more)
      rw [word, List.filter_append, List.self_eq_append_right, List.filter_eq_nil_iff] at word'
      exact .inl fun character member => by simpa using word' character member
    · rintro (spaces | refused)
      · obtain ⟨bytes', decoded', word'⟩ := decodeImpl_of_isBase58 (isBase58_append plain spaces)
        have hidden : back.filter (fun character => ! isSpace character) = [] :=
          List.filter_eq_nil_iff.mpr fun character member => by simp [spaces character member]
        rw [List.filter_append, hidden, List.append_nil, ← word] at word'
        have same := decode_encode bytes'
        rw [word', decode_encode] at same
        rw [decoded', same]
      · cases refused

/-- What the characters of a text mean, all of them. -/
def decodeCharacters (text : Bytes) : Except BaseError Bytes :=
  match decodeImpl text with
  | none => .error .invalidBase58Input
  | some bytes => .ok bytes

/-- `decodeBase58` of a view; absent when it reads past the end of the buffer. -/
def decodeBase58View (view : View UInt8) : Option (Except BaseError Bytes) := (view.terminated 0).map decodeCharacters

/-- The buffer goes on to a zero byte. There is none in the view and nothing but spaces between the view and it, or what the
view has before the first one is no text of base 58. -/
def Delimited (view : View UInt8) : Prop := 0 ∈ view.memory ∧
  ((0 ∉ view.contents ∧ ∀ character ∈ view.beyond.takeWhile (· ≠ 0), isSpace character = true) ∨
    isBase58 (view.contents.takeWhile (· ≠ 0)) = false)

theorem decodeCharacters_inj {other : Bytes} :
    decodeCharacters text = decodeCharacters other ↔ decodeImpl text = decodeImpl other := by
  unfold decodeCharacters
  cases decodeImpl text <;> cases decodeImpl other <;> simp

/-- A text that a zero byte follows is decoded as all its characters. -/
theorem decodeBase58View_string (text : Bytes) : decodeBase58View (View.string 0 text) =
    some ((decodeBase58 text).elim (.error .invalidBase58Input) .ok) := by
  rw [decodeBase58View, View.terminated_string, Option.map_some, decodeCharacters, decodeBase58]
  cases decodeImpl (text.takeWhile (· ≠ 0)) <;> rfl

/-- The view is decoded as what its characters mean exactly when it is delimited. -/
theorem reads_iff (view : View UInt8) : view.Reads decodeBase58View decodeCharacters ↔ Delimited view := by
  unfold View.Reads decodeBase58View Delimited
  cases found : view.terminated 0 with
  | none =>
    have unterminated : 0 ∉ view.memory := by
      intro zero
      rw [View.terminated, if_pos zero] at found
      cases found
    simp [unterminated]
  | some psz =>
    have terminated : 0 ∈ view.memory := by
      by_contra missing
      rw [View.terminated, if_neg missing] at found
      cases found
    rw [Option.map_some, Option.some.injEq, decodeCharacters_inj]
    rcases view.terminated_cases found with ⟨zero, rfl⟩ | ⟨plain, rfl⟩
    · rw [decodeImpl_eq_none_iff.mpr (isBase58_of_zero zero), decodeImpl_eq_none_iff]
      simp [terminated, zero]
    · have whole : view.contents.takeWhile (· ≠ 0) = view.contents :=
        List.takeWhile_eq_self_iff.mpr fun character member => decide_eq_true fun zero => plain (zero ▸ member)
      rw [decodeImpl_append_iff, whole]
      simp [terminated, plain]

end Base58

namespace Base64

variable {text word rest : Bytes}

/-- The regular expression matches the whole text. -/
def matchesRegex (text : Bytes) : Bool := text.dropWhile isBase64 ∈ [[], [0x3d], [0x3d, 0x3d]]

def decoded (text : Bytes) : Except BaseError Bytes :=
  match decodeImpl text with
  | none => .error .invalidBase64Input
  | some bytes => .ok bytes

/-- What the characters of a text mean, all of them. -/
def decodeCharacters (text : Bytes) : Except BaseError Bytes :=
  if text.length % 4 = 0 ∧ matchesRegex text = true then decoded text else .error .invalidBase64Input

/-- `decodeBase64` of a view; absent when it reads past the end of the buffer. -/
def decodeBase64View (view : View UInt8) : Option (Except BaseError Bytes) :=
  if view.size % 4 ≠ 0 then some (.error .invalidBase64Input)
  else (view.terminated 0).map fun text =>
    if matchesRegex text then decoded view.contents else .error .invalidBase64Input

/-- The size is no multiple of four, or the buffer goes on to a zero byte and this holds: if there is one in the view, what
the view has before it is no text of base 64 or has no padding; if there is none and the view is a text of base 64, it is
one with what follows up to the zero byte, too. -/
def Delimited (view : View UInt8) : Prop := view.size % 4 ≠ 0 ∨ (0 ∈ view.memory ∧
  if 0 ∈ view.contents then
    matchesRegex (view.contents.takeWhile (· ≠ 0)) = true → 0x3d ∉ view.contents.takeWhile (· ≠ 0)
  else matchesRegex view.contents = true → matchesRegex (view.contents ++ view.beyond.takeWhile (· ≠ 0)) = true)

/-- The characters of the table are those of the regular expression. -/
theorem characters_inverseTable : ((inverseTable.zipIdx.filter fun entry => entry.1 ≠ -1).map Prod.snd) =
    (List.range 256).filter fun number => isBase64 (UInt8.ofNat number) := by
  decide +kernel

theorem inverseTable_of_isBase64 {character : UInt8} (plain : isBase64 character = true) :
    inverseTable.getD character.toNat (-1) ≠ -1 ∧ character ≠ 0x3d := by
  have listed : character.toNat ∈ (List.range 256).filter fun number => isBase64 (UInt8.ofNat number) :=
    List.mem_filter.mpr ⟨List.mem_range.mpr character.toNat_lt, by rwa [UInt8.ofNat_toNat]⟩
  rw [← characters_inverseTable] at listed
  obtain ⟨⟨value, place⟩, entry, rfl⟩ := List.mem_map.mp listed
  obtain ⟨entry, known⟩ := List.mem_filter.mp entry
  rw [List.mk_mem_zipIdx_iff_getElem?] at entry
  constructor
  · rw [List.getD_eq_getElem?_getD, entry, Option.getD_some]
    exact of_decide_eq_true known
  · rintro rfl
    exact absurd plain (by decide)

/-- The loop goes through the characters of the regular expression. -/
theorem decodeLoop_append (plain : ∀ character ∈ word, isBase64 character = true) (rest : Bytes) (i : ℕ) (c4 out : Bytes) :
    ∃ i' c4' out', decodeLoop (word ++ rest) i c4 out = decodeLoop rest i' c4' out' := by
  induction word generalizing i c4 out with
  | nil => exact ⟨i, c4, out, rfl⟩
  | cons character word ih =>
    obtain ⟨first, plain⟩ := List.forall_mem_cons.mp plain
    obtain ⟨known, unpadded⟩ := inverseTable_of_isBase64 first
    rw [List.cons_append, decodeLoop, if_neg unpadded]
    dsimp only
    rw [if_neg known]
    split_ifs
    · exact ih plain _ _ _
    · exact ih plain _ _ _

theorem decodeImpl_isSome : (decodeImpl text).isSome = (decodeLoop text 0 (List.replicate 4 0) []).isSome := by
  unfold decodeImpl
  cases decodeLoop text 0 (List.replicate 4 0) [] with
  | none => rfl
  | some result =>
    simp only [Option.bind_eq_bind, Option.bind_some]
    split_ifs <;> rfl

/-- The loop ends at a padding, and it fails at a zero byte. -/
theorem decodeImpl_append (plain : ∀ character ∈ word, isBase64 character = true) :
    (decodeImpl word).isSome = true ∧ (decodeImpl (word ++ 0x3d :: rest)).isSome = true ∧
      decodeImpl (word ++ 0 :: rest) = none := by
  refine ⟨?_, ?_, ?_⟩
  · obtain ⟨i, c4, out, looped⟩ := decodeLoop_append plain [] 0 (List.replicate 4 0) []
    rw [List.append_nil] at looped
    rw [decodeImpl_isSome, looped]
    rfl
  · obtain ⟨i, c4, out, looped⟩ := decodeLoop_append plain (0x3d :: rest) 0 (List.replicate 4 0) []
    rw [decodeImpl_isSome, looped, decodeLoop, if_pos rfl]
    rfl
  · obtain ⟨i, c4, out, looped⟩ := decodeLoop_append plain (0 :: rest) 0 (List.replicate 4 0) []
    rw [← Option.not_isSome_iff_eq_none, decodeImpl_isSome, looped, decodeLoop, if_neg (by decide)]
    dsimp only
    rw [if_pos (by decide)]
    simp

/-- A text of base 64 is characters of the regular expression, or such characters and a padding. -/
theorem matchesRegex_cases (matched : matchesRegex text = true) :
    ((∀ character ∈ text, isBase64 character = true) ∧ 0x3d ∉ text) ∨
      ∃ word rest, text = word ++ 0x3d :: rest ∧ ∀ character ∈ word, isBase64 character = true := by
  have plain : ∀ character ∈ text.takeWhile isBase64, isBase64 character = true := fun character member =>
    List.mem_takeWhile_imp member
  have parted := @List.takeWhile_append_dropWhile UInt8 isBase64 text
  have padding := of_decide_eq_true matched
  simp only [List.mem_cons, List.not_mem_nil, or_false] at padding
  rcases padding with none | one | two
  · rw [none, List.append_nil] at parted
    rw [parted] at plain
    exact .inl ⟨plain, fun padded => (inverseTable_of_isBase64 (plain _ padded)).2 rfl⟩
  · exact .inr ⟨_, [], by rw [← one, parted], plain⟩
  · exact .inr ⟨_, [0x3d], by rw [← two, parted], plain⟩

theorem matchesRegex_of_append (matched : matchesRegex (text ++ rest) = true) : matchesRegex text = true := by
  have padding := of_decide_eq_true matched
  rw [List.dropWhile_append] at padding
  split_ifs at padding with none
  · rw [matchesRegex, List.isEmpty_iff.mp none]
    rfl
  · cases left : text.dropWhile isBase64 with
    | nil => simp [left] at none
    | cons first more =>
      rw [left, List.cons_append] at padding
      rw [matchesRegex, left]
      cases more with
      | nil =>
        have sign : first = 0x3d := by
          simp only [List.nil_append, List.mem_cons, reduceCtorEq, List.cons.injEq, List.not_mem_nil, or_false,
            false_or] at padding
          exact padding.elim And.left And.left
        rw [sign]
        rfl
      | cons second more =>
        simp only [List.cons_append, List.mem_cons, reduceCtorEq, List.cons.injEq, and_false, List.append_eq_nil_iff,
          List.not_mem_nil, or_false, false_or] at padding
        obtain ⟨rfl, rfl, rfl, -⟩ := padding
        rfl

theorem matchesRegex_of_zero (zero : 0 ∈ text) : matchesRegex text = false := by
  rw [← Bool.not_eq_true]
  intro matched
  have padding := of_decide_eq_true matched
  rw [← @List.takeWhile_append_dropWhile UInt8 isBase64 text, List.mem_append] at zero
  rcases zero with word | rest
  · exact absurd (List.mem_takeWhile_imp word) (by decide)
  · simp only [List.mem_cons, List.not_mem_nil, or_false] at padding
    rcases padding with none | one | two
    · simp [none] at rest
    · simp [one] at rest
    · simp [two] at rest

theorem decodeImpl_of_matchesRegex (matched : matchesRegex text = true) : (decodeImpl text).isSome = true := by
  rcases matchesRegex_cases matched with ⟨plain, -⟩ | ⟨word, rest, rfl, plain⟩
  · exact (@decodeImpl_append text [] plain).1
  · exact (decodeImpl_append plain).2.1

theorem decoded_eq_error : decoded text = .error .invalidBase64Input ↔ decodeImpl text = none := by
  unfold decoded
  cases decodeImpl text <;> simp

/-- Up to a zero byte the text matches; it is refused unless it has a padding before. -/
theorem decodeImpl_of_zero (matched : matchesRegex word = true) : decodeImpl (word ++ 0 :: rest) = none ↔ 0x3d ∉ word := by
  rcases matchesRegex_cases matched with ⟨plain, unpadded⟩ | ⟨front, more, rfl, plain⟩
  · simp [(decodeImpl_append plain).2.2, unpadded]
  · have some_ := (@decodeImpl_append front (more ++ 0 :: rest) plain).2.1
    rw [List.append_assoc, List.cons_append]
    simp [Option.isSome_iff_ne_none.mp some_]

/-- The view is decoded as what its characters mean exactly when it is delimited. -/
theorem reads_iff (view : View UInt8) : view.Reads decodeBase64View decodeCharacters ↔ Delimited view := by
  unfold View.Reads decodeBase64View Delimited decodeCharacters
  rw [View.length_contents]
  by_cases groups : view.size % 4 = 0
  · rw [if_neg (not_not.mpr groups)]
    cases found : view.terminated 0 with
    | none =>
      have unterminated : 0 ∉ view.memory := by
        intro zero
        rw [View.terminated, if_pos zero] at found
        cases found
      simp [groups, unterminated]
    | some psz =>
      have terminated : 0 ∈ view.memory := by
        by_contra missing
        rw [View.terminated, if_neg missing] at found
        cases found
      simp only [Option.map_some, Option.some.injEq, groups, ne_eq, not_true, false_or, true_and, terminated]
      rcases view.terminated_cases found with ⟨zero, rfl⟩ | ⟨plain, rfl⟩
      · obtain ⟨rest, parts⟩ := takeWhile_append_terminator zero
        rw [matchesRegex_of_zero zero, if_pos zero]
        cases matched : matchesRegex (view.contents.takeWhile (· ≠ 0)) with
        | false => simp
        | true =>
          rw [← decodeImpl_of_zero matched, ← parts, ← decoded_eq_error]
          simp
      · rw [if_neg plain]
        cases matched : matchesRegex view.contents with
        | false =>
          have refused : matchesRegex (view.contents ++ view.beyond.takeWhile (· ≠ 0)) = false := by
            rw [← Bool.not_eq_true]
            exact fun more => absurd (matchesRegex_of_append more) (by simp [matched])
          rw [refused]
          simp
        | true =>
          have read : decoded view.contents ≠ .error .invalidBase64Input := by
            rw [Ne, decoded_eq_error]
            exact Option.isSome_iff_ne_none.mp (decodeImpl_of_matchesRegex matched)
          cases matchesRegex (view.contents ++ view.beyond.takeWhile (· ≠ 0)) with
          | false => simp [read.symm]
          | true => simp
  · simp [groups]

end Base64

namespace MultibaseCodec

variable (hex : HexTexts) (view : View UInt8)

/-- The decoding functions of `codecs`, of a view. -/
def decodeWithView : Encoding → View UInt8 → Option (Except MultibaseError Bytes)
  | .base58, view => (Base58.decodeBase58View view).map (Except.mapError .base)
  | .base64, view => (Base64.decodeBase64View view).map (Except.mapError .base)
  | encoding, view => some (decodeWith hex encoding view.contents)

def decodeView : Option (Except MultibaseError Bytes) :=
  if view.size < 2 then some (.error .inputTooShort)
  else
    match encodingByChar (view.contents.getD 0 0) with
    | none => some (.error .unsupportedBase)
    | some encodingBase => decodeWithView hex encodingBase view.tail

def charactersWith : Encoding → Bytes → Except MultibaseError Bytes
  | .base58, text => (Base58.decodeCharacters text).mapError .base
  | .base64, text => (Base64.decodeCharacters text).mapError .base
  | encoding, text => decodeWith hex encoding text

/-- What the characters of a text mean, all of them. -/
def decodeCharacters (text : Bytes) : Except MultibaseError Bytes :=
  if text.length < 2 then .error .inputTooShort
  else
    match encodingByChar (text.getD 0 0) with
    | none => .error .unsupportedBase
    | some encodingBase => charactersWith hex encodingBase text.tail

/-- Behind the character of base 58 or base 64, the view is delimited as their decoders need it. -/
def Delimited : Prop := 2 ≤ view.size →
  (encodingByChar (view.contents.getD 0 0) = some .base58 → Base58.Delimited view.tail) ∧
    (encodingByChar (view.contents.getD 0 0) = some .base64 → Base64.Delimited view.tail)

theorem mapError_inj {result other : Except BaseError Bytes} :
    result.mapError MultibaseError.base = other.mapError MultibaseError.base ↔ result = other := by
  cases result <;> cases other <;> simp [Except.mapError]

theorem map_mapError_iff {read : Option (Except BaseError Bytes)} {result : Except BaseError Bytes} :
    read.map (Except.mapError MultibaseError.base) = some (result.mapError .base) ↔ read = some result := by
  cases read with
  | none => simp
  | some other => rw [Option.map_some, Option.some.injEq, Option.some.injEq, mapError_inj]

theorem reads_iff : view.Reads (decodeView hex) (decodeCharacters hex) ↔ Delimited view := by
  unfold View.Reads decodeView decodeCharacters Delimited
  rw [View.length_contents, ← View.contents_tail]
  by_cases short : view.size < 2
  · simp [short]
  · have long : 2 ≤ view.size := not_lt.mp short
    rw [if_neg short, if_neg short]
    cases encodingByChar (view.contents.getD 0 0) with
    | none => simp
    | some encoding =>
      cases encoding with
      | base58 =>
        have read := Base58.reads_iff view.tail
        rw [View.Reads] at read
        dsimp only [decodeWithView, charactersWith]
        rw [map_mapError_iff, read]
        simp [long]
      | base64 =>
        have read := Base64.reads_iff view.tail
        rw [View.Reads] at read
        dsimp only [decodeWithView, charactersWith]
        rw [map_mapError_iff, read]
        simp [long]
      | base16Lower => simp [decodeWithView, charactersWith]
      | base16Upper => simp [decodeWithView, charactersWith]
      | base32Lower => simp [decodeWithView, charactersWith]
      | base32Upper => simp [decodeWithView, charactersWith]

end MultibaseCodec

end Libp2p.Multi
