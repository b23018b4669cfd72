import Mathlib.Algebra.Order.BigOperators.Group.List
import Mathlib.Algebra.Order.Group.Nat
import Mathlib.Data.List.Infix

/-!
# Percent-encoded text

A text falls into its *triplets*, a `%` followed by two hexadecimal digits, and its other
characters. Decoding replaces a triplet by the byte that it names and every other character by
its UTF-8 encoding; encoding keeps the triplets and replaces the characters that are not safe by
triplets. Decoding cannot tell the triplets that encoding made from those that were there, so a
text is read back from its encoding exactly when it has no triplet of its own. Quoting encodes the
`%` too, and is undone for all texts.

## Main definitions

* `Library.Piece`, `Library.pieces` : the triplets and the other characters of a text.
* `Library.percentEncode`, `Library.percentQuote`, `Library.percentDecode`.
* `Library.HasTriplet` : somewhere in the text stands a triplet.
* `Library.Utf8Decoder` : a way to read bytes as UTF-8 that also answers on malformed bytes;
  `Library.Utf8Decoder.replacing` puts `U+FFFD` where no character begins.

## Main results

* `Library.percentDecode_percentEncode`, `Library.percentDecode_percentQuote` : decoding undoes
  both.
* `Library.Utf8Decoder.decode_percentDecode_eq_self_iff` : which texts are read back.
* `Library.Utf8Decoder.countP_decode_percentDecode_le` : reading adds no ASCII character.
-/

namespace Library

/-! ### Hexadecimal digits -/

def hexValue? (c : Char) : Option ℕ :=
  if '0' ≤ c ∧ c ≤ '9' then some (c.toNat - 48)
  else if 'A' ≤ c ∧ c ≤ 'F' then some (c.toNat - 55)
  else if 'a' ≤ c ∧ c ≤ 'f' then some (c.toNat - 87)
  else none

/-- A hexadecimal digit, of either case, with its value. -/
structure HexDigit where
  char : Char
  value : ℕ
  hexValue?_char : hexValue? char = some value

namespace HexDigit

def ofChar? (c : Char) : Option HexDigit :=
  match h : hexValue? c with
  | none => none
  | some value => some ⟨c, value, h⟩

@[simp] theorem ofChar?_char (digit : HexDigit) : ofChar? digit.char = some digit := by
  obtain ⟨c, value, h⟩ := digit
  rw [ofChar?]
  split
  · next hnone => cases hnone.symm.trans h
  · next value' hsome =>
    obtain rfl := Option.some.inj (hsome.symm.trans h)
    rfl

theorem char_of_ofChar?_eq_some {c : Char} {digit : HexDigit} (h : ofChar? c = some digit) :
    digit.char = c := by
  rw [ofChar?] at h
  split at h
  · cases h
  · obtain rfl := Option.some.inj h
    rfl

/-- The digit of a value below 16, in upper case. -/
def ofValue (n : ℕ) (h : n < 16) : HexDigit where
  char := Char.ofNat (if n < 10 then 48 + n else 55 + n)
  value := n
  hexValue?_char := by
    revert n
    decide

theorem char_toNat_lt (digit : HexDigit) : digit.char.toNat < 128 := by
  obtain ⟨c, value, h⟩ := digit
  simp only [hexValue?, Char.le_def, UInt32.le_iff_toNat_le] at h
  have hnine : '9'.val.toNat = 57 := rfl
  have hupper : 'F'.val.toNat = 70 := rfl
  have hlower : 'f'.val.toNat = 102 := rfl
  change c.val.toNat < 128
  split_ifs at h <;> omega

end HexDigit

/-! ### The pieces of a text -/

/-- A triplet, or a character that begins none. -/
inductive Piece
  | plain (c : Char)
  | triplet (high low : HexDigit)

namespace Piece

def text : Piece → List Char
  | plain c => [c]
  | triplet high low => ['%', high.char, low.char]

def bytes : Piece → List UInt8
  | plain c => String.utf8EncodeChar c
  | triplet high low => [UInt8.ofNat (16 * high.value + low.value)]

def isTriplet : Piece → Bool
  | plain _ => false
  | triplet _ _ => true

/-- The triplet that names a byte. -/
def ofByte (b : UInt8) : Piece :=
  .triplet (.ofValue (b.toNat / 16) (by have := b.toNat_lt; omega))
    (.ofValue (b.toNat % 16) (by omega))

/-- The piece with its unsafe character encoded. -/
def encode (isSafe : Char → Bool) : Piece → List Piece
  | plain c => if isSafe c then [plain c] else (String.utf8EncodeChar c).map ofByte
  | triplet high low => [triplet high low]

@[simp] theorem bytes_ofByte (b : UInt8) : (ofByte b).bytes = [b] := by
  have hvalue : 16 * (b.toNat / 16) + b.toNat % 16 = b.toNat := Nat.div_add_mod _ _
  simp only [ofByte, bytes, HexDigit.ofValue, hvalue, UInt8.ofNat_toNat]

theorem flatMap_bytes_encode (isSafe : Char → Bool) :
    (p : Piece) → (p.encode isSafe).flatMap bytes = p.bytes
  | plain c => by
      rw [encode]
      split_ifs
      · simp
      · simp only [List.flatMap_map, bytes_ofByte, List.flatMap_singleton']
        rfl
  | triplet high low => by simp [encode]

/-- An encoded piece holds no bare `%`. -/
theorem ne_percent_of_mem_encode {isSafe : Char → Bool} (hsafe : isSafe '%' = false) {p q : Piece}
    (hq : q ∈ p.encode isSafe) : q ≠ plain '%' := by
  rintro rfl
  cases p with
  | plain c =>
    rw [encode] at hq
    split_ifs at hq with hc
    · obtain rfl := Piece.plain.inj (List.mem_singleton.mp hq)
      simp [hsafe] at hc
    · simp [ofByte] at hq
  | triplet high low => simp [encode] at hq

end Piece

/-- The triplet that the three characters form. -/
def triplet? (c a b : Char) : Option Piece :=
  if c = '%' then
    match HexDigit.ofChar? a, HexDigit.ofChar? b with
    | some high, some low => some (.triplet high low)
    | _, _ => none
  else none

theorem text_of_triplet?_eq_some {c a b : Char} {p : Piece} (h : triplet? c a b = some p) :
    p.text = [c, a, b] := by
  rw [triplet?] at h
  split_ifs at h with hc
  subst hc
  split at h
  · next high low hhigh hlow =>
    obtain rfl := Option.some.inj h
    rw [Piece.text, HexDigit.char_of_ofChar?_eq_some hhigh, HexDigit.char_of_ofChar?_eq_some hlow]
  · cases h

@[simp] theorem triplet?_char (high low : HexDigit) :
    triplet? '%' high.char low.char = some (.triplet high low) := by
  simp [triplet?]

def pieces : List Char → List Piece
  | [] => []
  | [c] => [.plain c]
  | [c, a] => [.plain c, .plain a]
  | c :: a :: b :: l =>
    match triplet? c a b with
    | some p => p :: pieces l
    | none => .plain c :: pieces (a :: b :: l)

theorem pieces_cons_of_ne {c : Char} (h : c ≠ '%') (l : List Char) :
    pieces (c :: l) = .plain c :: pieces l := by
  rcases l with _ | ⟨a, _ | ⟨b, l⟩⟩
  · rfl
  · rfl
  · rw [pieces, triplet?, if_neg h]

@[simp] theorem pieces_triplet (high low : HexDigit) (l : List Char) :
    pieces ('%' :: high.char :: low.char :: l) = .triplet high low :: pieces l := by
  rw [pieces, triplet?_char]

theorem flatMap_text_pieces (l : List Char) : (pieces l).flatMap Piece.text = l := by
  fun_induction pieces l with
  | case1 => rfl
  | case2 c => rfl
  | case3 c a => rfl
  | case4 c a b l p hp ih => simp [ih, text_of_triplet?_eq_some hp]
  | case5 c a b l hnone ih => simp [ih, Piece.text]

/-- Pieces without a bare `%` are the pieces of their text. -/
theorem pieces_flatMap_text {ps : List Piece} (h : ∀ p ∈ ps, p ≠ .plain '%') :
    pieces (ps.flatMap Piece.text) = ps := by
  induction ps with
  | nil => rfl
  | cons p ps ih =>
    have hps := ih fun q hq => h q (List.mem_cons_of_mem _ hq)
    cases p with
    | plain c =>
      have hc : c ≠ '%' := fun hc => h _ List.mem_cons_self (congrArg Piece.plain hc)
      rw [List.flatMap_cons, Piece.text, List.singleton_append, pieces_cons_of_ne hc, hps]
    | triplet high low => simp [Piece.text, hps]

theorem pieces_append {p : List Char} (hp : '%' ∉ p) (l : List Char) :
    pieces (p ++ l) = p.map Piece.plain ++ pieces l := by
  induction p with
  | nil => rfl
  | cons c p ih =>
    simp only [List.mem_cons, not_or] at hp
    simp [pieces_cons_of_ne (Ne.symm hp.1), ih hp.2]

/-- Somewhere in the text stands a `%` with two hexadecimal digits after it. -/
def HasTriplet (l : List Char) : Prop :=
  ∃ high low : HexDigit, ['%', high.char, low.char] <:+: l

/-- A triplet is not skipped: the two digits of another one are no `%`. -/
theorem exists_isTriplet_of_infix {high low : HexDigit} (l : List Char)
    (h : ['%', high.char, low.char] <:+: l) : ∃ p ∈ pieces l, p.isTriplet := by
  fun_induction pieces l with
  | case1 => simpa using h.length_le
  | case2 c => simpa using h.length_le
  | case3 c a => simpa using h.length_le
  | case4 c a b l p hp ih =>
    refine ⟨p, List.mem_cons_self, ?_⟩
    have htext := text_of_triplet?_eq_some hp
    cases p with
    | plain c => simp [Piece.text] at htext
    | triplet high low => rfl
  | case5 c a b l hnone ih =>
    rcases List.infix_cons_iff.mp h with hprefix | htail
    · obtain ⟨s, hs⟩ := hprefix
      simp only [List.cons_append, List.nil_append, List.cons.injEq] at hs
      obtain ⟨rfl, rfl, rfl, -⟩ := hs
      simp at hnone
    · obtain ⟨p, hp, htriplet⟩ := ih htail
      exact ⟨p, List.mem_cons_of_mem _ hp, htriplet⟩

theorem hasTriplet_iff {l : List Char} : HasTriplet l ↔ ∃ p ∈ pieces l, p.isTriplet := by
  constructor
  · rintro ⟨high, low, h⟩
    exact exists_isTriplet_of_infix l h
  · rintro ⟨p, hp, htriplet⟩
    cases p with
    | plain c => cases htriplet
    | triplet high low =>
      refine ⟨high, low, ?_⟩
      have hinfix := List.infix_of_mem_flatten (List.mem_map_of_mem (f := Piece.text) hp)
      rwa [← List.flatMap_def, flatMap_text_pieces] at hinfix

instance (l : List Char) : Decidable (HasTriplet l) := decidable_of_iff _ hasTriplet_iff.symm

/-! ### Encoding and decoding -/

def percentDecode (l : List Char) : List UInt8 := (pieces l).flatMap Piece.bytes

def percentEncode (isSafe : Char → Bool) (l : List Char) : List Char :=
  ((pieces l).flatMap (Piece.encode isSafe)).flatMap Piece.text

theorem percentDecode_percentEncode {isSafe : Char → Bool} (hsafe : isSafe '%' = false)
    (l : List Char) : percentDecode (percentEncode isSafe l) = percentDecode l := by
  have hbare : ∀ q ∈ (pieces l).flatMap (Piece.encode isSafe), q ≠ .plain '%' := by
    intro q hq
    obtain ⟨p, -, hq⟩ := List.mem_flatMap.mp hq
    exact Piece.ne_percent_of_mem_encode hsafe hq
  rw [percentDecode, percentEncode, pieces_flatMap_text hbare, List.flatMap_assoc]
  simp only [Piece.flatMap_bytes_encode, percentDecode]

theorem percentDecode_append {p : List Char} (hp : '%' ∉ p) (l : List Char) :
    percentDecode (p ++ l) = p.flatMap String.utf8EncodeChar ++ percentDecode l := by
  rw [percentDecode, pieces_append hp, List.flatMap_append, List.flatMap_map]
  rfl

/-- The text with all its unsafe characters encoded, `%` among them. -/
def percentQuote (isSafe : Char → Bool) (l : List Char) : List Char :=
  ((l.map Piece.plain).flatMap (Piece.encode isSafe)).flatMap Piece.text

/-- A quoted text stands for the UTF-8 encoding of the text. -/
theorem percentDecode_percentQuote {isSafe : Char → Bool} (hsafe : isSafe '%' = false)
    (l : List Char) : percentDecode (percentQuote isSafe l) = l.flatMap String.utf8EncodeChar := by
  have hbare : ∀ q ∈ (l.map Piece.plain).flatMap (Piece.encode isSafe), q ≠ .plain '%' := by
    intro q hq
    obtain ⟨p, -, hq⟩ := List.mem_flatMap.mp hq
    exact Piece.ne_percent_of_mem_encode hsafe hq
  rw [percentDecode, percentQuote, pieces_flatMap_text hbare, List.flatMap_assoc]
  simp only [Piece.flatMap_bytes_encode, List.flatMap_map, Piece.bytes]

/-- A text without triplets stands for its UTF-8 encoding. -/
theorem percentDecode_of_not_hasTriplet {l : List Char} (h : ¬ HasTriplet l) :
    percentDecode l = l.flatMap String.utf8EncodeChar := by
  have hplain : ∀ p ∈ pieces l, p.bytes = p.text.flatMap String.utf8EncodeChar := by
    intro p hp
    cases p with
    | plain c => simp [Piece.bytes, Piece.text]
    | triplet high low => exact absurd (hasTriplet_iff.mpr ⟨_, hp, rfl⟩) h
  conv_rhs => rw [← flatMap_text_pieces l, List.flatMap_assoc]
  rw [percentDecode, List.flatMap_def, List.flatMap_def, List.map_congr_left hplain]

/-! ### ASCII characters and bytes -/

def isAsciiChar (c : Char) : Bool := c.toNat < 128

def isAsciiByte (b : UInt8) : Bool := b.toNat < 128

theorem utf8EncodeChar_of_ascii {c : Char} (h : c.toNat < 128) :
    String.utf8EncodeChar c = [UInt8.ofNat c.toNat] := by
  have hval : c.val.toNat ≤ 127 := Nat.le_of_lt_succ h
  exact if_pos hval

/-- The encoding of any other character begins with a byte from `0xC0` on, and bytes from `0x80`
on follow it. -/
theorem le_of_mem_utf8EncodeChar {c : Char} (h : 128 ≤ c.toNat) {b : UInt8}
    (hb : b ∈ String.utf8EncodeChar c) : 128 ≤ b.toNat := by
  have hval : ¬ c.val.toNat ≤ 127 := Nat.not_le_of_lt h
  simp only [String.utf8EncodeChar, hval, if_false] at hb
  split_ifs at hb <;>
  · simp only [List.mem_cons, List.not_mem_nil, or_false] at hb
    rcases hb with rfl | rfl | rfl | rfl <;> simp <;> omega

theorem countP_utf8EncodeChar (c : Char) :
    (String.utf8EncodeChar c).countP isAsciiByte = [c].countP isAsciiChar := by
  by_cases h : c.toNat < 128
  · have hbyte : c.toNat % 256 < 128 := by omega
    simp [utf8EncodeChar_of_ascii h, isAsciiByte, isAsciiChar, h, hbyte]
  · have hnone : (String.utf8EncodeChar c).countP isAsciiByte = 0 := by
      rw [List.countP_eq_zero]
      intro b hb
      simpa [isAsciiByte] using le_of_mem_utf8EncodeChar (not_lt.mp h) hb
    rw [hnone]
    simp [isAsciiChar, not_lt.mp h]

namespace Piece

theorem countP_bytes_lt {p : Piece} (h : p.isTriplet) :
    p.bytes.countP isAsciiByte < p.text.countP isAsciiChar := by
  cases p with
  | plain c => cases h
  | triplet high low =>
    have htext : (triplet high low).text.countP isAsciiChar = 3 := by
      simp [text, isAsciiChar, high.char_toNat_lt, low.char_toNat_lt]
    have hbytes := List.countP_le_length (p := isAsciiByte) (l := (triplet high low).bytes)
    rw [htext]
    exact lt_of_le_of_lt hbytes (by simp [bytes])

theorem countP_bytes_le (p : Piece) : p.bytes.countP isAsciiByte ≤ p.text.countP isAsciiChar := by
  by_cases h : p.isTriplet
  · exact (countP_bytes_lt h).le
  · cases p with
    | plain c => exact (countP_utf8EncodeChar c).le
    | triplet high low => exact absurd rfl h

end Piece

theorem countP_percentDecode_le (l : List Char) :
    (percentDecode l).countP isAsciiByte ≤ l.countP isAsciiChar := by
  conv_rhs => rw [← flatMap_text_pieces l]
  rw [percentDecode, List.countP_flatMap, List.countP_flatMap]
  exact List.sum_le_sum fun p _ => p.countP_bytes_le

/-- A triplet makes one byte of three ASCII characters. -/
theorem countP_percentDecode_lt {l : List Char} (h : HasTriplet l) :
    (percentDecode l).countP isAsciiByte < l.countP isAsciiChar := by
  obtain ⟨p, hp, htriplet⟩ := hasTriplet_iff.mp h
  conv_rhs => rw [← flatMap_text_pieces l]
  rw [percentDecode, List.countP_flatMap, List.countP_flatMap]
  exact List.sum_lt_sum _ _ (fun q _ => q.countP_bytes_le) ⟨p, hp, Piece.countP_bytes_lt htriplet⟩

/-! ### Reading bytes as UTF-8 -/

/-- A total reading of bytes as UTF-8. What it answers where no character begins is left open,
except that it makes no ASCII character of other bytes. -/
structure Utf8Decoder where
  decode : List UInt8 → List Char
  decode_nil : decode [] = []
  decode_utf8EncodeChar_append : ∀ c bytes,
    decode (String.utf8EncodeChar c ++ bytes) = c :: decode bytes
  countP_decode_le : ∀ bytes, (decode bytes).countP isAsciiChar ≤ bytes.countP isAsciiByte

namespace Utf8Decoder

variable (d : Utf8Decoder)

theorem decode_flatMap_append (l : List Char) (bytes : List UInt8) :
    d.decode (l.flatMap String.utf8EncodeChar ++ bytes) = l ++ d.decode bytes := by
  induction l with
  | nil => rfl
  | cons c l ih =>
    rw [List.flatMap_cons, List.append_assoc, d.decode_utf8EncodeChar_append, ih,
      List.cons_append]

theorem decode_flatMap (l : List Char) : d.decode (l.flatMap String.utf8EncodeChar) = l := by
  have h := d.decode_flatMap_append l []
  rwa [d.decode_nil, List.append_nil, List.append_nil] at h

theorem countP_decode_percentDecode_le (l : List Char) :
    (d.decode (percentDecode l)).countP isAsciiChar ≤ l.countP isAsciiChar :=
  (d.countP_decode_le _).trans (countP_percentDecode_le l)

/-- A text is read back from its encoding if and only if it has no triplet. -/
theorem decode_percentDecode_eq_self_iff {l : List Char} :
    d.decode (percentDecode l) = l ↔ ¬ HasTriplet l := by
  constructor
  · intro heq h
    have hlt := (d.countP_decode_le _).trans_lt (countP_percentDecode_lt h)
    rw [heq] at hlt
    exact lt_irrefl _ hlt
  · intro h
    rw [percentDecode_of_not_hasTriplet h, d.decode_flatMap]

/-! A decoder that replaces what it cannot read. -/

/-- Reads `rounds` characters at most; a byte at which none begins counts as one. -/
def decodeReplacing : ℕ → List UInt8 → List Char
  | 0, _ => []
  | _ + 1, [] => []
  | rounds + 1, b :: bytes =>
    match (b :: bytes).toByteArray.utf8DecodeChar? 0 with
    | some c => c :: decodeReplacing rounds ((b :: bytes).drop c.utf8Size)
    | none => Char.ofNat 0xFFFD :: decodeReplacing rounds bytes

theorem decodeReplacing_cons {rounds : ℕ} {c : Char} {bytes : List UInt8} :
    decodeReplacing (rounds + 1) (String.utf8EncodeChar c ++ bytes) =
      c :: decodeReplacing rounds bytes := by
  have hread : (String.utf8EncodeChar c ++ bytes).toByteArray.utf8DecodeChar? 0 = some c := by
    rw [List.toByteArray_append, ByteArray.utf8DecodeChar?_utf8EncodeChar_append]
  have hdrop : (String.utf8EncodeChar c ++ bytes).drop c.utf8Size = bytes := by
    rw [← String.length_utf8EncodeChar, List.drop_left]
  obtain ⟨b, rest, hrest⟩ : ∃ b rest, String.utf8EncodeChar c ++ bytes = b :: rest :=
    List.exists_cons_of_ne_nil (by simp [String.utf8EncodeChar_ne_nil])
  rw [hrest] at hread hdrop ⊢
  simp only [decodeReplacing, hread, hdrop]

/-- What a read character leaves of the bytes. -/
theorem exists_eq_utf8EncodeChar_append {bytes : List UInt8} {c : Char}
    (h : bytes.toByteArray.utf8DecodeChar? 0 = some c) :
    ∃ rest, bytes = String.utf8EncodeChar c ++ rest := by
  obtain ⟨rest, hrest⟩ := ByteArray.exists_of_utf8DecodeChar?_eq_some h
  have hlist := congrArg (fun a => a.data.toList) hrest
  simp only [ByteArray.data_append, Array.toList_append, List.toList_data_toByteArray] at hlist
  exact ⟨_, hlist⟩

theorem decodeReplacing_of_length_le {n m : ℕ} {bytes : List UInt8} (hn : bytes.length ≤ n)
    (hm : bytes.length ≤ m) : decodeReplacing n bytes = decodeReplacing m bytes := by
  induction n generalizing m bytes with
  | zero =>
    obtain rfl := List.eq_nil_of_length_eq_zero (Nat.le_zero.mp hn)
    cases m <;> rfl
  | succ n ih =>
    cases bytes with
    | nil => cases m <;> rfl
    | cons b bytes =>
      obtain ⟨m, rfl⟩ := Nat.exists_eq_add_of_le' (Nat.one_le_of_lt hm)
      simp only [List.length_cons, Nat.add_le_add_iff_right] at hn hm
      cases hread : (b :: bytes).toByteArray.utf8DecodeChar? 0 with
      | none => simp only [decodeReplacing, hread, ih hn hm]
      | some c =>
        have hpos := c.utf8Size_pos
        have hlength : ((b :: bytes).drop c.utf8Size).length ≤ bytes.length := by
          simp only [List.length_drop, List.length_cons]
          omega
        simp only [decodeReplacing, hread, ih (hlength.trans hn) (hlength.trans hm)]

theorem countP_decodeReplacing_le (rounds : ℕ) (bytes : List UInt8) :
    (decodeReplacing rounds bytes).countP isAsciiChar ≤ bytes.countP isAsciiByte := by
  induction rounds generalizing bytes with
  | zero => exact Nat.zero_le _
  | succ rounds ih =>
    cases bytes with
    | nil => exact Nat.zero_le _
    | cons b bytes =>
      cases hread : (b :: bytes).toByteArray.utf8DecodeChar? 0 with
      | none =>
        have hreplacement : isAsciiChar (Char.ofNat 0xFFFD) = false := by decide
        simp only [decodeReplacing, hread, List.countP_cons, hreplacement]
        exact (ih bytes).trans (Nat.le_add_right _ _)
      | some c =>
        obtain ⟨rest, hrest⟩ := exists_eq_utf8EncodeChar_append hread
        rw [hrest, decodeReplacing_cons, List.countP_append, countP_utf8EncodeChar,
          ← List.singleton_append, List.countP_append]
        exact Nat.add_le_add_left (ih rest) _

/-- The decoder that replaces each byte at which no character begins by `U+FFFD`. -/
def replacing : Utf8Decoder where
  decode bytes := decodeReplacing bytes.length bytes
  decode_nil := rfl
  decode_utf8EncodeChar_append c bytes := by
    have hlength : (String.utf8EncodeChar c ++ bytes).length = c.utf8Size - 1 + bytes.length + 1 := by
      have hpos := c.utf8Size_pos
      simp only [List.length_append, String.length_utf8EncodeChar]
      omega
    rw [hlength, decodeReplacing_cons, decodeReplacing_of_length_le (Nat.le_add_left _ _) le_rfl]
  countP_decode_le bytes := countP_decodeReplacing_le _ bytes

end Utf8Decoder

end Library
