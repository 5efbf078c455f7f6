import TagWire.Encoding.Write
import TagWire.Proofs.Wire.Tokens
import TagWire.Proofs.Wire.ZigZags

/-!
Places of signed numbers in the zig-zag order. The words of a width have room for the places of all
numbers of that width, the least included, and each place is taken. A number nearer to zero comes
sooner, so its payload is not longer.
-/

namespace TagWire

namespace ZigZag

-----------------------------------------------------------------------------------------
-- Places of integers
-----------------------------------------------------------------------------------------

/-- The place of a number in the zig-zag order. -/
def place (n : Int) : Int := if 0 ≤ n then 2 * n else -2 * n - 1

/-- The number at a place of the zig-zag order. -/
def numberAt (place : Nat) : Int := if place % 2 = 0 then place / 2 else -(place / 2) - 1

theorem place_numberAt (p : Nat) : place (numberAt p) = p := by
  simp only [place, numberAt]
  split <;> split <;> omega

/-- The numbers of one magnitude have their places after all that are nearer to zero. -/
theorem place_lt_place {n m : Int} (nearer : n.natAbs < m.natAbs) : place n < place m := by
  simp only [place]
  split <;> split <;> omega

-----------------------------------------------------------------------------------------
-- Places of words
-----------------------------------------------------------------------------------------

section Words

variable {w : Nat}

/-- Folding the sign in gives the place, for every word. All that the shift loses is the sign bit of
a negative word, and the exclusive or then takes the complement of what is left of the double.
-/
theorem toNat_fold (x : BitVec w)
    : (((x <<< 1) ^^^ x.sshiftRight (w - 1)).toNat : Int) = place x.toInt := by
  have double : (x <<< 1).toNat = 2 * x.toNat % 2 ^ w := by
    rw [BitVec.toNat_shiftLeft, Nat.shiftLeft_eq, Nat.pow_one, Nat.mul_comm]
  have range := x.isLt
  cases sign : x.msb with
  | false =>
      have below : 2 * x.toNat < 2 ^ w := BitVec.msb_eq_false_iff_two_mul_lt.mp sign
      have number : x.toInt = x.toNat := BitVec.toInt_eq_toNat_of_msb sign
      simp only [sshiftRight_last, sign, Bool.false_eq_true, if_false, BitVec.xor_zero, double,
        Nat.mod_eq_of_lt below, number, place]
      omega
  | true =>
      -- The double is out of range, but by less than the range, which is all that is dropped.
      have above : 2 ^ w ≤ 2 * x.toNat := BitVec.msb_eq_true_iff_two_mul_ge.mp sign
      have number : x.toInt = x.toNat - (2 ^ w : Nat) := by
        rw [BitVec.toInt_eq_msb_cond, if_pos sign]
      have left : 2 * x.toNat % 2 ^ w = 2 * x.toNat - 2 ^ w := by
        rw [Nat.mod_eq_sub_mod above, Nat.mod_eq_of_lt (by omega)]
      simp only [sshiftRight_last, sign, if_true, BitVec.xor_allOnes, BitVec.toNat_not, double,
        left, number, place]
      omega

/-- The lowest bit of a place is what the place leaves when it is halved. -/
theorem and_one (p : BitVec w) : p &&& 1#w = if p.toNat % 2 = 1 then 1#w else 0#w := by
  have lowest : p.getLsbD 0 = decide (p.toNat % 2 = 1) := Nat.testBit_zero p.toNat
  apply BitVec.eq_of_getLsbD_eq
  intro i hi
  split <;> cases i <;> simp_all

/-- Taking the sign out gives the number at the place, for every word: half of the place, or the
complement of that where the lowest bit is set.
-/
theorem toInt_unfold (p : BitVec w)
    : ((p >>> 1) ^^^ -(p &&& 1#w)).toInt = numberAt p.toNat := by
  have range := p.isLt
  have half : (p >>> 1).toNat = p.toNat / 2 := by
    rw [BitVec.toNat_ushiftRight, Nat.shiftRight_eq_div_pow, Nat.pow_one]
  rcases Nat.mod_two_eq_zero_or_one p.toNat with even | odd
  · have number : (p >>> 1).toInt = (p.toNat / 2 : Nat) := by
      rw [BitVec.toInt_eq_toNat_of_lt (by omega), half]
    simp [and_one, number, numberAt, even]
  · have complement : (~~~(p >>> 1)).toNat = 2 ^ w - 1 - p.toNat / 2 := by
      rw [BitVec.toNat_not, half]
    rw [and_one, if_pos odd, BitVec.neg_one_eq_allOnes, BitVec.xor_allOnes,
      BitVec.toInt_eq_toNat_cond, complement, numberAt]
    split <;> omega

theorem fold_unfold (p : BitVec w)
    : (((p >>> 1) ^^^ -(p &&& 1#w)) <<< 1) ^^^ ((p >>> 1) ^^^ -(p &&& 1#w)).sshiftRight (w - 1)
      = p := by
  have place := toNat_fold ((p >>> 1) ^^^ -(p &&& 1#w))
  rw [toInt_unfold, place_numberAt] at place
  exact BitVec.eq_of_toNat_eq (Int.ofNat.inj place)

/-- The sign that is taken out is zero or minus one, so that its negation stays in the range of the
width.
-/
theorem toInt_neg_and_one (p : BitVec w) : (-(p &&& 1#w)).toInt = -(p.toNat % 2 : Nat) := by
  rcases Nat.mod_two_eq_zero_or_one p.toNat with even | odd
  · simp [and_one, even]
  · have positive : 0 < w := by
      rcases Nat.eq_zero_or_pos w with rfl | positive
      · simp [BitVec.of_length_zero] at odd
      · exact positive
    simp [and_one, odd, BitVec.neg_one_eq_allOnes, BitVec.toInt_allOnes, positive]

end Words

/-- The signed words of a width are numbered in the zig-zag order by its unsigned words: each has
the place of its number, and at each place is the word with the number there.
-/
structure Numbered {signed unsigned : Type} (toInt : signed → Int) (toNat : unsigned → Nat)
    (encode : signed → unsigned) (decode : unsigned → signed)
    : Prop where
  place : ∀ n, (toNat (encode n) : Int) = place (toInt n)
  number : ∀ p, toInt (decode p) = numberAt (toNat p)
  decode_encode : ∀ n, decode (encode n) = n
  encode_decode : ∀ p, encode (decode p) = p

theorem Numbered.toNat_place {signed unsigned : Type} {toInt : signed → Int}
    {toNat : unsigned → Nat} {encode : signed → unsigned} {decode : unsigned → signed}
    (h : Numbered toInt toNat encode decode) (n : signed)
    : (ZigZag.place (toInt n)).toNat = toNat (encode n) := by
  rw [← h.place, Int.toNat_natCast]

/-- Words are numbered if their bits are folded and unfolded, whatever their width. -/
theorem numbered_of_bits {w : Nat} {signed unsigned : Type} {bits : signed → BitVec w}
    {places : unsigned → BitVec w} {encode : signed → unsigned} {decode : unsigned → signed}
    (bits_inj : ∀ {n m}, bits n = bits m → n = m)
    (places_inj : ∀ {p q}, places p = places q → p = q)
    (folds : ∀ n, places (encode n) = (bits n <<< 1) ^^^ (bits n).sshiftRight (w - 1))
    (unfolds : ∀ p, bits (decode p) = (places p >>> 1) ^^^ -(places p &&& 1#w))
    : Numbered (fun n => (bits n).toInt) (fun p => (places p).toNat) encode decode where
  place n := by rw [folds, toNat_fold]
  number p := by rw [unfolds, toInt_unfold]
  decode_encode n := bits_inj (by rw [unfolds, folds, unfold_fold])
  encode_decode p := places_inj (by rw [folds, unfolds, fold_unfold])

theorem numbered32 : Numbered Int32.toInt UInt32.toNat encode32 decode32 :=
  numbered_of_bits Int32.toBitVec_inj.mp UInt32.toBitVec_inj.mp
    (fun n => by simp [encode32]) (fun p => by simp [decode32])

theorem numbered64 : Numbered Int64.toInt UInt64.toNat encode64 decode64 :=
  numbered_of_bits Int64.toBitVec_inj.mp UInt64.toBitVec_inj.mp
    (fun n => by simp [encode64]) (fun p => by simp [decode64])

end ZigZag

-----------------------------------------------------------------------------------------
-- Payloads of places
-----------------------------------------------------------------------------------------

namespace Scalar

/-- The number that a scalar is, if its kind is zig-zag coded. -/
def zigZag? : Scalar → Option Int
  | sint32 n => some n.toInt
  | sint64 n => some n.toInt
  | _ => none

/-- A scalar is written as a number in its shortest form, to whichever target. -/
structure WrittenAs (value : Scalar) (n : Nat) : Prop where
  payload : value.payload = Varint.encode n
  length : value.payload.length = Varint.length n
  write
    : ∀ {τ : Type} [Target τ] (output : Output τ),
        (Value.scalar value).write output = output.putVarint n

theorem writtenAs_of_payload {value : Scalar} {n : Nat} (h : value.payload = Varint.encode n)
    : value.WrittenAs n where
  payload := h
  length := by rw [h, Varint.length_eq_length_encode]
  write output := by rw [Value.write, h, Output.putVarint]

/-- Numbers that are zig-zag coded are written as their places, whatever the width. -/
theorem writtenAs_place {value : Scalar} {n : Int} (h : value.zigZag? = some n)
    : value.WrittenAs (ZigZag.place n).toNat := by
  cases value <;> simp only [zigZag?, Option.some.injEq, reduceCtorEq] at h
  case sint32 word =>
    have place := ZigZag.numbered32.toNat_place word
    exact writtenAs_of_payload (by rw [← h, place, payload])
  case sint64 word =>
    have place := ZigZag.numbered64.toNat_place word
    exact writtenAs_of_payload (by rw [← h, place, payload])

/-- The payload of a number is not longer than that of one that is farther from zero. -/
theorem length_payload_le {value other : Scalar} {n m : Int} (hn : value.zigZag? = some n)
    (hm : other.zigZag? = some m) (nearer : n.natAbs < m.natAbs)
    : value.payload.length ≤ other.payload.length := by
  have sooner : (ZigZag.place n).toNat ≤ (ZigZag.place m).toNat :=
    Int.toNat_le_toNat (Int.le_of_lt (ZigZag.place_lt_place nearer))
  calc value.payload.length
    _ = Varint.length (ZigZag.place n).toNat := (writtenAs_place hn).length
    _ ≤ Varint.length (ZigZag.place m).toNat := Varint.length_mono sooner
    _ = other.payload.length := (writtenAs_place hm).length.symm

theorem length_payload_sint32_le (n : Int32) : (sint32 n).payload.length ≤ 5 :=
  Varint.length_encode_le (by decide)
    (Nat.lt_of_lt_of_le (ZigZag.encode32 n).toNat_lt (by decide))

theorem length_payload_sint64_le (n : Int64) : (sint64 n).payload.length ≤ 10 :=
  Varint.length_encode_le (by decide)
    (Nat.lt_of_lt_of_le (ZigZag.encode64 n).toNat_lt (by decide))

end Scalar

namespace ZigZag

/-- At both widths all signed words are numbered in the zig-zag order by all unsigned words, and the
sign that is taken out of a place is negated without overflow. What is written of a number is its
place, so that the payload of a number nearer to zero is not longer; and none is longer than five
bytes at 32 bits and ten at 64.
-/
theorem numbering_exact
    : Numbered Int32.toInt UInt32.toNat encode32 decode32
      ∧ Numbered Int64.toInt UInt64.toNat encode64 decode64
      ∧ (∀ p : UInt32, (-(p &&& 1).toInt32).toInt = -(p.toNat % 2 : Nat))
      ∧ (∀ p : UInt64, (-(p &&& 1).toInt64).toInt = -(p.toNat % 2 : Nat))
      ∧ (∀ (value : Scalar) (n : Int),
          value.zigZag? = some n → value.WrittenAs (place n).toNat)
      ∧ (∀ (value other : Scalar) (n m : Int),
          value.zigZag? = some n
          → other.zigZag? = some m
          → n.natAbs < m.natAbs
          → value.payload.length ≤ other.payload.length)
      ∧ (∀ n : Int32, (Scalar.sint32 n).payload.length ≤ 5)
      ∧ ∀ n : Int64, (Scalar.sint64 n).payload.length ≤ 10 := by
  refine ⟨numbered32, numbered64, fun p => ?_, fun p => ?_,
    fun _ _ h => Scalar.writtenAs_place h, fun _ _ _ _ hn hm h => Scalar.length_payload_le hn hm h,
    Scalar.length_payload_sint32_le, Scalar.length_payload_sint64_le⟩
  · exact toInt_neg_and_one p.toBitVec
  · exact toInt_neg_and_one p.toBitVec

/-- The least number of 32 bits has the last place of that width, as that of 64 bits has of its own.
The number below it is two places further on in the wider words, and takes as many bytes.
-/
theorem numbering_exact_least
    : encode32 (decode32 4294967295) = 4294967295
      ∧ ((encode32 Int32.minValue).toNat : Int) = 4294967295
      ∧ ((encode64 Int64.minValue).toNat : Int) = 18446744073709551615
      ∧ (Scalar.sint32 Int32.minValue).zigZag? = some (-2147483648)
      ∧ (Scalar.sint64 (-2147483649)).zigZag? = some (-2147483649)
      ∧ (Scalar.sint64 (-2147483649)).payload = [0x81, 0x80, 0x80, 0x80, 0x10]
      ∧ (Scalar.sint32 Int32.minValue).payload.length
        ≤ (Scalar.sint64 (-2147483649)).payload.length
      ∧ (Scalar.sint64 Int64.minValue).payload.length ≤ 10 := by
  obtain ⟨words32, words64, _, _, written, shorter, _, most⟩ := numbering_exact
  have least : (Scalar.sint32 Int32.minValue).zigZag? = some (-2147483648) := by decide
  have below : (Scalar.sint64 (-2147483649)).zigZag? = some (-2147483649) := by decide
  refine ⟨words32.encode_decode _, words32.place _, words64.place _, least, below, ?_,
    shorter _ _ _ _ least below (by decide), most _⟩
  have place : (place (-2147483649)).toNat = 4294967297 := by decide
  rw [(written _ _ below).payload, place]
  simp [Varint.encode]

end ZigZag

end TagWire
