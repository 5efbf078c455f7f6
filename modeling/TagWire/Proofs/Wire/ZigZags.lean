import TagWire.Wire.ZigZag

/-!
Zig-zag numbering loses nothing. The argument is about the bits of a word of any width: the sign,
spread over the word, is folded in by the exclusive or and taken out again by the same.
-/

namespace TagWire.ZigZag

variable {w : Nat}

/-- An arithmetic shift by all but one bit leaves the sign at every place. -/
theorem sshiftRight_last (x : BitVec w)
    : x.sshiftRight (w - 1) = if x.msb then BitVec.allOnes w else 0#w := by
  apply BitVec.eq_of_getLsbD_eq
  intro i hi
  have hsign : (if w - 1 + i < w then x.getLsbD (w - 1 + i) else x.msb) = x.msb := by
    split
    · next h =>
        obtain rfl : i = 0 := by omega
        simp [BitVec.msb_eq_getLsbD_last]
    · rfl
  rw [BitVec.getLsbD_sshiftRight, hsign]
  cases x.msb <;> simp [hi]

/-- The lowest bit of a place is the sign of the number. -/
theorem fold_and_one (x : BitVec w)
    : ((x <<< 1) ^^^ x.sshiftRight (w - 1)) &&& 1#w = if x.msb then 1#w else 0#w := by
  rw [sshiftRight_last x]
  apply BitVec.eq_of_getLsbD_eq
  intro i hi
  cases x.msb <;> cases i <;> simp_all

/-- Folding the sign in and taking it out again gives the word back, bit by bit: the bits moved up
are moved down, and the bit that falls out at the top is the sign itself.
-/
theorem unfold_fold (x : BitVec w)
    : (((x <<< 1) ^^^ x.sshiftRight (w - 1)) >>> 1)
        ^^^ -(((x <<< 1) ^^^ x.sshiftRight (w - 1)) &&& 1#w)
      = x := by
  rw [fold_and_one x, sshiftRight_last x]
  apply BitVec.eq_of_getLsbD_eq
  intro i hi
  by_cases h : 1 + i < w
  · cases x.msb <;> simp [BitVec.neg_one_eq_allOnes, hi, h]
  · have last : x.getLsbD i = x.msb := by
      rw [BitVec.msb_eq_getLsbD_last, show i = w - 1 by omega]
    rw [last]
    cases x.msb <;> simp [BitVec.neg_one_eq_allOnes, hi, h]

theorem decode32_encode32 (n : Int32) : decode32 (encode32 n) = n := by
  apply Int32.toBitVec_inj.mp
  simpa [decode32, encode32] using unfold_fold n.toBitVec

theorem decode64_encode64 (n : Int64) : decode64 (encode64 n) = n := by
  apply Int64.toBitVec_inj.mp
  simpa [decode64, encode64] using unfold_fold n.toBitVec

/-- Folding the sign in is the same at any width that the word is spread to, bit by bit: above the
word there is only the sign, which the exclusive or takes out.
-/
theorem fold_signExtend {v : Nat} (hw : 0 < w) (hv : w ≤ v) (x : BitVec w)
    : (x.signExtend v <<< 1) ^^^ (x.signExtend v).sshiftRight (v - 1)
      = ((x <<< 1) ^^^ x.sshiftRight (w - 1)).setWidth v := by
  have sign : (x.signExtend v).msb = x.msb := by
    rw [BitVec.msb_eq_getLsbD_last, BitVec.getLsbD_signExtend]
    have hlast : v - 1 < v := by omega
    by_cases h : v - 1 < w
    · rw [if_pos h, BitVec.msb_eq_getLsbD_last, show w - 1 = v - 1 by omega]
      simp [hlast]
    · simp [hlast, h]
  have last : x.getLsbD (w - 1) = x.msb := (BitVec.msb_eq_getLsbD_last x).symm
  rw [sshiftRight_last, sshiftRight_last, sign]
  apply BitVec.eq_of_getLsbD_eq
  intro i hi
  rw [BitVec.getLsbD_setWidth, BitVec.getLsbD_xor, BitVec.getLsbD_xor, BitVec.getLsbD_shiftLeft,
    BitVec.getLsbD_shiftLeft, BitVec.getLsbD_signExtend]
  rcases Nat.lt_trichotomy i w with hlt | rfl | hlt
  · have hbelow : i - 1 < w := by omega
    have hinside : i - 1 < v := by omega
    cases x.msb <;> simp [hi, hlt, hbelow, hinside]
  · have hbelow : i - 1 < i := by omega
    have hinside : i - 1 < v := by omega
    have hpos : ¬ i < 1 := by omega
    rw [if_pos hbelow, last]
    cases x.msb <;> simp [hi, hinside, hpos]
  · have hbelow : ¬ i - 1 < w := by omega
    have hinside : i - 1 < v := by omega
    have hout : ¬ i < w := by omega
    have hpos : ¬ i < 1 := by omega
    rw [if_neg hbelow]
    cases x.msb <;> simp [hi, hinside, hout, hpos]

/-- A number has the same place among those of 64 bits as among those of 32. -/
theorem encode64_toInt64 (n : Int32) : (encode64 n.toInt64).toNat = (encode32 n).toNat := by
  have widened : (encode64 n.toInt64).toBitVec = (encode32 n).toBitVec.setWidth 64 := by
    simpa [encode64, encode32] using
      fold_signExtend (by decide) (by decide : 32 ≤ 64) n.toBitVec
  have fits : (encode32 n).toBitVec.toNat < 2 ^ 64 :=
    Nat.lt_trans (encode32 n).toNat_lt (by decide)
  rw [← UInt64.toNat_toBitVec, widened, BitVec.toNat_setWidth, Nat.mod_eq_of_lt fits,
    UInt32.toNat_toBitVec]

end TagWire.ZigZag
