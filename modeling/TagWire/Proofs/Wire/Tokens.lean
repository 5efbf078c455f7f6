import Mathlib.Algebra.Group.Nat.Defs
import TagWire.Proofs.Wire.Cuts
import TagWire.Wire.Varint
import TagWire.Wire.Word

/-!
Varints and words as stretches of bytes. A varint goes up to its first byte without the high bit;
it may be longer than its number needs, but has ten bytes at most, and its number fits in 64 bits.
-/

namespace TagWire

/-- The bytes up to a count, and those after them; none if there are fewer. -/
def takeExactly? (count : Nat) (bytes : Bytes) : Option (Bytes × Bytes) :=
  if count ≤ bytes.length then some (bytes.take count, bytes.drop count) else none

theorem takeExactly?_eq_some_iff {count : Nat} {bytes token rest : Bytes}
    : takeExactly? count bytes = some (token, rest)
      ↔ bytes = token ++ rest ∧ token.length = count := by
  unfold takeExactly?
  constructor
  · intro h
    split at h
    · next hle =>
        obtain ⟨rfl, rfl⟩ := Prod.mk.inj (Option.some.inj h)
        exact ⟨(List.take_append_drop count bytes).symm, by simp [hle]⟩
    · simp at h
  · rintro ⟨rfl, rfl⟩
    simp

theorem takeExactly?_append (token more : Bytes)
    : takeExactly? token.length (token ++ more) = some (token, more) :=
  takeExactly?_eq_some_iff.mpr ⟨rfl, rfl⟩

namespace Varint

/-- The number that the bytes of a varint spell. -/
def value : Bytes → Nat
  | [] => 0
  | byte :: rest => byte.toNat % 128 + 128 * value rest

/-- The bytes up to the first without the high bit, and those after it. -/
def cut? : Bytes → Option (Bytes × Bytes)
  | [] => none
  | byte :: rest =>
      if byte < 128 then some ([byte], rest)
      else (cut? rest).map (fun cut => (byte :: cut.1, cut.2))

/-- Whether a varint is no longer than allowed and its number not too wide. -/
def Fits (token : Bytes) : Prop := token.length ≤ maxLength ∧ value token < 2 ^ 64

instance (token : Bytes) : Decidable (Fits token) := inferInstanceAs (Decidable (_ ∧ _))

/-- Whether the rest of a varint is no longer than the bytes that are left, and no wider than what
these have room for: a single bit in the last of all and seven in those before it.
-/
def Within (left : Nat) (token : Bytes) : Prop :=
  token.length ≤ left ∧ value token < 2 * 128 ^ (left - 1)

instance (left : Nat) (token : Bytes) : Decidable (Within left token) :=
  inferInstanceAs (Decidable (_ ∧ _))

theorem within_maxLength (token : Bytes) : Within maxLength token ↔ Fits token := by
  have hwide : 2 * 128 ^ (maxLength - 1) = 2 ^ 64 := by decide
  rw [Within, hwide, Fits]

theorem not_within_zero {token : Bytes} (hne : token ≠ []) : ¬ Within 0 token :=
  fun h => hne (List.eq_nil_of_length_eq_zero (Nat.le_zero.mp h.1))

theorem within_singleton {left : Nat} {byte : UInt8} (hlow : byte < 128)
    : Within (left + 1) [byte] ↔ ¬ (left = 0 ∧ 1 < byte) := by
  have hlow' : byte.toNat < 128 := UInt8.lt_iff_toNat_lt.mp hlow
  have hone : 1 < byte ↔ 1 < byte.toNat := UInt8.lt_iff_toNat_lt.trans Iff.rfl
  have hvalue : value [byte] = byte.toNat := by
    simp only [value]
    omega
  rw [Within, hvalue, hone, List.length_singleton, Nat.add_sub_cancel]
  rcases Nat.eq_zero_or_pos left with rfl | hpos
  · simp only [Nat.pow_zero, true_and]
    omega
  · have hroom : 128 ≤ 128 ^ left := Nat.le_self_pow (Nat.ne_of_gt hpos) 128
    omega

theorem within_cons {left : Nat} {byte : UInt8} {token : Bytes} (hhigh : ¬ byte < 128)
    (hne : token ≠ [])
    : Within (left + 1) (byte :: token) ↔ Within left token := by
  have hpos : 0 < token.length := List.length_pos_iff.mpr hne
  have hhigh' : ¬ byte.toNat < 128 := fun hl => hhigh (UInt8.lt_iff_toNat_lt.mpr hl)
  have hbound := byte.toNat_lt
  rw [Within, Within, value, List.length_cons, Nat.add_sub_cancel]
  rcases Nat.eq_zero_or_pos left with rfl | hleft
  · omega
  · have hpow : 128 ^ left = 128 * 128 ^ (left - 1) := by
      rw [← Nat.pow_succ', Nat.succ_eq_add_one, Nat.sub_add_cancel hleft]
    rw [hpow]
    omega

/-- The varint at the front of some bytes, and the bytes after it. -/
def take? (bytes : Bytes) : Option (Bytes × Bytes) :=
  (cut? bytes).filter (fun cut => Fits cut.1)

theorem cut?_cuts : CutsFront cut? id where
  nonempty {bytes token rest} h := by
    cases bytes with
    | nil => simp [cut?] at h
    | cons byte bytes =>
        simp only [cut?] at h
        split at h
        · obtain ⟨rfl, rfl⟩ := Prod.mk.inj (Option.some.inj h)
          simp
        · obtain ⟨cut, hc, he⟩ := Option.map_eq_some_iff.mp h
          obtain ⟨rfl, rfl⟩ := Prod.mk.inj he
          simp
  divides {bytes token rest} h := by
    induction bytes generalizing token with
    | nil => simp [cut?] at h
    | cons byte bytes ih =>
        simp only [cut?] at h
        split at h
        · obtain ⟨rfl, rfl⟩ := Prod.mk.inj (Option.some.inj h)
          rfl
        · obtain ⟨cut, hc, he⟩ := Option.map_eq_some_iff.mp h
          obtain ⟨rfl, rfl⟩ := Prod.mk.inj he
          simp only [id_eq, List.cons_append, List.cons.injEq, true_and]
          exact ih hc
  anywhere {bytes token rest} h more := by
    induction bytes generalizing token with
    | nil => simp [cut?] at h
    | cons byte bytes ih =>
        simp only [cut?] at h
        split at h
        · next hb =>
            obtain ⟨rfl, rfl⟩ := Prod.mk.inj (Option.some.inj h)
            simp [cut?, hb]
        · next hb =>
            obtain ⟨cut, hc, he⟩ := Option.map_eq_some_iff.mp h
            obtain ⟨rfl, rfl⟩ := Prod.mk.inj he
            have hrest := ih hc
            simp only [id_eq] at hrest
            simp [cut?, hb, hrest]

theorem take?_eq_some_iff {bytes token rest : Bytes}
    : take? bytes = some (token, rest) ↔ cut? bytes = some (token, rest) ∧ Fits token := by
  simp [take?, Option.filter_eq_some_iff]

theorem take?_cuts : CutsFront take? id where
  nonempty h := cut?_cuts.nonempty (take?_eq_some_iff.mp h).1
  divides h := cut?_cuts.divides (take?_eq_some_iff.mp h).1
  anywhere h more := by
    obtain ⟨hc, hf⟩ := take?_eq_some_iff.mp h
    exact take?_eq_some_iff.mpr ⟨cut?_cuts.anywhere hc more, hf⟩

theorem encode_of_lt {n : Nat} (h : n < 128) : encode n = [UInt8.ofNat n] := by
  rw [encode, if_pos h]

theorem encode_of_le {n : Nat} (h : 128 ≤ n)
    : encode n = UInt8.ofNat (n % 128 + 128) :: encode (n / 128) := by
  rw [encode, if_neg (Nat.not_lt.mpr h)]

theorem value_encode (n : Nat) : value (encode n) = n := by
  induction n using Nat.strongRecOn with
  | ind n ih =>
      rcases Nat.lt_or_ge n 128 with h | h
      · simp only [encode_of_lt h, value, UInt8.toNat_ofNat']
        omega
      · simp only [encode_of_le h, value, UInt8.toNat_ofNat', ih (n / 128) (by omega)]
        omega

theorem cut?_encode_append (n : Nat) (more : Bytes)
    : cut? (encode n ++ more) = some (encode n, more) := by
  induction n using Nat.strongRecOn with
  | ind n ih =>
      rcases Nat.lt_or_ge n 128 with h | h
      · have hb : UInt8.ofNat n < 128 := by
          rw [UInt8.lt_iff_toNat_lt, UInt8.toNat_ofNat']
          simp only [UInt8.toNat_ofNat]
          omega
        simp [encode_of_lt h, cut?, hb]
      · have hb : ¬ UInt8.ofNat (n % 128 + 128) < 128 := by
          rw [UInt8.lt_iff_toNat_lt, UInt8.toNat_ofNat']
          simp only [UInt8.toNat_ofNat]
          omega
        rw [encode_of_le h, List.cons_append, cut?, if_neg hb, ih (n / 128) (by omega)]
        rfl

theorem length_encode_le {n count : Nat} (hp : 0 < count) (h : n < 128 ^ count)
    : (encode n).length ≤ count := by
  induction count generalizing n with
  | zero => omega
  | succ count ih =>
      rcases Nat.lt_or_ge n 128 with hn | hn
      · simp [encode_of_lt hn]
      · rw [encode_of_le hn, List.length_cons]
        have hd : n / 128 < 128 ^ count :=
          Nat.div_lt_of_lt_mul (by rwa [Nat.pow_succ, Nat.mul_comm] at h)
        have hc : 0 < count := by
          rcases Nat.eq_zero_or_pos count with rfl | hc
          · simp at hd
            omega
          · exact hc
        have := ih hc hd
        omega

theorem fits_encode {n : Nat} (h : n < 2 ^ 64) : Fits (encode n) := by
  refine ⟨length_encode_le (by decide) (Nat.lt_of_lt_of_le h (by decide)), ?_⟩
  rwa [value_encode]

/-- Every group of seven bits takes one byte, so the length can be told from the highest bit. -/
theorem length_eq_length_encode (n : Nat) : length n = (encode n).length := by
  induction n using Nat.strongRecOn with
  | ind n ih =>
      rcases Nat.lt_or_ge n 128 with h | h
      · have hlog : n.log2 < 7 := by
          rcases Nat.eq_zero_or_pos n with rfl | hp
          · decide
          · exact (Nat.log2_lt (Nat.ne_of_gt hp)).mpr h
        simp only [length, encode_of_lt h, List.length_singleton]
        omega
      · have hd : n / 128 ≠ 0 := by omega
        have hlog : n.log2 = (n / 128).log2 + 7 := by
          obtain ⟨hlow, hhigh⟩ := (Nat.log2_eq_iff hd).mp rfl
          refine (Nat.log2_eq_iff (by omega)).mpr ?_
          have hpow : 2 ^ ((n / 128).log2 + 7) = 128 * 2 ^ (n / 128).log2 := by
            rw [Nat.pow_add, Nat.mul_comm]
          have hpow' : 2 ^ ((n / 128).log2 + 7 + 1) = 128 * 2 ^ ((n / 128).log2 + 1) := by
            rw [Nat.add_right_comm, Nat.pow_add, Nat.mul_comm]
          omega
        have hrest := ih (n / 128) (by omega)
        simp only [length] at hrest ⊢
        rw [encode_of_le h, List.length_cons, ← hrest, hlog]
        omega

theorem length_mono {n m : Nat} (h : n ≤ m) : length n ≤ length m := by
  have log : n.log2 ≤ m.log2 := by
    rcases Nat.eq_zero_or_pos n with rfl | positive
    · simp
    · have power : 2 ^ n.log2 ≤ m := Nat.le_trans (Nat.log2_self_le (Nat.ne_of_gt positive)) h
      exact (Nat.le_log2 (by omega)).mpr power
  exact Nat.succ_le_succ (Nat.div_le_div_right log)

/-- A number of 64 bits is cut off again in its shortest form. -/
theorem take?_encode_append {n : Nat} (h : n < 2 ^ 64) (more : Bytes)
    : take? (encode n ++ more) = some (encode n, more) :=
  take?_eq_some_iff.mpr ⟨cut?_encode_append n more, fits_encode h⟩

end Varint

end TagWire
