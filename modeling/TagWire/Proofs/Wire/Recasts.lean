import TagWire.Proofs.Wire.Scalars

/-!
Scalars that are written by one kind and read by another. Which bytes stand for a scalar depends on
little of its kind, so a number may be read by a wider kind, or a word by another kind of its width.
-/

namespace TagWire

namespace Scalar

/-- The number that a scalar is, if its kind is one of plain numbers. -/
def number? : Scalar → Option Int
  | int32 n => some n.toInt
  | int64 n => some n.toInt
  | uint32 n => some n.toNat
  | uint64 n => some n.toNat
  | _ => none

/-- The number that is written of a scalar whose kind is that of a varint. -/
def emitted (value : Scalar) : Nat := Varint.value value.payload

/-- The bits of a scalar that is a word of 32 of them. -/
def bits32? : Scalar → Option UInt32
  | fixed32 n => some n
  | sfixed32 n => some n.toUInt32
  | float bits => some bits
  | _ => none

/-- The bits of a scalar that is a word of 64 of them. -/
def bits64? : Scalar → Option UInt64
  | fixed64 n => some n
  | sfixed64 n => some n.toUInt64
  | double bits => some bits
  | _ => none

/-- What a scalar is to be read as by another kind than its own. -/
inductive ReadAs : Scalar → Kind → Scalar → Prop
  | int64 {n : Int32} {m : Int64} (same : m.toInt = n.toInt) : ReadAs (.int32 n) .int64 (.int64 m)
  | enum {n : Int32} {name : String} : ReadAs (.int32 n) (.enum name) (.enum n)
  | int32 {n : Int64} {m : Int32} (reduced : m.toInt = n.toInt.bmod (2 ^ 32))
    : ReadAs (.int64 n) .int32 (.int32 m)
  | uint64 {n : UInt32} {m : UInt64} (same : m.toNat = n.toNat)
    : ReadAs (.uint32 n) .uint64 (.uint64 m)
  | sint64 {n : Int32} {m : Int64} (same : m.toInt = n.toInt)
    : ReadAs (.sint32 n) .sint64 (.sint64 m)
  | ofBool {b : Bool} {kind : Kind} {read : Scalar} (ofKind : read.isOfKind kind = true)
    (number : read.number? = some (if b then 1 else 0))
    : ReadAs (.bool b) kind read
  | toBool {value : Scalar} {n : Int} {b : Bool} (number : value.number? = some n)
    (nonzero : b = true ↔ value.emitted ≠ 0)
    : ReadAs value .bool (.bool b)
  | word32 {value read : Scalar} {kind : Kind} {bits : UInt32} (ofKind : read.isOfKind kind = true)
    (written : value.bits32? = some bits) (same : read.bits32? = some bits)
    : ReadAs value kind read
  | word64 {value read : Scalar} {kind : Kind} {bits : UInt64} (ofKind : read.isOfKind kind = true)
    (written : value.bits64? = some bits) (same : read.bits64? = some bits)
    : ReadAs value kind read

theorem ReadAs.eq_int64 {n : Int32} {read : Scalar} (h : ReadAs (.int32 n) .int64 read)
    : read = .int64 n.toInt64 := by
  cases h with
  | int64 same => rw [Int64.toInt_inj.mp (same.trans (Int32.toInt_toInt64 n).symm)]
  | word32 _ written _ => cases written
  | word64 _ written _ => cases written

end Scalar

namespace Kind

/-- A kind of plain numbers. -/
inductive OfNumbers : Kind → Prop
  | int32 : OfNumbers .int32
  | int64 : OfNumbers .int64
  | uint32 : OfNumbers .uint32
  | uint64 : OfNumbers .uint64

/-- Values of one kind may be read by another. -/
inductive Recasts : Kind → Kind → Prop
  | int32_int64 : Recasts .int32 .int64
  | int32_enum (name : String) : Recasts .int32 (.enum name)
  | int64_int32 : Recasts .int64 .int32
  | uint32_uint64 : Recasts .uint32 .uint64
  | sint32_sint64 : Recasts .sint32 .sint64
  | ofBool {kind : Kind} (h : kind.OfNumbers) : Recasts .bool kind
  | toBool {kind : Kind} (h : kind.OfNumbers) : Recasts kind .bool
  | word32 {kind other : Kind} (h : kind.wireKind = .fixed32) (ho : other.wireKind = .fixed32)
    : Recasts kind other
  | word64 {kind other : Kind} (h : kind.wireKind = .fixed64) (ho : other.wireKind = .fixed64)
    : Recasts kind other

variable {kind other : Kind} {value : Scalar}

theorem Recasts.wireKind_eq (h : kind.Recasts other) : other.wireKind = kind.wireKind := by
  cases h with
  | ofBool h => cases h <;> rfl
  | toBool h => cases h <;> rfl
  | word32 h ho => rw [h, ho]
  | word64 h ho => rw [h, ho]
  | _ => rfl

/-- Neither kind is that of values with a length of their own. -/
theorem Recasts.isPackable (h : kind.Recasts other) : other.isPackable = true := by
  cases h with
  | ofBool h => cases h <;> rfl
  | toBool _ => rfl
  | word32 _ ho => rw [Kind.isPackable, ho]; rfl
  | word64 _ ho => rw [Kind.isPackable, ho]; rfl
  | _ => rfl

-----------------------------------------------------------------------------------------
-- Words
-----------------------------------------------------------------------------------------

theorem exists_bits32 (h : kind.wireKind = .fixed32) (hv : value.isOfKind kind = true)
    : ∃ bits, value.bits32? = some bits ∧ value.toPayload.content = Word.encode 4 bits.toNat := by
  cases kind <;> simp only [wireKind, reduceCtorEq] at h <;>
    cases value <;> simp only [Scalar.isOfKind, Bool.false_eq_true] at hv <;> exact ⟨_, rfl, rfl⟩

theorem exists_bits64 (h : kind.wireKind = .fixed64) (hv : value.isOfKind kind = true)
    : ∃ bits, value.bits64? = some bits ∧ value.toPayload.content = Word.encode 8 bits.toNat := by
  cases kind <;> simp only [wireKind, reduceCtorEq] at h <;>
    cases value <;> simp only [Scalar.isOfKind, Bool.false_eq_true] at hv <;> exact ⟨_, rfl, rfl⟩

theorem scalar?_word32 (h : kind.wireKind = .fixed32) (bits : UInt32)
    : ∃ read,
        kind.scalar? (Word.encode 4 bits.toNat) = some read
        ∧ read.isOfKind kind = true
        ∧ read.bits32? = some bits := by
  cases kind <;> simp only [wireKind, reduceCtorEq] at h <;>
    exact ⟨_, rfl, rfl, by simp [Scalar.bits32?, Word.decode_encode32]⟩

theorem scalar?_word64 (h : kind.wireKind = .fixed64) (bits : UInt64)
    : ∃ read,
        kind.scalar? (Word.encode 8 bits.toNat) = some read
        ∧ read.isOfKind kind = true
        ∧ read.bits64? = some bits := by
  cases kind <;> simp only [wireKind, reduceCtorEq] at h <;>
    exact ⟨_, rfl, rfl, by simp [Scalar.bits64?, Word.decode_encode64]⟩

-----------------------------------------------------------------------------------------
-- Numbers
-----------------------------------------------------------------------------------------

/-- A number of 64 bits that is read by the lower 32 is the number that conversion cuts it to. -/
theorem toInt32_toUInt64 (n : Int64) : n.toUInt64.toUInt32.toInt32 = n.toInt32 := by
  apply Int32.toBitVec_inj.mp
  simpa using (BitVec.signExtend_eq_setWidth_of_le n.toBitVec (by decide : 32 ≤ 64)).symm

/-- The payload of a plain number spells the number that is written. -/
theorem OfNumbers.toPayload (h : kind.OfNumbers) (hv : value.isOfKind kind = true)
    : ∃ n, value.number? = some n ∧ value.toPayload.content = value.payload := by
  cases h <;> cases value <;> simp only [Scalar.isOfKind, Bool.false_eq_true] at hv <;>
    exact ⟨_, rfl, rfl⟩

/-- The byte of a truth value spells zero or one in every kind of plain numbers. -/
theorem OfNumbers.scalar?_bool (h : kind.OfNumbers) (b : Bool)
    : ∃ read,
        kind.scalar? (Scalar.bool b).toPayload.content = some read
        ∧ read.isOfKind kind = true
        ∧ read.number? = some (if b then 1 else 0) := by
  cases h <;> cases b <;> exact ⟨_, rfl, rfl, by decide⟩

/-- A scalar is read by another kind as the table says. -/
theorem Recasts.exists_readAs (h : kind.Recasts other) (hv : value.isOfKind kind = true)
    : ∃ read, other.scalar? value.toPayload.content = some read ∧ value.ReadAs other read := by
  cases h with
  | int32_int64 =>
      cases value <;> simp only [Scalar.isOfKind, Bool.false_eq_true] at hv
      case int32 n =>
        refine ⟨_, rfl, .int64 ?_⟩
        simp [Scalar.toPayload, Scalar.payload, Varint.value_encode]
  | int32_enum name =>
      cases value <;> simp only [Scalar.isOfKind, Bool.false_eq_true] at hv
      case int32 n =>
        have spells : (Kind.enum name).scalar? (Scalar.enum n).toPayload.content = some (.enum n) :=
          Scalar.scalar?_toPayload rfl
        exact ⟨_, spells, .enum⟩
  | int64_int32 =>
      cases value <;> simp only [Scalar.isOfKind, Bool.false_eq_true] at hv
      case int64 n =>
        refine ⟨_, rfl, .int32 ?_⟩
        simp [Scalar.toPayload, Scalar.payload, Varint.value_encode, toInt32_toUInt64]
  | uint32_uint64 =>
      cases value <;> simp only [Scalar.isOfKind, Bool.false_eq_true] at hv
      case uint32 n =>
        refine ⟨_, rfl, .uint64 ?_⟩
        simp [Scalar.toPayload, Scalar.payload, Varint.value_encode]
  | sint32_sint64 =>
      cases value <;> simp only [Scalar.isOfKind, Bool.false_eq_true] at hv
      case sint32 n =>
        refine ⟨_, rfl, .sint64 ?_⟩
        simp [Scalar.toPayload, Scalar.payload, Varint.value_encode, ← ZigZag.encode64_toInt64,
          ZigZag.decode64_encode64]
  | ofBool h =>
      cases value <;> simp only [Scalar.isOfKind, Bool.false_eq_true] at hv
      case bool b =>
        obtain ⟨read, spells, ofKind, number⟩ := h.scalar?_bool b
        exact ⟨read, spells, .ofBool ofKind number⟩
  | toBool h =>
      obtain ⟨n, number, content⟩ := h.toPayload hv
      refine ⟨_, rfl, .toBool number ?_⟩
      rw [content, Scalar.emitted, bne_iff_ne]
  | word32 h ho =>
      obtain ⟨bits, written, content⟩ := exists_bits32 h hv
      obtain ⟨read, spells, ofKind, same⟩ := scalar?_word32 ho bits
      exact ⟨read, content ▸ spells, .word32 ofKind written same⟩
  | word64 h ho =>
      obtain ⟨bits, written, content⟩ := exists_bits64 h hv
      obtain ⟨read, spells, ofKind, same⟩ := scalar?_word64 ho bits
      exact ⟨read, content ▸ spells, .word64 ofKind written same⟩

end Kind

end TagWire
