import TagWire.Proofs.Wire.Tokens
import TagWire.Record.Unknown

/-!
Units as stretches of bytes. Bytes divide into units without regard to any schema: the wire kind
in a unit's key says where the unit ends.
-/

namespace TagWire

/-- The payload of a unit. A delimited payload has its length, as it was written, before its
content; any other has none.
-/
structure Payload where
  length : Bytes
  content : Bytes
  deriving DecidableEq, Repr

/-- All bytes of a payload. -/
def Payload.bytes (payload : Payload) : Bytes := payload.length ++ payload.content

/-- The payload at the front of some bytes, by its wire kind, and the bytes after it. -/
def WireKind.payload? : WireKind → Bytes → Option (Payload × Bytes)
  | .varint, bytes => (Varint.take? bytes).map (fun cut => (⟨[], cut.1⟩, cut.2))
  | .fixed64, bytes => (takeExactly? 8 bytes).map (fun cut => (⟨[], cut.1⟩, cut.2))
  | .fixed32, bytes => (takeExactly? 4 bytes).map (fun cut => (⟨[], cut.1⟩, cut.2))
  | .lengthDelimited, bytes =>
      (Varint.take? bytes).bind (fun length =>
        (takeExactly? (Varint.value length.1) length.2).map (fun cut =>
          (⟨length.1, cut.1⟩, cut.2)))

/-- A unit as it stands in a sequence of bytes. -/
structure WireUnit where
  tag : Nat
  wire : WireKind
  key : Bytes
  payload : Payload
  deriving DecidableEq, Repr

namespace WireUnit

/-- All bytes of a unit. -/
def bytes (unit : WireUnit) : Bytes := unit.key ++ unit.payload.bytes

/-- A unit as it is kept when it is not understood. -/
def raw (unit : WireUnit) : RawUnit := ⟨unit.tag, unit.wire, unit.bytes⟩

/-- The unit at the front of some bytes, and the bytes after it. Its tag has to be legal and its
wire kind known.
-/
def first? (bytes : Bytes) : Option (WireUnit × Bytes) :=
  (Varint.take? bytes).bind (fun key =>
    let (tag, code) := Key.split (Varint.value key.1)
    if tag = 0 ∨ maxTag < tag then none
    else
      (WireKind.ofCode? code).bind (fun wire =>
        (wire.payload? key.2).map (fun payload => (⟨tag, wire, key.1, payload.1⟩, payload.2))))

/-- All units of some bytes, in order. -/
def units? (bytes : Bytes) : Option (List WireUnit) := cutAll? first? bytes

end WireUnit

theorem takeExactly?_cuts {count : Nat} (hc : 0 < count)
    : CutsFront (takeExactly? count) id where
  nonempty h := by
    have hlen := (takeExactly?_eq_some_iff.mp h).2
    exact List.ne_nil_of_length_pos (by rw [id_eq]; omega)
  divides h := (takeExactly?_eq_some_iff.mp h).1
  anywhere h more := by
    obtain ⟨_, rfl⟩ := takeExactly?_eq_some_iff.mp h
    exact takeExactly?_append _ more

/-- A rule for tokens is one for payloads without a length. -/
theorem CutsFront.payload {first? : Bytes → Option (Bytes × Bytes)}
    (cuts : CutsFront first? id)
    : CutsFront (fun bytes => (first? bytes).map (fun cut => ((⟨[], cut.1⟩ : Payload), cut.2)))
        Payload.bytes where
  nonempty h := by
    obtain ⟨cut, hc, he⟩ := Option.map_eq_some_iff.mp h
    obtain ⟨rfl, rfl⟩ := Prod.mk.inj he
    simpa [Payload.bytes] using cuts.nonempty hc
  divides h := by
    obtain ⟨cut, hc, he⟩ := Option.map_eq_some_iff.mp h
    obtain ⟨rfl, rfl⟩ := Prod.mk.inj he
    simpa [Payload.bytes] using cuts.divides hc
  anywhere h more := by
    obtain ⟨cut, hc, he⟩ := Option.map_eq_some_iff.mp h
    obtain ⟨rfl, rfl⟩ := Prod.mk.inj he
    have hm := cuts.anywhere hc more
    rw [id_eq] at hm
    simp [Payload.bytes, hm]

theorem delimited_payload?_eq_some_iff {bytes rest : Bytes} {payload : Payload}
    : WireKind.lengthDelimited.payload? bytes = some (payload, rest)
      ↔ Varint.take? bytes = some (payload.length, payload.content ++ rest)
        ∧ payload.content.length = Varint.value payload.length := by
  rcases payload with ⟨length, content⟩
  simp only [WireKind.payload?, Option.bind_eq_some_iff, Option.map_eq_some_iff, Prod.exists,
    Prod.mk.injEq, Payload.mk.injEq]
  constructor
  · rintro ⟨_, _, ht, _, _, hx, ⟨rfl, rfl⟩, rfl⟩
    obtain ⟨rfl, hlen⟩ := takeExactly?_eq_some_iff.mp hx
    exact ⟨ht, hlen⟩
  · rintro ⟨ht, hlen⟩
    exact ⟨_, _, ht, _, _, takeExactly?_eq_some_iff.mpr ⟨rfl, hlen⟩, ⟨rfl, rfl⟩, rfl⟩

theorem WireKind.payload?_cuts (wire : WireKind)
    : CutsFront wire.payload? Payload.bytes := by
  cases wire with
  | varint => exact Varint.take?_cuts.payload
  | fixed64 => exact (takeExactly?_cuts (by decide)).payload
  | fixed32 => exact (takeExactly?_cuts (by decide)).payload
  | lengthDelimited =>
      refine ⟨fun h => ?_, fun h => ?_, fun h more => ?_⟩
      · have hne := Varint.take?_cuts.nonempty (delimited_payload?_eq_some_iff.mp h).1
        simp only [id_eq] at hne
        simp [Payload.bytes, hne]
      · have hd := Varint.take?_cuts.divides (delimited_payload?_eq_some_iff.mp h).1
        simpa [Payload.bytes] using hd
      · obtain ⟨ht, hlen⟩ := delimited_payload?_eq_some_iff.mp h
        have hm := Varint.take?_cuts.anywhere ht
        refine delimited_payload?_eq_some_iff.mpr ⟨?_, hlen⟩
        simpa [Payload.bytes] using hm _

namespace WireUnit

/-- A unit stands in front of some bytes exactly if its key does, in one of the forms of a number
that names the unit's tag and wire kind, and its payload follows.
-/
theorem first?_eq_some_iff {bytes rest : Bytes} {unit : WireUnit}
    : first? bytes = some (unit, rest)
      ↔ ∃ afterKey,
          Varint.take? bytes = some (unit.key, afterKey)
          ∧ (Key.split (Varint.value unit.key)).1 = unit.tag
          ∧ ¬ (unit.tag = 0 ∨ maxTag < unit.tag)
          ∧ WireKind.ofCode? (Key.split (Varint.value unit.key)).2 = some unit.wire
          ∧ unit.wire.payload? afterKey = some (unit.payload, rest) := by
  rcases unit with ⟨tag, wire, key, payload⟩
  simp only [first?, Option.bind_eq_some_iff, Prod.exists]
  constructor
  · rintro ⟨token, afterKey, ht, h⟩
    split at h
    · simp at h
    · next hlegal =>
        obtain ⟨kind, hk, h⟩ := Option.bind_eq_some_iff.mp h
        obtain ⟨cut, hp, he⟩ := Option.map_eq_some_iff.mp h
        obtain ⟨hu, rfl⟩ := Prod.mk.inj he
        obtain ⟨rfl, rfl, rfl, rfl⟩ := WireUnit.mk.inj hu
        exact ⟨afterKey, ht, rfl, hlegal, hk, hp⟩
  · rintro ⟨afterKey, ht, rfl, hlegal, hk, hp⟩
    refine ⟨key, afterKey, ht, ?_⟩
    rw [if_neg hlegal, hk, Option.bind_some, hp, Option.map_some]

theorem first?_cuts : CutsFront first? bytes where
  nonempty {_ unit _} h := by
    obtain ⟨afterKey, ht, _⟩ := first?_eq_some_iff.mp h
    have hne := Varint.take?_cuts.nonempty ht
    simp only [id_eq] at hne
    simp [bytes, hne]
  divides {_ unit _} h := by
    obtain ⟨afterKey, ht, _, _, _, hp⟩ := first?_eq_some_iff.mp h
    rw [bytes, List.append_assoc, ← unit.wire.payload?_cuts.divides hp]
    exact Varint.take?_cuts.divides ht
  anywhere {_ unit _} h more := by
    obtain ⟨afterKey, ht, htag, hlegal, hk, hp⟩ := first?_eq_some_iff.mp h
    refine first?_eq_some_iff.mpr ⟨unit.payload.bytes ++ more, ?_, htag, hlegal, hk,
      unit.wire.payload?_cuts.anywhere hp more⟩
    rw [bytes, List.append_assoc]
    exact Varint.take?_cuts.anywhere ht _

/-- A unit that can stand alone: cut off from its own bytes, it is the unit itself. -/
def Standing (unit : WireUnit) : Prop := first? unit.bytes = some (unit, [])

instance (unit : WireUnit) : Decidable unit.Standing := inferInstanceAs (Decidable (_ = _))

theorem units?_flatMap {units : List WireUnit} (h : ∀ unit ∈ units, unit.Standing)
    : units? (units.flatMap bytes) = some units :=
  first?_cuts.cutAll?_flatMap h

theorem standing_of_units? {input : Bytes} {units : List WireUnit}
    (h : units? input = some units)
    : ∀ unit ∈ units, unit.Standing :=
  (first?_cuts.of_cutAll? h).2

theorem units?_append {left : Bytes} {units : List WireUnit} (h : units? left = some units)
    (right : Bytes)
    : units? (left ++ right) = (units? right).map (units ++ ·) :=
  first?_cuts.cutAll?_append h right

/-- A unit with the shortest form of its key, and a payload that can be cut off alone, stands
alone.
-/
theorem standing_of_payload {tag : Nat} {wire : WireKind} {payload : Payload}
    (hpos : tag ≠ 0) (hmax : tag ≤ maxTag)
    (h : wire.payload? payload.bytes = some (payload, []))
    : Standing ⟨tag, wire, Varint.encode (Key.pack tag wire), payload⟩ := by
  have hkey : Key.pack tag wire < 2 ^ 64 := by
    have hc := wire.code_lt
    simp only [maxTag] at hmax
    simp only [Key.pack]
    omega
  have hlegal : ¬ (tag = 0 ∨ maxTag < tag) := by omega
  refine first?_eq_some_iff.mpr
    ⟨payload.bytes, Varint.take?_encode_append hkey _, ?_, hlegal, ?_, h⟩
  · simp only [Varint.value_encode, Key.split_pack]
  · simp only [Varint.value_encode, Key.split_pack, WireKind.ofCode?_code]

end WireUnit

end TagWire
