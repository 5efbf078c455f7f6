import TagWire.Proofs.Decoding.Depths
import TagWire.Proofs.Decoding.Renumbering

/-!
Updates made under an older schema. A number that the older schema does not declare is kept as a
unit beside the field, and is written after the field's own unit. A newer schema that declares it
reads it last, so the last of such numbers is what the field holds there, whatever it was set to.
-/

namespace TagWire

theorem RawUnit.scalar_of_valueIn? {there : Schema} {type : MessageType} {unit : RawUnit}
    {value : Value} (h : unit.valueIn? there type = some value)
    : ∃ scalar, value = .scalar scalar := by
  obtain ⟨field, _, h⟩ := Option.bind_eq_some_iff.mp h
  obtain ⟨scalar, _, rfl⟩ := Option.map_eq_some_iff.mp h
  exact ⟨scalar, rfl⟩

/-- A scalar takes the place of what was there, so the last of scalars stays. -/
theorem Reference.foldl_later_scalars {first : Value} {rest : List Value}
    (scalars : ∀ value ∈ rest, ∃ scalar, value = .scalar scalar)
    : rest.foldl later first = rest.getLast?.getD first := by
  induction rest generalizing first with
  | nil => rfl
  | cons next rest ih =>
      obtain ⟨scalar, rfl⟩ := scalars next List.mem_cons_self
      have replaced : later first (.scalar scalar) = .scalar scalar := by
        cases first <;> rfl
      rw [List.foldl_cons, replaced, ih (fun value hv => scalars value (List.mem_cons_of_mem _ hv)),
        List.getLast?_cons, Option.getD_some]

namespace Record

variable {record : Record} {tag : Nat} {field : Field}

/-- A scalar in a field makes a record no deeper. -/
theorem depth_putSlot_le {scalar : Scalar}
    : (record.putSlot tag (.single (.scalar scalar))).depth ≤ record.depth := by
  refine depth_le_iff.mpr (fun nested holds => ?_)
  rcases holds with ⟨entry, hentry, hm⟩
  rcases TagMap.mem_insert hentry with rfl | hentry
  · exact absurd (List.mem_singleton.mp hm) (by simp)
  · exact depth_lt_of_holds ⟨entry, hentry, hm⟩

/-- A singular field with a declared scalar holds, under another schema, the last of the values that
kept units under its tag become there, and its own value if there are none.
-/
theorem Conforms.get_under {here there : Schema} (hc : record.Conforms here)
    (hf : record.type.field? tag = some field) (singular : field.isRepeated = false)
    {scalar : Scalar} (hs : record.slot? tag = some (.single (.scalar scalar)))
    (declared : there.isUndeclared field.kind scalar = false)
    : (record.under there).get tag
      = .ok ((record.revived there tag).getLast?.getD (.scalar scalar)) := by
  have ofKind : scalar.isOfKind field.kind = true :=
    ((hc.slot_of_field hs hf).value (List.mem_singleton_self _)).fits.ofKind
  have hown : (Value.readingIn there field (.scalar scalar)).values = [.scalar scalar] := by
    rw [Value.readingIn_scalar ofKind, declared]
    rfl
  have hvalues : (record.readingsAt there tag).flatMap Reading.values
      = .scalar scalar :: record.revived there tag := by
    rw [(record.readingsAt_declared there hf).1, valuesAt_of_slot? hs, saidIn, Slot.values_single,
      List.flatMap_singleton, hown, List.singleton_append]
  have scalars : ∀ value ∈ record.revived there tag, ∃ scalar, value = .scalar scalar := by
    intro value hv
    obtain ⟨unit, _, hvalue⟩ := List.mem_filterMap.mp hv
    exact RawUnit.scalar_of_valueIn? hvalue
  refine get_of_single (by rw [under_type, hf]) singular ?_
  rw [hc.slot?_under, hf, Option.bind_some, hvalues, Reference.slotOf?, singular,
    Reference.foldl_later_scalars scalars]
  rfl

/-- An update made under an older schema, read under a newer one. The bytes are read, but the field
holds the number that was given only if no number that the newer schema declares was kept beside it;
otherwise it holds the last of those.
-/
theorem get_of_older_update {narrow wide : Schema} (narrows : narrow.Narrows wide)
    (built : narrow.Built) {name : String} {bytes : Bytes} {limit : Nat}
    (read : decode narrow name bytes ⟨limit, false⟩ = .ok record) {number : Int32}
    {updated : Record} (given : record.set tag (.scalar (.enum number)) = .ok updated)
    (short : updated.bytes.length < 2 ^ 63)
    : ∃ again,
        decode wide name updated.bytes ⟨limit, false⟩ = .ok again
        ∧ again.get tag
          = .ok ((record.revived wide tag).getLast?.getD (.scalar (.enum number))) := by
  obtain ⟨href, hc, rfl⟩ := of_decode_eq_ok read
  obtain ⟨field, hf, singular, hcheck, rfl⟩ := set_eq_ok given
  obtain ⟨hupdated, _⟩ := set_keeps hc (by simp) given
  have hdepth : (record.putSlot tag (.single (.scalar (.enum number)))).depth < limit + 1 :=
    Nat.lt_of_le_of_lt depth_putSlot_le (Reference.depth_lt_of_decodeWithin? href)
  rw [bytes_eq_encoding] at short ⊢
  have hagain := Reference.decodeWithin?_under hupdated built narrows.messages.symm hdepth
    (Nat.lt_trans short (by decide))
  have declared : wide.isUndeclared field.kind (.enum number) = false :=
    narrows.isUndeclared ((fits_of_check hc.here.ofSchema hcheck).declared _ rfl)
  refine ⟨_, decode_eq_ok_iff.mpr hagain, ?_⟩
  exact hupdated.get_under hf singular (by rw [slot?_putSlot, if_pos rfl]) declared

end Record

namespace AddressBook

/-- A telephone whose sort has a number that the older schema does not declare. -/
def strangeSort (number : UInt8) : Record :=
  ⟨older, phone, [], [(2, [⟨2, .varint, [0x10, number]⟩])]⟩

/-- The same telephone, set to be at home. -/
def movedHome (number : UInt8) : Record :=
  (strangeSort number).putSlot 2 (.single (.scalar (.enum 1)))

/-- A sort that neither schema declares does not stand in the way of an update. -/
theorem get_of_older_update_phone
    : ∃ again,
        Record.decode schema phone.name (movedHome 9).bytes ⟨0, false⟩ = .ok again
        ∧ again.get 2 = .ok (.scalar (.enum 1)) := by
  have narrows : older.Narrows schema := narrows_phoneType _
  have read : Record.decode older phone.name [0x10, 0x09] ⟨0, false⟩ = .ok (strangeSort 9) := rfl
  have given : (strangeSort 9).set 2 (.scalar (.enum 1)) = .ok (movedHome 9) := rfl
  have short : (movedHome 9).bytes.length < 2 ^ 63 := by decide +kernel
  have nothing : (strangeSort 9).revived schema 2 = [] := rfl
  have hagain := Record.get_of_older_update narrows older_built read given short
  rwa [nothing] at hagain

/-- A telephone at work is read under the older schema and set to be at home. Under the newer schema
it is still at work.
-/
theorem older_update_lost
    : older.Narrows schema
      ∧ older.Built
      ∧ schema.Built
      ∧ Record.decode older phone.name [0x10, 0x02] ⟨0, false⟩ = .ok (strangeSort 2)
      ∧ (strangeSort 2).set 2 (.scalar (.enum 1)) = .ok (movedHome 2)
      ∧ ∃ again,
          Record.decode schema phone.name (movedHome 2).bytes ⟨0, false⟩ = .ok again
          ∧ again.get 2 = .ok (.scalar (.enum 2)) := by
  have written : (movedHome 2).bytes = [0x10, 0x01, 0x10, 0x02] := by decide +kernel
  refine ⟨narrows_phoneType _, older_built, schema_built, rfl, rfl, ?_⟩
  rw [written]
  exact ⟨⟨schema, phone, [(2, .single (.scalar (.enum 2)))], []⟩, rfl, rfl⟩

end AddressBook

end TagWire
