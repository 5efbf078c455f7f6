import TagWire.Proofs.Decoding.ReferenceLaws

/-!
A decoded record takes up no more levels than it may. The nested records that are read for one field
are merged, and a merge is no deeper than what is merged.
-/

namespace TagWire

namespace Reference

variable {schema : Schema} {type : MessageType} {nested : String → Bytes → Option Record}

theorem readScalar?_values {field : Field} {content : Bytes} {whole : RawUnit} {reading : Reading}
    (h : readScalar? schema field content whole = some reading)
    : ∀ value ∈ reading.values, ∃ scalar, value = .scalar scalar := by
  obtain ⟨scalar, _, rfl⟩ := Option.map_eq_some_iff.mp h
  split
  · simp
  · intro value hv
    exact ⟨scalar, List.mem_singleton.mp hv⟩

/-- What a unit says is scalars, or a record that was decoded. -/
theorem readUnit?_values {unit : WireUnit} {reading : Reading}
    (h : readUnit? nested schema type unit = some reading)
    : ∀ value ∈ reading.values,
        (∃ scalar, value = .scalar scalar)
        ∨ ∃ name bytes record, nested name bytes = some record ∧ value = .message record := by
  intro value hv
  unfold readUnit? at h
  split at h
  · obtain rfl := Option.some.inj h
    simp at hv
  · next field hf =>
      split at h
      · split at h
        · next name hk =>
            obtain ⟨record, hr, rfl⟩ := Option.map_eq_some_iff.mp h
            exact .inr ⟨name, _, record, hr, List.mem_singleton.mp hv⟩
        · exact .inl (readScalar?_values h value hv)
      · split at h
        · obtain ⟨elements, _, h⟩ := Option.bind_eq_some_iff.mp h
          obtain ⟨readings, hr, rfl⟩ := Option.map_eq_some_iff.mp h
          obtain ⟨element, hm, hv⟩ := List.mem_flatMap.mp hv
          obtain ⟨payload, _, hread⟩ := Traversal.exists_of_mem_mapM hr hm
          exact .inl (readScalar?_values hread value hv)
        · simp at h

section Levels

variable {kind : Kind} {bound : Nat}

theorem later_levels_le {first second : Value} (h1 : first.Conforms schema kind)
    (h2 : second.Conforms schema kind) (hfirst : first.levels ≤ bound)
    (hsecond : second.levels ≤ bound)
    : (later first second).levels ≤ bound := by
  cases second with
  | scalar scalar => cases first <;> exact hsecond
  | message theirs =>
      cases first with
      | scalar scalar => exact hsecond
      | message mine =>
          simp only [Value.levels, later] at hfirst hsecond ⊢
          have hmerged := (h1.nested mine rfl).depth_overlay_le (h2.nested theirs rfl)
            (Nat.le_sub_one_of_lt hfirst) (Nat.le_sub_one_of_lt hsecond)
          omega

theorem foldl_later_levels_le {first : Value} {rest : List Value}
    (h : first.Conforms schema kind) (hr : ∀ value ∈ rest, value.Conforms schema kind)
    (hfirst : first.levels ≤ bound) (hrest : ∀ value ∈ rest, value.levels ≤ bound)
    : (rest.foldl later first).levels ≤ bound := by
  induction rest generalizing first with
  | nil => exact hfirst
  | cons next rest ih =>
      have hnext := hr next List.mem_cons_self
      exact ih (later_conforms h hnext) (fun value hv => hr value (by simp [hv]))
        (later_levels_le h hnext hfirst (hrest next List.mem_cons_self))
        (fun value hv => hrest value (by simp [hv]))

/-- What a field holds takes up no more levels than each of the values that came for it. -/
theorem slotOf?_levels_le {field : Field} {values : List Value} {slot : Slot}
    (h : slotOf? field values = some slot)
    (conform : ∀ value ∈ values, value.Conforms schema field.kind)
    (levels : ∀ value ∈ values, value.levels ≤ bound)
    : ∀ value ∈ slot.values, value.levels ≤ bound := by
  cases values with
  | nil => simp [slotOf?] at h
  | cons first rest =>
      obtain rfl := Option.some.inj h
      split
      · exact levels
      · intro value hv
        obtain rfl := List.mem_singleton.mp hv
        exact foldl_later_levels_le (conform first List.mem_cons_self)
          (fun value hv => conform value (List.mem_cons_of_mem first hv))
          (levels first List.mem_cons_self)
          (fun value hv => levels value (List.mem_cons_of_mem first hv))

end Levels

theorem decodeBody?_depth_le {bytes : Bytes} {record : Record} {bound : Nat}
    (sound : Sound schema nested)
    (below : ∀ {name content inner}, nested name content = some inner → inner.depth < bound)
    (h : decodeBody? nested schema type bytes = some record)
    : record.depth ≤ bound := by
  obtain ⟨units, readings, hu, hr, rfl⟩ := decodeBody?_eq_some_iff.mp h
  have fits := readUnits_fit sound (WireUnit.standing_of_units? hu) hr
  refine Record.depth_le_iff.mpr (fun inner holds => ?_)
  rcases holds with ⟨⟨tag, slot⟩, hentry, hm⟩
  have hslot : (gather schema type readings).slot? tag = some slot :=
    (gather_ascending readings).find?_of_mem hentry
  rw [slot?_gather] at hslot
  obtain ⟨field, hf, hslot⟩ := Option.bind_eq_some_iff.mp hslot
  have levels : ∀ value ∈ Reading.valuesAt readings tag, value.levels ≤ bound := by
    intro value hv
    obtain ⟨reading, hmem, _, hv⟩ := Reading.exists_of_mem_valuesAt hv
    obtain ⟨unit, _, hread⟩ := Traversal.exists_of_mem_mapM hr hmem
    rcases readUnit?_values hread value hv with ⟨scalar, rfl⟩ | ⟨_, _, decoded, hdecoded, rfl⟩
    · exact Nat.zero_le bound
    · exact below hdecoded
  exact slotOf?_levels_le hslot (Reading.Fits.valuesAt fits hf) levels _ hm

/-- A decoded record is less deep than the levels it may take up, by induction on these. -/
theorem depth_lt_of_decodeWithin? {levels : Nat} {name : String} {bytes : Bytes} {record : Record}
    (h : decodeWithin? schema levels name bytes = some record)
    : record.depth < levels := by
  induction levels generalizing name bytes record with
  | zero => simp [decodeWithin?] at h
  | succ levels ih =>
      obtain ⟨type, _, hbody⟩ := Option.bind_eq_some_iff.mp h
      exact Nat.lt_succ_of_le (decodeBody?_depth_le (decodeWithin?_sound levels) ih hbody)

end Reference

end TagWire
