import TagWire.Proofs.Records.Conformance
import TagWire.Record.Merge

/-!
Merging, tag by tag. Records of one type form a monoid under it, with the empty record as its
unit, and merging keeps records conforming.
-/

namespace TagWire

-----------------------------------------------------------------------------------------
-- What a merge holds at a tag
-----------------------------------------------------------------------------------------

theorem slotsOver_eq_layOver (mine theirs : List (Nat × Slot))
    : slotsOver mine theirs = TagMap.layOver (fun held slot => slot.over held) mine theirs := by
  induction theirs generalizing mine with
  | nil => rw [slotsOver, TagMap.layOver]
  | cons entry rest ih => rw [slotsOver, TagMap.layOver, ih]

namespace UnknownSet

theorem extend_eq_layOver (mine theirs : UnknownSet)
    : mine.extend theirs
      = TagMap.layOver (fun held units => held.getD [] ++ units) mine theirs := by
  induction theirs generalizing mine with
  | nil => rfl
  | cons entry rest ih => exact ih (mine.extendAt entry.1 entry.2)

theorem find?_extend (mine : UnknownSet) {theirs : UnknownSet}
    (h : TagMap.Ascending theirs) (tag : Nat)
    : TagMap.find? (mine.extend theirs) tag
      = match TagMap.find? theirs tag with
        | none => TagMap.find? mine tag
        | some units => some (mine.unitsAt tag ++ units) := by
  rw [extend_eq_layOver, TagMap.find?_layOver _ _ h]
  cases TagMap.find? theirs tag <;> rfl

theorem unitsAt_extend (mine : UnknownSet) {theirs : UnknownSet}
    (h : TagMap.Ascending theirs) (tag : Nat)
    : (mine.extend theirs).unitsAt tag = mine.unitsAt tag ++ theirs.unitsAt tag := by
  rw [unitsAt, find?_extend mine h, unitsAt, unitsAt]
  cases TagMap.find? theirs tag <;> simp

theorem ascending_extend {mine : UnknownSet} (h : TagMap.Ascending mine) (theirs : UnknownSet)
    : TagMap.Ascending (mine.extend theirs) := by
  rw [extend_eq_layOver]
  exact h.layOver

/-- Adding units is associative, tag by tag as lists are joined. -/
theorem extend_assoc {first second third : UnknownSet} (h1 : TagMap.Ascending first)
    (h2 : TagMap.Ascending second) (h3 : TagMap.Ascending third)
    : (first.extend second).extend third = first.extend (second.extend third) := by
  apply (ascending_extend (ascending_extend h1 _) _).ext (ascending_extend h1 _)
  intro tag
  rw [find?_extend _ h3, find?_extend _ (ascending_extend h2 third), find?_extend second h3,
    unitsAt_extend _ h2, find?_extend _ h2]
  cases h : TagMap.find? third tag with
  | none => rfl
  | some units => simp [List.append_assoc]

theorem nil_extend {theirs : UnknownSet} (h : TagMap.Ascending theirs)
    : UnknownSet.extend [] theirs = theirs := by
  apply (ascending_extend TagMap.Ascending.nil _).ext h
  intro tag
  rw [find?_extend _ h]
  cases TagMap.find? theirs tag <;> simp [unitsAt, TagMap.find?]

end UnknownSet

theorem Value.over_message (held : Option Slot) (theirs : Record)
    : (Value.message theirs).over held
      = match held with
        | some (.single (.message mine)) => .message (mine.overlay theirs)
        | _ => .message theirs :=
  rfl

theorem Slot.over_repeated (held : Option Slot) (values : List Value)
    : (Slot.repeated values).over held
      = match held with
        | some (.repeated mine) => .repeated (mine ++ values)
        | _ => .repeated values :=
  rfl

@[simp] theorem Slot.over_none (slot : Slot) : slot.over none = slot := by
  cases slot with
  | single value => cases value <;> rfl
  | repeated values => rfl

/-- A value that a slot has over another stood in one of the two, or is a merge of the records that
both hold.
-/
theorem Slot.mem_values_over {held : Option Slot} {slot : Slot} {value : Value}
    (h : value ∈ (slot.over held).values)
    : value ∈ slot.values
      ∨ (∃ mine, held = some mine ∧ value ∈ mine.values)
      ∨ ∃ mine theirs,
          held = some (.single (.message mine))
          ∧ slot = .single (.message theirs)
          ∧ value = .message (mine.overlay theirs) := by
  cases slot with
  | repeated values =>
      rw [over_repeated] at h
      split at h
      · next mine =>
          rcases List.mem_append.mp h with hm | hv
          · exact .inr (.inl ⟨.repeated mine, rfl, hm⟩)
          · exact .inl hv
      · exact .inl h
  | single upper =>
      obtain rfl := List.mem_singleton.mp h
      cases upper with
      | scalar scalar => exact .inl (List.mem_singleton_self _)
      | message theirs =>
          rw [Value.over_message]
          split
          · next mine => exact .inr (.inr ⟨mine, theirs, rfl, rfl, rfl⟩)
          · exact .inl (List.mem_singleton_self _)

/-- What is at a tag of a merge: what the upper record has there, over what the lower has. -/
def slotOver (held upper : Option Slot) : Option Slot :=
  match upper with
  | none => held
  | some slot => some (slot.over held)

namespace Record

@[simp] theorem overlay_schema (mine theirs : Record)
    : (mine.overlay theirs).schema = mine.schema := by
  cases theirs
  rw [overlay]

@[simp] theorem overlay_type (mine theirs : Record)
    : (mine.overlay theirs).type = mine.type := by
  cases theirs
  rw [overlay]

theorem overlay_slots (mine theirs : Record)
    : (mine.overlay theirs).slots = slotsOver mine.slots theirs.slots := by
  cases theirs
  rw [overlay]

@[simp] theorem overlay_unknown (mine theirs : Record)
    : (mine.overlay theirs).unknown = mine.unknown.extend theirs.unknown := by
  cases theirs
  rw [overlay]

theorem slot?_overlay (mine : Record) {theirs : Record} (h : TagMap.Ascending theirs.slots)
    (tag : Nat)
    : (mine.overlay theirs).slot? tag = slotOver (mine.slot? tag) (theirs.slot? tag) := by
  rw [slot?, overlay_slots, slotsOver_eq_layOver, TagMap.find?_layOver _ _ h, slot?, slot?]
  cases TagMap.find? theirs.slots tag <;> rfl

theorem ascending_overlay {mine : Record} (h : TagMap.Ascending mine.slots) (theirs : Record)
    : TagMap.Ascending (mine.overlay theirs).slots := by
  rw [overlay_slots, slotsOver_eq_layOver]
  exact h.layOver

/-- Two records of one type are the same if they hold the same at every tag. -/
theorem ext_of_slots {left right : Record} (hschema : left.schema = right.schema)
    (htype : left.type = right.type) (hl : TagMap.Ascending left.slots)
    (hr : TagMap.Ascending right.slots) (hslots : ∀ tag, left.slot? tag = right.slot? tag)
    (hunknown : left.unknown = right.unknown)
    : left = right := by
  rcases left with ⟨schema, type, slots, unknown⟩
  rcases right with ⟨_, _, _, _⟩
  obtain rfl : slots = _ := hl.ext hr hslots
  simp_all

end Record

-----------------------------------------------------------------------------------------
-- Merging keeps records conforming
-----------------------------------------------------------------------------------------

section Conforming

variable {schema : Schema}

theorem UnknownSet.Fits.extend {type : MessageType} {mine theirs : UnknownSet}
    (hm : mine.Fits schema type) (ht : theirs.Fits schema type)
    : (mine.extend theirs).Fits schema type := by
  have atTag {tag : Nat} {units : List RawUnit}
      (h : TagMap.find? (mine.extend theirs) tag = some units)
      : units = mine.unitsAt tag ++ theirs.unitsAt tag := by
    rw [← unitsAt_extend mine ht.ascending, unitsAt, h, Option.getD_some]
  have ofUnit {set : UnknownSet} {tag : Nat} {unit : RawUnit} (hu : unit ∈ set.unitsAt tag)
      : ∃ units, TagMap.find? set tag = some units ∧ unit ∈ units := by
    cases hf : TagMap.find? set tag with
    | none => simp [unitsAt, hf] at hu
    | some units => exact ⟨units, rfl, by simpa [unitsAt, hf] using hu⟩
  refine ⟨ascending_extend hm.ascending _, fun {tag units} h => ?_, fun h unit hu => ?_,
    fun h unit hu => ?_⟩
  · rw [find?_extend mine ht.ascending] at h
    split at h
    · exact hm.nonempty h
    · next more hmore =>
        rw [← Option.some.inj h]
        simp [ht.nonempty hmore]
  all_goals
    rw [atTag h] at hu
    rcases List.mem_append.mp hu with hu | hu
    all_goals
      obtain ⟨units, hf, hu⟩ := ofUnit hu
      first
      | exact hm.filed hf unit hu
      | exact ht.filed hf unit hu
      | exact hm.keepable hf unit hu
      | exact ht.keepable hf unit hu

/-- A slot over another conforms, if records that both hold merge into one that conforms. -/
theorem Slot.Conforms.over {field : Field} {held : Option Slot} {slot : Slot}
    (hs : slot.Conforms schema field)
    (hh : ∀ mine, held = some mine → mine.Conforms schema field)
    (merges
      : ∀ mine theirs : Record,
          .message theirs ∈ slot.values
          → mine.Conforms schema
          → mine.type = theirs.type
          → (mine.overlay theirs).Conforms schema)
    : (slot.over held).Conforms schema field := by
  cases slot with
  | single value =>
      rw [Slot.over]
      refine .single hs.singular ?_
      have hv := hs.value (List.mem_singleton_self value)
      cases value with
      | scalar scalar => rwa [Value.over]
      | message theirs =>
          rw [Value.over_message]
          split
          · next mine =>
              have hmine := (hh _ rfl).value (List.mem_singleton_self _)
              have same : mine.type = theirs.type :=
                (hmine.nested _ rfl).type_eq (hv.nested _ rfl)
                  (by simpa using hmine.fits.kind_eq.symm.trans hv.fits.kind_eq)
              have merged := Value.Conforms.message
                (merges mine theirs (List.mem_singleton_self _) (hmine.nested _ rfl) same)
              rwa [Record.overlay_type, ← hmine.fits.kind_eq] at merged
          · exact hv
  | repeated values =>
      rw [Slot.over_repeated]
      obtain ⟨hrep, hne⟩ := hs.isRepeated
      split
      · next mine =>
          refine .repeated hrep (by simp [hne]) (fun value hv => ?_)
          rcases List.mem_append.mp hv with hv | hv
          · exact (hh _ rfl).value hv
          · exact hs.value hv
      · exact hs

/-- A merge of two conforming records of one type conforms, by induction over the upper one. -/
theorem Record.Conforms.overlay {mine theirs : Record} (hm : mine.Conforms schema)
    (ht : theirs.Conforms schema) (same : mine.type = theirs.type)
    : (mine.overlay theirs).Conforms schema := by
  induction theirs using Record.nestedInduction generalizing mine with
  | step theirs ih =>
      refine .of_slots (by simpa using hm.here.ofSchema) (by simpa using hm.here.typed)
        (ascending_overlay hm.here.ascending _) (fun {tag slot} hs => ?_)
        (by simpa using hm.here.unknown.extend (same ▸ ht.here.unknown))
      rw [slot?_overlay _ ht.here.ascending] at hs
      rw [overlay_type]
      cases hu : theirs.slot? tag with
      | none =>
          rw [hu] at hs
          exact hm.slot hs
      | some upper =>
          simp only [hu, slotOver, Option.some.injEq] at hs
          subst hs
          obtain ⟨field, hf, hc⟩ := ht.slot hu
          rw [← same] at hf
          refine ⟨field, hf, hc.over (fun held hh => hm.slot_of_field hh hf) ?_⟩
          intro lower inner hi hl hsame
          exact ih inner (holds_of_slot? hu hi) hl (ht.inner (holds_of_slot? hu hi)) hsame

/-- What stands in a merge stood in one of the records, or is the merge of the records that both
hold in one singular field.
-/
theorem Record.holds_overlay {mine theirs : Record} (hm : TagMap.Ascending mine.slots)
    (ht : TagMap.Ascending theirs.slots) {nested : Record}
    (h : (mine.overlay theirs).Holds nested)
    : mine.Holds nested
      ∨ theirs.Holds nested
      ∨ ∃ tag base top,
          mine.slot? tag = some (.single (.message base))
          ∧ theirs.slot? tag = some (.single (.message top))
          ∧ nested = base.overlay top := by
  rcases h with ⟨⟨tag, slot⟩, hentry, hvalue⟩
  have hs : (mine.overlay theirs).slot? tag = some slot :=
    (ascending_overlay hm _).find?_of_mem hentry
  rw [slot?_overlay _ ht] at hs
  cases hu : theirs.slot? tag with
  | none =>
      rw [hu] at hs
      exact .inl (holds_of_slot? hs hvalue)
  | some upper =>
      simp only [hu, slotOver, Option.some.injEq] at hs
      subst hs
      rcases Slot.mem_values_over hvalue with hv | ⟨held, hh, hv⟩ | ⟨base, top, hh, rfl, hv⟩
      · exact .inr (.inl (holds_of_slot? hu hv))
      · exact .inl (holds_of_slot? hh hv)
      · exact .inr (.inr ⟨tag, base, top, hh, hu, Value.message.inj hv⟩)

/-- Records that stand in one singular field of two records of one type are of one type. -/
theorem Record.Conforms.type_eq_of_slots {mine theirs : Record} (hm : mine.Conforms schema)
    (ht : theirs.Conforms schema) (same : mine.type = theirs.type) {tag : Nat}
    {base top : Record} (hb : mine.slot? tag = some (.single (.message base)))
    (hu : theirs.slot? tag = some (.single (.message top)))
    : base.type = top.type := by
  obtain ⟨field, hf, lower⟩ := hm.slot hb
  have hbase := lower.value (List.mem_singleton_self _)
  have htop := (ht.slot_of_field hu (same ▸ hf)).value (List.mem_singleton_self _)
  exact (hbase.nested _ rfl).type_eq (htop.nested _ rfl)
    (by simpa using hbase.fits.kind_eq.symm.trans htop.fits.kind_eq)

/-- A merge is no deeper than what is merged, by induction over the upper record. -/
theorem Record.Conforms.depth_overlay_le {mine theirs : Record} (hm : mine.Conforms schema)
    (ht : theirs.Conforms schema) {bound : Nat} (hmine : mine.depth ≤ bound)
    (htheirs : theirs.depth ≤ bound)
    : (mine.overlay theirs).depth ≤ bound := by
  induction theirs using Record.nestedInduction generalizing mine bound with
  | step theirs ih =>
      have lower := depth_le_iff.mp hmine
      have upper := depth_le_iff.mp htheirs
      refine depth_le_iff.mpr (fun nested holds => ?_)
      rcases holds_overlay hm.here.ascending ht.here.ascending holds with
        hn | hn | ⟨tag, base, top, hb, hu, rfl⟩
      · exact lower nested hn
      · exact upper nested hn
      · have hbase := holds_of_slot? hb (List.mem_singleton_self _)
        have htop := holds_of_slot? hu (List.mem_singleton_self _)
        have hless := ih top htop (hm.inner hbase) (ht.inner htop)
          (Nat.le_sub_one_of_lt (lower base hbase)) (Nat.le_sub_one_of_lt (upper top htop))
        have hpos := lower base hbase
        omega

/-- Records that stand in one singular field of two records are merged there. -/
theorem Record.slot?_overlay_records {mine theirs base top : Record}
    (ascending : TagMap.Ascending theirs.slots) {tag : Nat}
    (hb : mine.slot? tag = some (.single (.message base)))
    (ht : theirs.slot? tag = some (.single (.message top)))
    : (mine.overlay theirs).slot? tag = some (.single (.message (base.overlay top))) := by
  rw [slot?_overlay _ ascending, hb, ht, slotOver, Slot.over, Value.over_message]

/-- A merge is as deep as the upper record, by induction over it: what is nested there is nested in
the merge, or is merged into a record that is.
-/
theorem Record.Conforms.depth_le_overlay_upper {mine theirs : Record}
    (ht : theirs.Conforms schema)
    : theirs.depth ≤ (mine.overlay theirs).depth := by
  induction theirs using Record.nestedInduction generalizing mine with
  | step theirs ih =>
      refine depth_le_iff.mpr (fun nested holds => ?_)
      rcases holds with ⟨⟨tag, slot⟩, hentry, hv⟩
      have hu : theirs.slot? tag = some slot := ht.here.ascending.find?_of_mem hentry
      have hs := mine.slot?_overlay ht.here.ascending tag
      rw [hu, slotOver] at hs
      cases slot with
      | repeated values =>
          rw [Slot.over_repeated] at hs
          split at hs
          · exact depth_lt_of_holds (holds_of_slot? hs (List.mem_append_right _ hv))
          · exact depth_lt_of_holds (holds_of_slot? hs hv)
      | single value =>
          obtain rfl : _ = value := List.mem_singleton.mp hv
          cases hb : mine.slot? tag with
          | some held =>
              rcases held with ⟨scalar | base⟩ | values
              case single.message =>
                have merged := slot?_overlay_records ht.here.ascending hb hu
                have holds := holds_of_slot? hu (List.mem_singleton_self _)
                calc nested.depth
                  _ ≤ (base.overlay nested).depth := ih nested holds (ht.inner holds)
                  _ < (mine.overlay theirs).depth :=
                      depth_lt_of_holds (holds_of_slot? merged (List.mem_singleton_self _))
              all_goals
                rw [hb] at hs
                exact depth_lt_of_holds (holds_of_slot? hs hv)
          | none =>
              rw [hb] at hs
              exact depth_lt_of_holds (holds_of_slot? hs hv)

/-- A merge is as deep as the lower record, by induction over the upper one. -/
theorem Record.Conforms.depth_le_overlay_lower {mine theirs : Record} (hm : mine.Conforms schema)
    (ht : theirs.Conforms schema) (same : mine.type = theirs.type)
    : mine.depth ≤ (mine.overlay theirs).depth := by
  induction theirs using Record.nestedInduction generalizing mine with
  | step theirs ih =>
      refine depth_le_iff.mpr (fun nested holds => ?_)
      rcases holds with ⟨⟨tag, slot⟩, hentry, hv⟩
      have hb : mine.slot? tag = some slot := hm.here.ascending.find?_of_mem hentry
      obtain ⟨field, hf, hslot⟩ := hm.slot hb
      have hs := mine.slot?_overlay ht.here.ascending tag
      rw [hb] at hs
      cases hu : theirs.slot? tag with
      | none =>
          rw [hu] at hs
          exact depth_lt_of_holds (holds_of_slot? hs hv)
      | some upper =>
          have hupper := ht.slot_of_field hu (same ▸ hf)
          -- The upper slot has the shape of the field, so the lower values are not written over.
          cases slot with
          | repeated values =>
              obtain ⟨more, rfl⟩ := hupper.exists_repeated hslot.isRepeated.1
              rw [hu, slotOver, Slot.over_repeated] at hs
              exact depth_lt_of_holds (holds_of_slot? hs (List.mem_append_left _ hv))
          | single value =>
              obtain rfl : _ = value := List.mem_singleton.mp hv
              obtain ⟨value, rfl⟩ := hupper.exists_single hslot.singular
              have hvalue := hslot.value hv
              have htop := hupper.value (List.mem_singleton_self _)
              obtain ⟨top, rfl, _⟩ := Value.Fits.exists_record (hvalue.fits.kind_eq ▸ htop.fits)
              have merged := slot?_overlay_records ht.here.ascending hb hu
              calc nested.depth
                _ ≤ (nested.overlay top).depth :=
                    ih top (holds_of_slot? hu (List.mem_singleton_self _)) (hvalue.nested _ rfl)
                      (htop.nested _ rfl) (hm.type_eq_of_slots ht same hb hu)
                _ < (mine.overlay theirs).depth :=
                    depth_lt_of_holds (holds_of_slot? merged (List.mem_singleton_self _))

/-- A merge is as deep as the deeper one of what is merged. -/
theorem Record.Conforms.depth_overlay {mine theirs : Record} (hm : mine.Conforms schema)
    (ht : theirs.Conforms schema) (same : mine.type = theirs.type)
    : (mine.overlay theirs).depth = max mine.depth theirs.depth := by
  refine Nat.le_antisymm (hm.depth_overlay_le ht (Nat.le_max_left _ _) (Nat.le_max_right _ _)) ?_
  exact Nat.max_le.mpr ⟨hm.depth_le_overlay_lower ht same, ht.depth_le_overlay_upper⟩

-----------------------------------------------------------------------------------------
-- The monoid of records of one type
-----------------------------------------------------------------------------------------

/-- Slots of one field are merged associatively, if records in them are. A scalar or a list could
part two records, but the field's kind leaves no room for that.
-/
theorem slotOver_assoc {field : Field} {first second third : Option Slot}
    (h1 : ∀ slot, first = some slot → slot.Conforms schema field)
    (h2 : ∀ slot, second = some slot → slot.Conforms schema field)
    (h3 : ∀ slot, third = some slot → slot.Conforms schema field)
    (assoc
      : ∀ a b c : Record,
          first = some (.single (.message a))
          → second = some (.single (.message b))
          → third = some (.single (.message c))
          → (a.overlay b).overlay c = a.overlay (b.overlay c))
    : slotOver (slotOver first second) third = slotOver first (slotOver second third) := by
  rcases third with _ | upper
  · rfl
  rcases second with _ | middle
  · simp [slotOver]
  rcases first with _ | lower
  · simp [slotOver]
  have hl := h1 _ rfl
  have hm := h2 _ rfl
  have hu := h3 _ rfl
  simp only [slotOver, Option.some.injEq]
  cases hrep : field.isRepeated with
  | true =>
      obtain ⟨mine, rfl⟩ := hl.exists_repeated hrep
      obtain ⟨values, rfl⟩ := hm.exists_repeated hrep
      obtain ⟨theirs, rfl⟩ := hu.exists_repeated hrep
      simp only [Slot.over, List.append_assoc]
  | false =>
      obtain ⟨base, rfl⟩ := hl.exists_single hrep
      obtain ⟨held, rfl⟩ := hm.exists_single hrep
      obtain ⟨value, rfl⟩ := hu.exists_single hrep
      cases value with
      | scalar scalar => simp only [Slot.over, Value.over]
      | message c =>
          have hk := (hu.value (List.mem_singleton_self _)).fits.kind_eq
          obtain ⟨b, rfl, _⟩ := Value.Fits.exists_record
            (hk ▸ (hm.value (List.mem_singleton_self _)).fits)
          obtain ⟨a, rfl, _⟩ := Value.Fits.exists_record
            (hk ▸ (hl.value (List.mem_singleton_self _)).fits)
          simp only [Slot.over, Value.over, assoc a b c rfl rfl rfl]

namespace Record

/-- Merging is associative on conforming records of one type, by induction over the lowest. -/
theorem overlay_assoc {first second third : Record} (h1 : first.Conforms schema)
    (h2 : second.Conforms schema) (h3 : third.Conforms schema)
    (same2 : first.type = second.type) (same3 : first.type = third.type)
    : (first.overlay second).overlay third = first.overlay (second.overlay third) := by
  induction first using Record.nestedInduction generalizing second third with
  | step first ih =>
      have h23 := h2.overlay h3 (same2.symm.trans same3)
      refine ext_of_slots (by simp) (by simp)
        (ascending_overlay (ascending_overlay h1.here.ascending _) _)
        (ascending_overlay h1.here.ascending _) (fun tag => ?_) ?_
      · rw [slot?_overlay _ h3.here.ascending, slot?_overlay _ h2.here.ascending,
          slot?_overlay _ h23.here.ascending, slot?_overlay _ h3.here.ascending]
        cases hf : first.type.field? tag with
        | none =>
            rw [h1.slot?_eq_none hf, h2.slot?_eq_none (same2 ▸ hf), h3.slot?_eq_none (same3 ▸ hf)]
            rfl
        | some field =>
            refine slotOver_assoc (fun slot hs => h1.slot_of_field hs hf)
              (fun slot hs => h2.slot_of_field hs (same2 ▸ hf))
              (fun slot hs => h3.slot_of_field hs (same3 ▸ hf)) ?_
            intro a b c ha hb hc
            have holds {record nested : Record}
                (hs : record.slot? tag = some (.single (.message nested)))
                : record.Holds nested :=
              holds_of_slot? hs (List.mem_singleton_self _)
            exact ih a (holds ha) (h1.inner (holds ha)) (h2.inner (holds hb)) (h3.inner (holds hc))
              (h1.type_eq_of_slots h2 same2 ha hb) (h1.type_eq_of_slots h3 same3 ha hc)
      · simpa using UnknownSet.extend_assoc h1.here.unknown.ascending h2.here.unknown.ascending
          h3.here.unknown.ascending

theorem overlay_empty (record : Record) (type : MessageType)
    : record.overlay (empty schema type) = record := by
  cases record
  rw [empty, overlay, slotsOver, UnknownSet.extend, List.foldl_nil]

theorem empty_overlay {record : Record} (h : record.Conforms schema)
    : (empty schema record.type).overlay record = record := by
  have he := empty_conforms h.here.typed
  refine ext_of_slots (by simpa using h.here.ofSchema.symm) (by simp)
    (ascending_overlay he.here.ascending _) h.here.ascending (fun tag => ?_) ?_
  · rw [slot?_overlay _ h.here.ascending]
    cases record.slot? tag <;> simp [slotOver]
  · rw [overlay_unknown]
    exact UnknownSet.nil_extend h.here.unknown.ascending

end Record

end Conforming

end TagWire
