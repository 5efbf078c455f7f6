import TagWire.Proofs.Decoding.Reference

/-!
Records made up from readings. What a record holds at a tag depends only on what was read for that
tag; readings in a row make up the merge of what each part makes up.
-/

namespace TagWire

namespace Reading

@[simp] theorem valuesAt_nil (tag : Nat) : valuesAt [] tag = [] := rfl

@[simp] theorem keptAt_nil (tag : Nat) : keptAt [] tag = [] := rfl

@[simp] theorem valuesAt_append (left right : List Reading) (tag : Nat)
    : valuesAt (left ++ right) tag = valuesAt left tag ++ valuesAt right tag := by
  simp [valuesAt]

@[simp] theorem keptAt_append (left right : List Reading) (tag : Nat)
    : keptAt (left ++ right) tag = keptAt left tag ++ keptAt right tag := by
  simp [keptAt]

theorem valuesAt_singleton (reading : Reading) (tag : Nat)
    : valuesAt [reading] tag = if reading.tag = tag then reading.values else [] := by
  by_cases h : reading.tag = tag <;> simp [valuesAt, h]

theorem keptAt_singleton (reading : Reading) (tag : Nat)
    : keptAt [reading] tag = if reading.tag = tag then reading.kept else [] := by
  by_cases h : reading.tag = tag <;> simp [keptAt, h]

theorem exists_of_mem_valuesAt {readings : List Reading} {tag : Nat} {value : Value}
    (h : value ∈ valuesAt readings tag)
    : ∃ reading ∈ readings, reading.tag = tag ∧ value ∈ reading.values := by
  obtain ⟨reading, hr, hv⟩ := List.mem_flatMap.mp h
  obtain ⟨hm, ht⟩ := List.mem_filter.mp hr
  exact ⟨reading, hm, by simpa using ht, hv⟩

theorem exists_of_mem_keptAt {readings : List Reading} {tag : Nat} {unit : RawUnit}
    (h : unit ∈ keptAt readings tag)
    : ∃ reading ∈ readings, reading.tag = tag ∧ unit ∈ reading.kept := by
  obtain ⟨reading, hr, hv⟩ := List.mem_flatMap.mp h
  obtain ⟨hm, ht⟩ := List.mem_filter.mp hr
  exact ⟨reading, hm, by simpa using ht, hv⟩

/-- A reading fits a type: its values are for a declared field, and its kept units have no place.
-/
structure Fits (schema : Schema) (type : MessageType) (reading : Reading) : Prop where
  values
    : ∀ value ∈ reading.values,
        ∃ field, type.field? reading.tag = some field ∧ value.Conforms schema field.kind
  filed : ∀ unit ∈ reading.kept, unit.tag = reading.tag
  keepable : ∀ unit ∈ reading.kept, unit.Keepable schema type

theorem Fits.valuesAt {schema : Schema} {type : MessageType} {readings : List Reading}
    (h : ∀ reading ∈ readings, reading.Fits schema type) {tag : Nat} {field : Field}
    (hf : type.field? tag = some field)
    : ∀ value ∈ Reading.valuesAt readings tag, value.Conforms schema field.kind := by
  intro value hv
  obtain ⟨reading, hr, rfl, hm⟩ := exists_of_mem_valuesAt hv
  obtain ⟨declared, hd, hc⟩ := (h reading hr).values value hm
  obtain rfl := Option.some.inj (hd.symm.trans hf)
  exact hc

end Reading

namespace Reference

variable {schema : Schema} {type : MessageType}

theorem later_conforms {kind : Kind} {first second : Value} (h1 : first.Conforms schema kind)
    (h2 : second.Conforms schema kind)
    : (later first second).Conforms schema kind := by
  cases second with
  | scalar scalar => cases first <;> exact h2
  | message theirs =>
      cases first with
      | scalar scalar => exact h2
      | message mine =>
          have cm := h1.nested _ rfl
          have ct := h2.nested _ rfl
          have same := cm.type_eq ct
            (by simpa using h1.fits.kind_eq.symm.trans h2.fits.kind_eq)
          have merged := Value.Conforms.message (cm.overlay ct same)
          rwa [Record.overlay_type, ← h1.fits.kind_eq] at merged

theorem later_assoc {kind : Kind} {first second third : Value}
    (h1 : first.Conforms schema kind) (h2 : second.Conforms schema kind)
    (h3 : third.Conforms schema kind)
    : later (later first second) third = later first (later second third) := by
  cases third with
  | scalar scalar => cases first <;> cases second <;> rfl
  | message c =>
      have hk := h3.fits.kind_eq
      obtain ⟨b, rfl, hb⟩ := Value.Fits.exists_record (hk ▸ h2.fits)
      obtain ⟨a, rfl, ha⟩ := Value.Fits.exists_record (hk ▸ h1.fits)
      have ca := h1.nested _ rfl
      have cb := h2.nested _ rfl
      have cc := h3.nested _ rfl
      have sameB := ca.type_eq cb (ha.trans hb.symm)
      have sameC := ca.type_eq cc ha
      simp only [later, Record.overlay_assoc ca cb cc sameB sameC]

theorem foldl_later_conforms {kind : Kind} {first : Value} {rest : List Value}
    (h : first.Conforms schema kind) (hr : ∀ value ∈ rest, value.Conforms schema kind)
    : (rest.foldl later first).Conforms schema kind := by
  induction rest generalizing first with
  | nil => exact h
  | cons next rest ih =>
      exact ih (later_conforms h (hr next (by simp))) (fun value hv => hr value (by simp [hv]))

theorem foldl_later_cons {kind : Kind} {first next : Value} {rest : List Value}
    (h : first.Conforms schema kind) (hn : next.Conforms schema kind)
    (hr : ∀ value ∈ rest, value.Conforms schema kind)
    : rest.foldl later (later first next) = later first (rest.foldl later next) := by
  induction rest generalizing next with
  | nil => rfl
  | cons third rest ih =>
      have h3 := hr third (by simp)
      rw [List.foldl_cons, List.foldl_cons, later_assoc h hn h3]
      exact ih (later_conforms hn h3) (fun value hv => hr value (by simp [hv]))

theorem slotOf?_conforms {field : Field} {values : List Value} {slot : Slot}
    (hv : ∀ value ∈ values, value.Conforms schema field.kind)
    (h : slotOf? field values = some slot)
    : slot.Conforms schema field := by
  cases values with
  | nil => simp [slotOf?] at h
  | cons first rest =>
      obtain rfl := Option.some.inj h
      split
      · next hrep => exact .repeated hrep (by simp) hv
      · next hrep =>
          exact .single (by simpa using hrep)
            (foldl_later_conforms (hv first List.mem_cons_self)
              (fun value hm => hv value (List.mem_cons_of_mem first hm)))

/-- What a field holds after two runs of values is what the second leaves over what the first
leaves.
-/
theorem slotOf?_append {field : Field} {left right : List Value}
    (hl : ∀ value ∈ left, value.Conforms schema field.kind)
    (hr : ∀ value ∈ right, value.Conforms schema field.kind)
    : slotOf? field (left ++ right) = slotOver (slotOf? field left) (slotOf? field right) := by
  cases right with
  | nil => simp [slotOf?, slotOver]
  | cons next more =>
      cases left with
      | nil => simp [slotOf?, slotOver]
      | cons first rest =>
          by_cases hrep : field.isRepeated
          · simp [slotOf?, slotOver, hrep, Slot.over_repeated]
          -- What comes later is merged at once, or into its own merge first: the values conform, so
          -- both are the same.
          · have hfirst := foldl_later_conforms (hl first List.mem_cons_self)
              (fun value hv => hl value (List.mem_cons_of_mem first hv))
            have hjoin := foldl_later_cons hfirst (hr next List.mem_cons_self)
              (fun value hv => hr value (List.mem_cons_of_mem next hv))
            have hover (held value : Value)
                : value.over (some (.single held)) = later held value := by
              cases value <;> cases held <;> rfl
            simp only [slotOf?, slotOver, hrep, Slot.over, hover, List.cons_append,
              List.foldl_append, List.foldl_cons, hjoin, Bool.false_eq_true, if_false]

theorem entryOf?_getD (units : List RawUnit) : (entryOf? units).getD [] = units := by
  cases units <;> rfl

theorem entryOf?_eq_some_iff {units held : List RawUnit}
    : entryOf? units = some held ↔ units = held ∧ held ≠ [] := by
  cases units with
  | nil => simp +contextual [entryOf?, eq_comm]
  | cons unit rest =>
      simp only [entryOf?, Option.some.injEq]
      constructor
      · rintro rfl
        exact ⟨rfl, List.cons_ne_nil unit rest⟩
      · exact And.left

theorem entryOf?_unitsAt {set : UnknownSet} {tag : Nat}
    (filled : ∀ units, TagMap.find? set tag = some units → units ≠ [])
    : entryOf? (set.unitsAt tag) = TagMap.find? set tag := by
  rw [UnknownSet.unitsAt]
  cases hf : TagMap.find? set tag with
  | none => rfl
  | some held => exact entryOf?_eq_some_iff.mpr ⟨rfl, filled held hf⟩

@[simp] theorem gather_schema (readings : List Reading)
    : (gather schema type readings).schema = schema :=
  rfl

@[simp] theorem gather_type (readings : List Reading)
    : (gather schema type readings).type = type :=
  rfl

theorem mem_tags_of_valuesAt {readings : List Reading} {tag : Nat}
    (h : Reading.valuesAt readings tag ≠ [])
    : tag ∈ readings.map Reading.tag := by
  obtain ⟨value, hv⟩ := List.exists_mem_of_ne_nil _ h
  obtain ⟨reading, hr, rfl, _⟩ := Reading.exists_of_mem_valuesAt hv
  exact List.mem_map_of_mem hr

theorem mem_tags_of_keptAt {readings : List Reading} {tag : Nat}
    (h : Reading.keptAt readings tag ≠ [])
    : tag ∈ readings.map Reading.tag := by
  obtain ⟨unit, hu⟩ := List.exists_mem_of_ne_nil _ h
  obtain ⟨reading, hr, rfl, _⟩ := Reading.exists_of_mem_keptAt hu
  exact List.mem_map_of_mem hr

theorem slot?_gather (readings : List Reading) (tag : Nat)
    : (gather schema type readings).slot? tag
      = (type.field? tag).bind (fun field => slotOf? field (Reading.valuesAt readings tag)) := by
  refine TagMap.find?_tabulate_of_mem (fun h => mem_tags_of_valuesAt (fun hn => h ?_))
  rw [hn]
  cases type.field? tag <;> rfl

theorem find?_unknown_gather (readings : List Reading) (tag : Nat)
    : TagMap.find? (gather schema type readings).unknown tag
      = entryOf? (Reading.keptAt readings tag) := by
  refine TagMap.find?_tabulate_of_mem (fun h => mem_tags_of_keptAt (fun hn => h ?_))
  rw [hn]
  rfl

theorem unitsAt_gather (readings : List Reading) (tag : Nat)
    : (gather schema type readings).unknown.unitsAt tag = Reading.keptAt readings tag := by
  rw [UnknownSet.unitsAt, find?_unknown_gather, entryOf?_getD]

theorem gather_ascending (readings : List Reading)
    : TagMap.Ascending (gather schema type readings).slots :=
  TagMap.ascending_tabulate _ _

theorem gather_unknown_ascending (readings : List Reading)
    : TagMap.Ascending (gather schema type readings).unknown :=
  TagMap.ascending_tabulate _ _

/-- A made-up record depends on its readings only by what they say at each tag. -/
theorem gather_congr {left right : List Reading}
    (values : ∀ tag, Reading.valuesAt left tag = Reading.valuesAt right tag)
    (kept : ∀ tag, Reading.keptAt left tag = Reading.keptAt right tag)
    : gather schema type left = gather schema type right := by
  refine Record.ext_of_slots rfl rfl (gather_ascending left) (gather_ascending right)
    (fun tag => ?_)
    ((gather_unknown_ascending left).ext (gather_unknown_ascending right) (fun tag => ?_))
  · rw [slot?_gather, slot?_gather, values tag]
  · rw [find?_unknown_gather, find?_unknown_gather, kept tag]

/-- Readings for one tag say all that they say at it, and nothing elsewhere. -/
theorem valuesAt_of_tag {tag : Nat} {readings : List Reading}
    (h : ∀ reading ∈ readings, reading.tag = tag) (other : Nat)
    : Reading.valuesAt readings other
        = (if tag = other then readings.flatMap Reading.values else [])
      ∧ Reading.keptAt readings other
        = if tag = other then readings.flatMap Reading.kept else [] := by
  by_cases ho : tag = other
  · have all : readings.filter (fun reading => reading.tag == other) = readings :=
      List.filter_eq_self.mpr (fun reading hr => by simp [h reading hr, ho])
    rw [Reading.valuesAt, Reading.keptAt, all, if_pos ho, if_pos ho]
    exact ⟨rfl, rfl⟩
  · have noOther : readings.filter (fun reading => reading.tag == other) = [] :=
      List.filter_eq_nil_iff.mpr (fun reading hr => by simp [h reading hr, ho])
    rw [Reading.valuesAt, Reading.keptAt, noOther, if_neg ho, if_neg ho]
    exact ⟨rfl, rfl⟩

/-- Readings for one tag make up what a reading of all that they say makes up. -/
theorem gather_joined {tag : Nat} {readings : List Reading}
    (h : ∀ reading ∈ readings, reading.tag = tag)
    : gather schema type readings
      = gather schema type
          [⟨tag, readings.flatMap Reading.values, readings.flatMap Reading.kept⟩] := by
  refine gather_congr (fun other => ?_) (fun other => ?_)
  · rw [(valuesAt_of_tag h other).1, Reading.valuesAt_singleton]
  · rw [(valuesAt_of_tag h other).2, Reading.keptAt_singleton]

/-- Readings that fit make up a conforming record. -/
theorem gather_conforms {name : String} {readings : List Reading}
    (typed : schema.message? name = some type)
    (h : ∀ reading ∈ readings, reading.Fits schema type)
    : (gather schema type readings).Conforms schema := by
  have hname := Schema.name_of_message? typed
  refine .of_slots rfl (hname.symm ▸ typed) (gather_ascending readings) (fun {tag slot} hs => ?_)
    ⟨gather_unknown_ascending _, fun {tag units} hu => ?_, fun {tag units} hu unit hm => ?_,
      fun {tag units} hu unit hm => ?_⟩
  · rw [slot?_gather] at hs
    obtain ⟨field, hf, hs⟩ := Option.bind_eq_some_iff.mp hs
    exact ⟨field, hf, slotOf?_conforms (Reading.Fits.valuesAt h hf) hs⟩
  · rw [find?_unknown_gather] at hu
    exact (entryOf?_eq_some_iff.mp hu).2
  all_goals
    rw [find?_unknown_gather] at hu
    obtain ⟨reading, hr, rfl, hk⟩ :=
      Reading.exists_of_mem_keptAt ((entryOf?_eq_some_iff.mp hu).1 ▸ hm)
  · exact (h reading hr).filed unit hk
  · exact (h reading hr).keepable unit hk

/-- Two runs of readings make up the merge of what each makes up. -/
theorem gather_append {left right : List Reading}
    (hl : ∀ reading ∈ left, reading.Fits schema type)
    (hr : ∀ reading ∈ right, reading.Fits schema type)
    : gather schema type (left ++ right)
      = (gather schema type left).overlay (gather schema type right) := by
  refine Record.ext_of_slots (by simp) (by simp) (gather_ascending _)
    (Record.ascending_overlay (gather_ascending _) _) (fun tag => ?_)
    ((gather_unknown_ascending _).ext ?_ (fun tag => ?_))
  · rw [Record.slot?_overlay _ (gather_ascending _), slot?_gather, slot?_gather, slot?_gather,
      Reading.valuesAt_append]
    cases hf : type.field? tag with
    | none => rfl
    | some field =>
        exact slotOf?_append (Reading.Fits.valuesAt hl hf) (Reading.Fits.valuesAt hr hf)
  · rw [Record.overlay_unknown]
    exact UnknownSet.ascending_extend (gather_unknown_ascending _) _
  · rw [Record.overlay_unknown, UnknownSet.find?_extend _ (gather_unknown_ascending _),
      UnknownSet.unitsAt, find?_unknown_gather, find?_unknown_gather, find?_unknown_gather,
      Reading.keptAt_append, entryOf?_getD]
    cases Reading.keptAt right tag with
    | nil => simp [entryOf?]
    | cons unit rest => cases Reading.keptAt left tag <;> rfl

end Reference

end TagWire
