import TagWire.Proofs.Records.UnknownLogs
import TagWire.Proofs.Schemas.MessageTypes
import TagWire.Proofs.Text.LineBreaks

/-!
What the listing of a record tells. There is a line for every scalar in the tree, two for every
nested record and one for every unknown unit, each where it belongs and as deep as it lies, and
no content makes a line more or a line less.
-/

namespace TagWire

-----------------------------------------------------------------------------------------
-- What there is to list
-----------------------------------------------------------------------------------------

/-- How many scalars, nested records and unknown units there are. -/
structure Census where
  scalars : Nat
  records : Nat
  units : Nat
  deriving DecidableEq, Repr

namespace Census

/-- Nothing at all. -/
def none : Census := ⟨0, 0, 0⟩

/-- What there is in two places. -/
def plus (census other : Census) : Census :=
  ⟨census.scalars + other.scalars, census.records + other.records, census.units + other.units⟩

/-- The lines that it takes: one for a scalar, two for a record and one for a unit. -/
def lines (census : Census) : Nat := census.scalars + 2 * census.records + census.units

theorem none_plus (census : Census) : none.plus census = census := by
  simp only [plus, none, Nat.zero_add]

theorem plus_none (census : Census) : census.plus none = census := rfl

theorem plus_assoc (first second third : Census)
    : (first.plus second).plus third = first.plus (second.plus third) := by
  simp only [plus, Nat.add_assoc]

theorem plus_comm (census other : Census) : census.plus other = other.plus census := by
  simp only [plus, Nat.add_comm]

theorem lines_plus (census other : Census)
    : (census.plus other).lines = census.lines + other.lines := by
  simp only [lines, plus]
  omega

end Census

mutual

/-- What there is in a value. A record is counted along with what is in it. -/
def Value.census : Value → Census
  | .scalar _ => ⟨1, 0, 0⟩
  | .message record => Census.plus ⟨0, 1, 0⟩ record.census

/-- What there is in some values. -/
def valuesCensus : List Value → Census
  | [] => .none
  | value :: rest => value.census.plus (valuesCensus rest)

/-- What there is in a slot. -/
def Slot.census : Slot → Census
  | .single value => value.census
  | .repeated values => valuesCensus values

/-- What there is in some slots. -/
def slotsCensus : List (Nat × Slot) → Census
  | [] => .none
  | (_, slot) :: rest => slot.census.plus (slotsCensus rest)

/-- What there is in a record, at every depth. -/
def Record.census : Record → Census
  | ⟨_, _, slots, unknown⟩ => (slotsCensus slots).plus ⟨0, 0, unknown.size⟩

end

/-- The lines of a value of a field, if those of a record in it are given. -/
def Value.layout (schema : Schema) (field : Field) (depth : Nat) (below : Record → List Line)
    : Value → List Line
  | .scalar value => [⟨depth, field.name ++ ": " ++ value.text schema field.kind⟩]
  | .message record => ⟨depth, field.name ++ " \x7b"⟩ :: (below record ++ [⟨depth, "\x7d"⟩])

/-- Lines list a record at a depth. The values of its fields come in the order in which the fields
are declared and the values stand, records in them one deeper; then come the unknown units, by
ascending tag and in order of arrival within a tag.
-/
inductive Record.Listed : Record → Nat → List Line → Prop
  | intro {record : Record} {depth : Nat} (below : Record → List Line) (units : List RawUnit)
    (nested : ∀ inner, record.Holds inner → inner.Listed (depth + 1) (below inner))
    (kept : record.unknown.Logs units)
    (byTag : units.Pairwise (fun unit later => unit.tag ≤ later.tag))
    : record.Listed depth
        (record.type.fields.flatMap (fun field =>
          (record.valuesAt field.tag).flatMap (Value.layout record.schema field depth below))
        ++ units.map (RawUnit.line depth))

/-- No name that a schema declares has a line break in it. -/
structure Schema.UnbrokenNames (schema : Schema) : Prop where
  fields : ∀ type ∈ schema.messages, ∀ field ∈ type.fields, Unbroken field.name
  values : ∀ enum ∈ schema.enums, ∀ value ∈ enum.values, Unbroken value.1

/-- Something is so of a record and of every record nested in it. -/
inductive Record.Throughout (p : Record → Prop) : Record → Prop
  | intro {record : Record} (here : p record)
    (below : ∀ nested, record.Holds nested → nested.Throughout p)
    : record.Throughout p

/-- A record is of a declared type and keeps its unknown units in good order. -/
structure Record.Orderly (record : Record) : Prop where
  declared : MessageType.describe record.type.name record.type.fields = .ok record.type
  kept : record.unknown.Filed

/-- No name that the lines of a record may show has a line break in it. -/
structure Record.UnbrokenNames (record : Record) : Prop where
  fields : ∀ field ∈ record.type.fields, Unbroken field.name
  values
    : ∀ field ∈ record.type.fields, ∀ name ∈ record.schema.valueNames field.kind, Unbroken name

namespace Record

variable {record : Record}

theorem Throughout.here {p : Record → Prop} (h : record.Throughout p) : p record := by
  cases h with
  | intro here _ => exact here

theorem Throughout.inner {p : Record → Prop} (h : record.Throughout p) {nested : Record}
    (hn : record.Holds nested)
    : nested.Throughout p := by
  cases h with
  | intro _ below => exact below nested hn

namespace Conforms

variable {schema : Schema}

/-- What is so of every sound record is so throughout a conforming one. -/
theorem throughout {p : Record → Prop} (h : record.Conforms schema)
    (sound : ∀ part : Record, part.Sound schema → p part)
    : record.Throughout p := by
  induction record using nestedInduction with
  | step record ih =>
      exact .intro (sound record h.here) (fun nested holds => ih nested holds (h.inner holds))

theorem orderly (built : schema.Built) (h : record.Conforms schema)
    : record.Throughout Orderly :=
  h.throughout (fun _ here =>
    ⟨built.messages _ (List.mem_of_find?_eq_some here.typed), here.unknown.allFiled⟩)

theorem unbrokenNames (plain : schema.UnbrokenNames) (h : record.Conforms schema)
    : record.Throughout UnbrokenNames := by
  refine h.throughout (fun part here => ⟨fun field hm => ?_, fun field _ name hn => ?_⟩)
  · exact plain.fields part.type (List.mem_of_find?_eq_some here.typed) field hm
  · rw [here.ofSchema] at hn
    obtain ⟨enum, he, value, hv, rfl⟩ := Schema.exists_of_mem_valueNames hn
    exact plain.values enum he value hv

end Conforms

end Record

-----------------------------------------------------------------------------------------
-- The lines that are written
-----------------------------------------------------------------------------------------

section Lines

variable {schema : Schema} {field : Field} {depth : Nat}

theorem Value.lines_eq_layout (value : Value)
    : value.lines schema field depth
      = value.layout schema field depth (Record.lines (depth + 1)) := by
  cases value <;> simp only [Value.lines, Value.layout]

theorem linesOfValues_eq_flatMap (values : List Value)
    : linesOfValues schema field depth values
      = values.flatMap (Value.lines schema field depth) := by
  induction values with
  | nil => simp only [linesOfValues, List.flatMap_nil]
  | cons value rest ih => rw [linesOfValues, ih, List.flatMap_cons]

theorem Slot.lines_eq_flatMap (slot : Slot)
    : slot.lines schema field depth
      = slot.values.flatMap (Value.lines schema field depth) := by
  cases slot with
  | single value => rw [Slot.lines, Slot.values_single, List.flatMap_singleton]
  | repeated values => rw [Slot.lines, linesOfValues_eq_flatMap, Slot.values_repeated]

/-- The lines at a tag are those of the slot there, if the tag is declared. -/
theorem find?_linesOfSlots (type : MessageType) (slots : List (Nat × Slot)) {tag : Nat}
    (hf : type.field? tag = some field)
    : TagMap.find? (linesOfSlots schema type depth slots) tag
      = (TagMap.find? slots tag).map (Slot.lines schema field depth) := by
  induction slots with
  | nil => simp only [linesOfSlots, TagMap.find?, Option.map_none]
  | cons entry rest ih =>
      obtain ⟨head, slot⟩ := entry
      rw [linesOfSlots]
      by_cases he : head = tag
      · subst he
        simp [hf, TagMap.find?]
      · cases type.field? head with
        | none => simpa [TagMap.find?, he] using ih
        | some other => simpa [TagMap.find?, he] using ih

end Lines

namespace Record

variable {record : Record} {depth : Nat} {lines : List Line}

theorem lines_eq
    (declared : MessageType.describe record.type.name record.type.fields = .ok record.type)
    (depth : Nat)
    : record.lines depth
      = record.type.fields.flatMap (fun field =>
          (record.valuesAt field.tag).flatMap (Value.lines record.schema field depth))
        ++ record.unknown.units.map (RawUnit.line depth) := by
  rcases record with ⟨schema, type, slots, unknown⟩
  rw [lines]
  refine congrArg (· ++ _) (List.flatMap_congr (fun field hm => ?_))
  rw [find?_linesOfSlots type slots (MessageType.field?_of_mem declared hm), valuesAt, slot?]
  cases TagMap.find? slots field.tag with
  | none => rfl
  | some slot => exact slot.lines_eq_flatMap

/-- What is written lists the record, by induction over its tree. -/
theorem Throughout.listed (orderly : record.Throughout Orderly) (depth : Nat)
    : record.Listed depth (record.lines depth) := by
  induction record using nestedInduction generalizing depth with
  | step record ih =>
      have kept := orderly.here.kept
      have layout : Value.lines record.schema
          = fun field depth => Value.layout record.schema field depth (lines (depth + 1)) := by
        funext field depth value
        exact value.lines_eq_layout
      rw [lines_eq orderly.here.declared, layout]
      exact .intro (lines (depth + 1)) record.unknown.units
        (fun inner holds => ih inner holds (orderly.inner holds) (depth + 1))
        ⟨kept.toOrdered, fun tag => (kept.filter_units_tag tag).symm⟩ kept.ascending_units

-----------------------------------------------------------------------------------------
-- How many there are
-----------------------------------------------------------------------------------------

/-- To go through the declared fields is to go through all values, if each slot is declared. -/
theorem Respects.values_perm (respects : record.Respects)
    (declared : MessageType.describe record.type.name record.type.fields = .ok record.type)
    : (record.type.fields.flatMap (fun field => record.valuesAt field.tag)).Perm
        (record.slots.flatMap (fun entry => entry.2.values)) := by
  have legal := MessageType.legal_of_describe declared
  have covered : ∀ entry ∈ record.slots, entry.1 ∈ record.type.tags := by
    intro entry he
    obtain ⟨field, hf, _⟩ := respects.slot (respects.ascending.find?_of_mem he)
    exact (legal.indexed.tags _).mpr
      (List.mem_map.mpr ⟨field, List.mem_of_find?_eq_some hf, MessageType.tag_of_field? hf⟩)
  have byTag : record.type.tags.flatMap record.valuesAt
      = record.slots.flatMap (fun entry => entry.2.values) :=
    respects.ascending.flatMap_find? legal.ascending_tags covered Slot.values
  rw [← byTag, ← List.flatMap_map]
  exact (record.type.tags_perm.flatMap_right record.valuesAt).symm

end Record

theorem valuesCensus_append (values more : List Value)
    : valuesCensus (values ++ more) = (valuesCensus values).plus (valuesCensus more) := by
  induction values with
  | nil => exact (Census.none_plus _).symm
  | cons value rest ih => rw [List.cons_append, valuesCensus, valuesCensus, ih, Census.plus_assoc]

/-- It does not matter in which order values are counted. -/
theorem valuesCensus_perm {values others : List Value} (h : values.Perm others)
    : valuesCensus values = valuesCensus others := by
  induction h with
  | nil => rfl
  | cons value _ ih => rw [valuesCensus, valuesCensus, ih]
  | swap first second rest =>
      simp only [valuesCensus]
      rw [← Census.plus_assoc, ← Census.plus_assoc, Census.plus_comm second.census]
  | trans _ _ first second => exact first.trans second

theorem Slot.census_eq (slot : Slot) : slot.census = valuesCensus slot.values := by
  cases slot with
  | single value => simp only [census, values_single, valuesCensus, Census.plus_none]
  | repeated values => simp only [census, values_repeated]

theorem slotsCensus_eq (slots : List (Nat × Slot))
    : slotsCensus slots = valuesCensus (slots.flatMap (fun entry => entry.2.values)) := by
  induction slots with
  | nil => simp only [slotsCensus, List.flatMap_nil, valuesCensus]
  | cons entry rest ih =>
      obtain ⟨tag, slot⟩ := entry
      rw [slotsCensus, slot.census_eq, ih, List.flatMap_cons, valuesCensus_append]

namespace Record

variable {record : Record} {depth : Nat} {lines : List Line}

theorem census_eq (record : Record)
    : record.census
      = (valuesCensus (record.slots.flatMap (fun entry => entry.2.values))).plus
          ⟨0, 0, record.unknown.size⟩ := by
  rcases record with ⟨schema, type, slots, unknown⟩
  rw [census, slotsCensus_eq]

end Record

section Layouts

variable {schema : Schema} {depth : Nat} {below : Record → List Line}

/-- A value takes the lines of its census, if a record in it does. -/
theorem Value.length_layout {field : Field} {value : Value}
    (nested : ∀ inner, value = .message inner → (below inner).length = inner.census.lines)
    : (value.layout schema field depth below).length = value.census.lines := by
  cases value with
  | scalar scalar => rfl
  | message inner =>
      have own : (Census.mk 0 1 0).lines = 2 := rfl
      rw [layout, List.length_cons, List.length_append, nested inner rfl, List.length_singleton,
        census, Census.lines_plus, own]
      omega

theorem length_flatMap_layout {field : Field} {values : List Value}
    (nested : ∀ inner, .message inner ∈ values → (below inner).length = inner.census.lines)
    : (values.flatMap (Value.layout schema field depth below)).length
      = (valuesCensus values).lines := by
  induction values with
  | nil => rfl
  | cons value rest ih =>
      have first : (value.layout schema field depth below).length = value.census.lines :=
        Value.length_layout (fun inner he => nested inner (by simp [he]))
      rw [List.flatMap_cons, List.length_append, first,
        ih (fun inner hm => nested inner (List.mem_cons_of_mem _ hm)), valuesCensus,
        Census.lines_plus]

/-- Fields take the lines of the census of their values, by induction on the fields. -/
theorem length_flatMap_fields {fields : List Field} {valuesOf : Field → List Value}
    (nested
      : ∀ field inner,
          .message inner ∈ valuesOf field → (below inner).length = inner.census.lines)
    : (fields.flatMap (fun field =>
        (valuesOf field).flatMap (Value.layout schema field depth below))).length
      = (valuesCensus (fields.flatMap valuesOf)).lines := by
  induction fields with
  | nil => rfl
  | cons field rest ih =>
      rw [List.flatMap_cons, List.length_append, length_flatMap_layout (nested field), ih,
        List.flatMap_cons, valuesCensus_append, Census.lines_plus]

end Layouts

namespace Record

variable {record : Record} {depth : Nat} {lines : List Line}

/-- Lines that list a record are as many as its census takes, by induction over its tree. -/
theorem Listed.length_eq (h : record.Listed depth lines) (respects : record.Respects)
    (orderly : record.Throughout Orderly)
    : lines.length = record.census.lines := by
  induction h with
  | @intro record depth below units nested kept byTag ih =>
      have inner (field : Field) (inner : Record)
          (hm : .message inner ∈ record.valuesAt field.tag)
          : (below inner).length = inner.census.lines := by
        have holds := holds_of_mem_valuesAt hm
        exact ih inner holds (respects.inner holds) (orderly.inner holds)
      have units : (Census.mk 0 0 record.unknown.size).lines = units.length := by
        rw [Census.lines, UnknownSet.size, kept.perm.length_eq, Nat.mul_zero, Nat.zero_add]
      rw [List.length_append, List.length_map, length_flatMap_fields inner,
        valuesCensus_perm (respects.values_perm orderly.here.declared), record.census_eq,
        Census.lines_plus, units]

/-- Lines that list a record have no break in them if the names have none, by induction over its
tree.
-/
theorem Listed.unbroken (h : record.Listed depth lines) (plain : record.Throughout UnbrokenNames)
    : ∀ line ∈ lines, Unbroken line.text := by
  induction h with
  | @intro record depth below units nested kept byTag ih =>
      intro line hl
      rcases List.mem_append.mp hl with hl | hl
      · obtain ⟨field, hm, hl⟩ := List.mem_flatMap.mp hl
        obtain ⟨value, hv, hl⟩ := List.mem_flatMap.mp hl
        have name := plain.here.fields field hm
        cases value with
        | scalar scalar =>
            obtain rfl := List.mem_singleton.mp hl
            have text := scalar.unbroken_text (plain.here.values field hm)
            exact (name.append (by decide)).append text
        | message inner =>
            have holds := holds_of_mem_valuesAt hv
            simp only [Value.layout, List.mem_cons, List.mem_append, List.not_mem_nil,
              or_false] at hl
            rcases hl with rfl | hl | rfl
            · exact name.append (by decide)
            · exact ih inner holds (plain.inner holds) line hl
            · exact (by decide : Unbroken "\x7d")
      · obtain ⟨unit, _, rfl⟩ := List.mem_map.mp hl
        exact unit.unbroken_line depth

/-- The listing of a record that respects its type, if no name has a line break in it. It is made of
lines that list the record, each behind two spaces for each level and ended by a line break; there
is one for every scalar, two for every nested record and one for every unknown unit, at all depths.
-/
theorem Respects.listing_exact (respects : record.Respects)
    (orderly : record.Throughout Orderly) (plain : record.Throughout UnbrokenNames)
    : ∃ lines,
        record.Listed 0 lines
        ∧ lines.length
          = record.census.scalars + 2 * record.census.records + record.census.units
        ∧ record.listing.toList.splitOn '\n'
          = lines.map (fun line => List.replicate (2 * line.depth) ' ' ++ line.text.toList)
            ++ [[]] := by
  have listed := orderly.listed 0
  refine ⟨record.lines 0, listed, listed.length_eq respects orderly, ?_⟩
  have written : record.listing.toList
      = ((record.lines 0).map (fun line =>
          List.replicate (2 * line.depth) ' ' ++ line.text.toList)).flatMap (· ++ ['\n']) := by
    rw [listing, String.toList_join, List.flatMap_map, List.flatMap_map]
    exact List.flatMap_congr (fun line _ => line.toList_render)
  rw [written]
  refine splitOn_flatMap_newline (fun chars hc => ?_)
  obtain ⟨line, hl, rfl⟩ := List.mem_map.mp hc
  have text := listed.unbroken plain line hl
  simpa [Unbroken] using text

end Record

namespace AddressBook

theorem schema_unbrokenNames : schema.UnbrokenNames where
  fields := by decide +kernel
  values := by decide +kernel

/-- A person whose name would end a line and begin another, if it were not quoted. -/
def forger : Record :=
  ⟨schema, person,
    [(1, .single (.scalar (.string "A\nid: 9"))), (2, .single (.scalar (.int32 5))),
      (4, .repeated [.message secondPhone])],
    [(5, [⟨5, .varint, [0x28, 0x07]⟩])]⟩

theorem conforms_forger : forger.Conforms schema := by
  have named : newcomer.set 1 (.scalar (.string "A\nid: 9")) = .ok forger := by rfl
  exact (Record.set_keeps conforms_newcomer (by simp) named).1

/-- Three scalars, one telephone and two unknown units take seven lines, whatever the name is. -/
theorem listing_exact_forger
    : forger.Respects
      ∧ forger.Throughout Record.Orderly
      ∧ forger.Throughout Record.UnbrokenNames
      ∧ ∃ lines,
          forger.Listed 0 lines
          ∧ lines.length = 7
          ∧ forger.listing.toList.splitOn '\n'
            = lines.map (fun line => List.replicate (2 * line.depth) ' ' ++ line.text.toList)
              ++ [[]]
          ∧ forger.listing
            = "name: \"A\\nid: 9\"\nid: 5\nphones \x7b\n  type: HOME\n"
              ++ "  2: <unknown VARINT, 2 bytes>\n\x7d\n5: <unknown VARINT, 2 bytes>\n" := by
  have respects := conforms_forger.respects
  have orderly := conforms_forger.orderly schema_built
  have plain := conforms_forger.unbrokenNames schema_unbrokenNames
  obtain ⟨lines, listed, count, told⟩ := Record.Respects.listing_exact respects orderly plain
  exact ⟨respects, orderly, plain, lines, listed, count, told, by decide +kernel⟩

end AddressBook

end TagWire
