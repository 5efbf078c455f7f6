import TagWire.Proofs.Decoding.PassThrough

/-!
Merging records of two schemas. A merge only asks for one name of the two types, and then moves
every slot, so the types have to agree on what is moved: exactly then the merged record respects its
type.
-/

namespace TagWire

/-- A slot has the shape of a field, and its values are of the field's kind. -/
inductive Slot.OfShape (field : Field) : Slot → Prop
  | single {value : Value} (singular : field.isRepeated = false)
    (ofKind : value.isOfKind field.kind = true)
    : Slot.OfShape field (.single value)
  | repeated {values : List Value} (repeated : field.isRepeated = true)
    (ofKind : ∀ value ∈ values, value.isOfKind field.kind = true)
    : Slot.OfShape field (.repeated values)

/-- A record respects its own type, and so does every record nested in it, of whatever schema. -/
inductive Record.Respects : Record → Prop
  | intro {record : Record} (ascending : TagMap.Ascending record.slots)
    (slots
      : ∀ {tag slot},
          record.slot? tag = some slot
          → ∃ field, record.type.field? tag = some field ∧ slot.OfShape field)
    (below : ∀ nested, record.Holds nested → nested.Respects)
    : record.Respects

/-- A record suits another if the other's type has a place for each of its slots. Where both hold a
single record, what matters is whether the one suits the other.
-/
inductive Record.Suits : Record → Record → Prop
  | intro {theirs mine : Record}
    (slots
      : ∀ {tag slot},
          theirs.slot? tag = some slot
          → (∃ field, mine.type.field? tag = some field ∧ slot.OfShape field)
            ∨ ∃ upper lower,
                slot = .single (.message upper)
                ∧ mine.slot? tag = some (.single (.message lower)))
    (below
      : ∀ {tag upper lower},
          theirs.slot? tag = some (.single (.message upper))
          → mine.slot? tag = some (.single (.message lower))
          → upper.Suits lower)
    : theirs.Suits mine

/-- A record and all that are nested in it are of the types that a schema has under their names. -/
inductive Record.TypedIn (schema : Schema) : Record → Prop
  | intro {record : Record} (typed : schema.message? record.type.name = some record.type)
    (below : ∀ nested, record.Holds nested → nested.TypedIn schema)
    : record.TypedIn schema

/-- Where two schemas have a type of one name, that of the first declares each field of the other's,
of the same kind, and repeated if it is repeated there.
-/
def Schema.TakesIn (schema other : Schema) : Prop :=
  ∀ {name type theirs tag field},
    schema.message? name = some type
    → other.message? name = some theirs
    → theirs.field? tag = some field
    → ∃ own,
        type.field? tag = some own
        ∧ own.isRepeated = field.isRepeated
        ∧ own.kind = field.kind

namespace Record.TypedIn

variable {schema : Schema} {record : Record}

theorem typed (h : record.TypedIn schema)
    : schema.message? record.type.name = some record.type := by
  cases h with
  | intro typed _ => exact typed

theorem inner (h : record.TypedIn schema) {nested : Record} (hn : record.Holds nested)
    : nested.TypedIn schema := by
  cases h with
  | intro _ below => exact below nested hn

end Record.TypedIn

namespace Record.Respects

variable {record : Record}

theorem ascending (h : record.Respects) : TagMap.Ascending record.slots := by
  cases h with
  | intro ascending _ _ => exact ascending

theorem slot (h : record.Respects) {tag : Nat} {slot : Slot} (hs : record.slot? tag = some slot)
    : ∃ field, record.type.field? tag = some field ∧ slot.OfShape field := by
  cases h with
  | intro _ slots _ => exact slots hs

theorem inner (h : record.Respects) {nested : Record} (hn : record.Holds nested)
    : nested.Respects := by
  cases h with
  | intro _ _ below => exact below nested hn

/-- Every tag that is set is declared, so whoever goes through the declared fields sees it. -/
theorem declared (h : record.Respects) {tag : Nat} (hset : record.isSet tag = true)
    : ∃ field, record.type.field? tag = some field := by
  obtain ⟨slot, hs⟩ := Option.isSome_iff_exists.mp hset
  obtain ⟨field, hf, _⟩ := h.slot hs
  exact ⟨field, hf⟩

/-- A record respects its type if each of its slots does and the records in them do. -/
theorem of_slots (ascending : TagMap.Ascending record.slots)
    (slots
      : ∀ {tag slot},
          record.slot? tag = some slot
          → (∃ field, record.type.field? tag = some field ∧ slot.OfShape field)
            ∧ ∀ nested, .message nested ∈ slot.values → nested.Respects)
    : record.Respects := by
  refine .intro ascending (fun hs => (slots hs).1) ?_
  rintro nested ⟨⟨tag, slot⟩, hentry, hm⟩
  exact (slots (ascending.find?_of_mem hentry)).2 nested hm

end Record.Respects

/-- A conforming record respects its type. -/
theorem Record.Conforms.respects {schema : Schema} {record : Record} (h : record.Conforms schema)
    : record.Respects := by
  induction record using Record.nestedInduction with
  | step record ih =>
      refine .intro h.here.ascending (fun {tag slot} hs => ?_)
        (fun nested holds => ih nested holds (h.inner holds))
      obtain ⟨field, hf, fits⟩ := h.here.slots hs
      refine ⟨field, hf, ?_⟩
      cases fits with
      | single singular fits => exact .single singular fits.ofKind
      | repeated repeated _ fits =>
          exact .repeated repeated (fun value hv => (fits value hv).ofKind)

/-- A conforming record is of the types of its schema. -/
theorem Record.Conforms.typedIn {schema : Schema} {record : Record} (h : record.Conforms schema)
    : record.TypedIn schema := by
  induction record using Record.nestedInduction with
  | step record ih =>
      exact .intro h.here.typed (fun nested holds => ih nested holds (h.inner holds))

/-- A newer schema takes in what is of an older one. -/
theorem Schema.Extends.takesIn {wide narrow : Schema} (h : wide.Extends narrow)
    : wide.TakesIn narrow := by
  intro name wider type tag field hwide hnarrow hf
  obtain ⟨declared, hd, covers⟩ := h.messages hnarrow
  obtain rfl := Option.some.inj (hwide.symm.trans hd)
  obtain ⟨own, ho, same⟩ := covers hf
  exact ⟨own, ho, same.isRepeated, same.kind⟩

-----------------------------------------------------------------------------------------
-- One slot over another
-----------------------------------------------------------------------------------------

namespace Slot.OfShape

variable {field : Field} {held : Option Slot} {slot : Slot}

/-- Two single records become one of the lower type. -/
theorem over_message {upper lower : Record}
    (h : (Slot.single (.message lower)).OfShape field)
    : ((Slot.single (.message upper)).over (some (.single (.message lower)))).OfShape field := by
  cases h with
  | single singular ofKind =>
      refine .single singular ?_
      rw [Value.over_message]
      simpa [Value.isOfKind] using ofKind

/-- Any other slot has a shape over another exactly if it has it alone. -/
theorem over_iff (hh : ∀ mine, held = some mine → mine.OfShape field)
    (apart
      : ∀ upper lower,
          slot = .single (.message upper) → held ≠ some (.single (.message lower)))
    : (slot.over held).OfShape field ↔ slot.OfShape field := by
  cases slot with
  | single value =>
      have same : (Slot.single value).over held = .single value := by
        cases value with
        | scalar scalar => rfl
        | message upper =>
            rw [Slot.over, Value.over_message]
            split
            · next lower => exact absurd rfl (apart upper lower rfl)
            · rfl
      rw [same]
  | repeated values =>
      rw [Slot.over_repeated]
      split
      · next mine =>
          have hmine := hh _ rfl
          constructor
          · rintro (_ | ⟨repeated, ofKind⟩)
            exact .repeated repeated (fun value hv => ofKind value (List.mem_append_right mine hv))
          · rintro (_ | ⟨repeated, ofKind⟩)
            cases hmine with
            | repeated _ ofMine =>
                refine .repeated repeated (fun value hv => ?_)
                rcases List.mem_append.mp hv with hv | hv
                · exact ofMine value hv
                · exact ofKind value hv
      · exact Iff.rfl

theorem transfer {own : Field} (h : slot.OfShape field)
    (hrepeated : own.isRepeated = field.isRepeated) (hkind : own.kind = field.kind)
    : slot.OfShape own := by
  cases h with
  | single singular ofKind => exact .single (hrepeated.trans singular) (hkind ▸ ofKind)
  | repeated repeated ofKind => exact .repeated (hrepeated.trans repeated) (hkind ▸ ofKind)

theorem kind_eq {record : Record} (h : (Slot.single (.message record)).OfShape field)
    : field.kind = .message record.type.name := by
  cases h with
  | single _ ofKind => simpa [Value.isOfKind] using ofKind

end Slot.OfShape

-----------------------------------------------------------------------------------------
-- One record over another
-----------------------------------------------------------------------------------------

namespace Record

variable {mine theirs : Record}

/-- What a merged record holds where the upper one has a slot. -/
theorem slot?_overlay_some (ascending : TagMap.Ascending theirs.slots) {tag : Nat} {slot : Slot}
    (hs : theirs.slot? tag = some slot)
    : (mine.overlay theirs).slot? tag = some (slot.over (mine.slot? tag)) := by
  rw [slot?_overlay _ ascending, hs]
  rfl

theorem Respects.shape_of_slot? (h : mine.Respects) {tag : Nat} {field : Field}
    (hf : mine.type.field? tag = some field)
    : ∀ held, mine.slot? tag = some held → held.OfShape field := by
  intro held hh
  obtain ⟨declared, hd, shape⟩ := h.slot hh
  obtain rfl := Option.some.inj (hd.symm.trans hf)
  exact shape

/-- If the merged record respects its type, the upper one suits it, by induction over the upper. -/
theorem Respects.suits (hm : mine.Respects) (ht : theirs.Respects)
    (h : (mine.overlay theirs).Respects)
    : theirs.Suits mine := by
  induction theirs using Record.nestedInduction generalizing mine with
  | step theirs ih =>
      refine .intro (fun {tag slot} hs => ?_) (fun {tag upper lower} hu hl => ?_)
      · by_cases merges : ∃ upper lower,
            slot = .single (.message upper) ∧ mine.slot? tag = some (.single (.message lower))
        · exact .inr merges
        · obtain ⟨field, hf, shape⟩ := h.slot (slot?_overlay_some ht.ascending hs)
          rw [overlay_type] at hf
          refine .inl ⟨field, hf, ?_⟩
          exact (Slot.OfShape.over_iff (hm.shape_of_slot? hf)
            (fun upper lower he hl => merges ⟨upper, lower, he, hl⟩)).mp shape
      · have hupper := holds_of_slot? hu (List.mem_singleton_self (Value.message upper))
        have hlower := holds_of_slot? hl (List.mem_singleton_self (Value.message lower))
        have hmerged : (mine.overlay theirs).slot? tag
            = some (.single (.message (lower.overlay upper))) := by
          rw [slot?_overlay_some ht.ascending hu, hl, Slot.over, Value.over_message]
        exact ih upper hupper (hm.inner hlower) (ht.inner hupper)
          (h.inner (holds_of_slot? hmerged (List.mem_singleton_self _)))

/-- If the upper record suits the lower, what is merged respects its type. -/
theorem Suits.respects (hm : mine.Respects) (ht : theirs.Respects) (h : theirs.Suits mine)
    : (mine.overlay theirs).Respects := by
  induction theirs using Record.nestedInduction generalizing mine with
  | step theirs ih =>
      rcases h with ⟨slots, below⟩
      refine .of_slots (ascending_overlay hm.ascending _) (fun {tag merged} hs => ?_)
      rw [overlay_type]
      cases hu : theirs.slot? tag with
      | none =>
          rw [slot?_overlay _ ht.ascending, hu] at hs
          exact ⟨hm.slot hs, fun nested hv => hm.inner (holds_of_slot? hs hv)⟩
      | some slot =>
          obtain rfl := Option.some.inj ((slot?_overlay_some ht.ascending hu).symm.trans hs)
          refine ⟨?_, fun nested hv => ?_⟩
          · by_cases merges : ∃ upper lower,
                slot = .single (.message upper)
                ∧ mine.slot? tag = some (.single (.message lower))
            · obtain ⟨upper, lower, rfl, hl⟩ := merges
              obtain ⟨field, hf, shape⟩ := hm.slot hl
              exact ⟨field, hf, hl ▸ shape.over_message⟩
            · rcases slots hu with ⟨field, hf, shape⟩ | merged
              · refine ⟨field, hf, (Slot.OfShape.over_iff (hm.shape_of_slot? hf) ?_).mpr shape⟩
                exact fun upper lower he hl => merges ⟨upper, lower, he, hl⟩
              · exact absurd merged merges
          · rcases Slot.mem_values_over hv with hv | ⟨held, hh, hv⟩ | ⟨lower, upper, hh, rfl, he⟩
            · exact ht.inner (holds_of_slot? hu hv)
            · exact hm.inner (holds_of_slot? hh hv)
            · have hupper := holds_of_slot? hu (List.mem_singleton_self (Value.message upper))
              have hlower := holds_of_slot? hh (List.mem_singleton_self (Value.message lower))
              obtain rfl := Value.message.inj he
              exact ih upper hupper (hm.inner hlower) (ht.inner hupper) (below hu hh)

/-- Of two schemas that agree, a record of the second suits one of the first with its type name, by
induction over the former.
-/
theorem TypedIn.suits {first second : Schema} (agree : first.TakesIn second)
    (hm : mine.TypedIn first) (ht : theirs.TypedIn second) (hmine : mine.Respects)
    (htheirs : theirs.Respects) (same : theirs.type.name = mine.type.name)
    : theirs.Suits mine := by
  induction theirs using Record.nestedInduction generalizing mine with
  | step theirs ih =>
      have place {tag : Nat} {slot : Slot} (hs : theirs.slot? tag = some slot)
          : ∃ field, mine.type.field? tag = some field ∧ slot.OfShape field := by
        obtain ⟨field, hf, shape⟩ := htheirs.slot hs
        obtain ⟨own, ho, hrepeated, hkind⟩ := agree hm.typed (same ▸ ht.typed) hf
        exact ⟨own, ho, shape.transfer hrepeated hkind⟩
      refine .intro (fun hs => .inl (place hs)) (fun {tag upper lower} hu hl => ?_)
      have hupper := holds_of_slot? hu (List.mem_singleton_self (Value.message upper))
      have hlower := holds_of_slot? hl (List.mem_singleton_self (Value.message lower))
      -- Both stand in one field of the first type, which names the type of both.
      obtain ⟨field, hf, shape⟩ := place hu
      have sameInner : upper.type.name = lower.type.name := by
        have hlow := hmine.shape_of_slot? hf _ hl
        exact Kind.message.inj (shape.kind_eq.symm.trans hlow.kind_eq)
      exact ih upper hupper (hm.inner hlower) (ht.inner hupper) (hmine.inner hlower)
        (htheirs.inner hupper) sameInner

/-- What a successful merge makes of two records that respect their types, whatever schemas they are
of. It respects its type, and so does every record in it, exactly if the second record suits the
first; for records of two schemas that agree on the types they share this is always so.
-/
theorem respects_merge_iff {merged : Record} (hm : mine.Respects) (ht : theirs.Respects)
    (h : mine.merge theirs = .ok merged)
    : (merged.Respects ↔ theirs.Suits mine)
      ∧ ∀ {first second : Schema},
          first.TakesIn second
          → mine.TypedIn first
          → theirs.TypedIn second
          → merged.Respects := by
  obtain ⟨same, rfl⟩ := of_merge_eq_ok h
  exact ⟨⟨hm.suits ht, Suits.respects hm ht⟩, fun agree typed typedTheirs =>
    (typed.suits agree typedTheirs hm ht same).respects hm ht⟩

end Record

namespace AddressBook

/-- A telephone with a number. -/
def numbered : Record := ⟨schema, phone, [(1, .single (.scalar (.string "5")))], []⟩

/-- A telephone of the older schema, which has a sort only. -/
def plainMobile : Record := ⟨plainSchema, plainPhone, [(2, .single (.scalar (.enum 0)))], []⟩

theorem conforms_numbered : numbered.Conforms schema := by
  have read : Record.decode schema phone.name [0x0A, 0x01, 0x35] {} = .ok numbered := rfl
  exact (Record.Reachable.decoded read).conforms

theorem conforms_plainMobile : plainMobile.Conforms plainSchema := by
  have read : Record.decode plainSchema phone.name [0x10, 0x00] {} = .ok plainMobile := rfl
  exact (Record.Reachable.decoded read).conforms

/-- The newer telephone has a place for all that the older one may hold. -/
theorem respects_merge_iff_phone
    : ∃ merged,
        numbered.merge plainMobile = .ok merged
        ∧ (merged.Respects ↔ plainMobile.Suits numbered)
        ∧ merged.Respects := by
  have merged : numbered.merge plainMobile = .ok (numbered.overlay plainMobile) := rfl
  obtain ⟨suits, agreeing⟩ := Record.respects_merge_iff conforms_numbered.respects
    conforms_plainMobile.respects merged
  exact ⟨_, merged, suits,
    agreeing schema_extends.takesIn conforms_numbered.typedIn conforms_plainMobile.typedIn⟩

/-- The older telephone has none for a number. It is merged all the same, and set, but it is not
declared and not written.
-/
theorem merge_hides_number
    : plainSchema.Built
      ∧ schema.Built
      ∧ plainMobile.Respects
      ∧ numbered.Respects
      ∧ ∃ merged,
          plainMobile.merge numbered = .ok merged
          ∧ ¬ merged.Respects
          ∧ merged.isSet 1 = true
          ∧ merged.type.field? 1 = none
          ∧ merged.bytes = plainMobile.bytes := by
  refine ⟨plainSchema_built, schema_built, conforms_plainMobile.respects,
    conforms_numbered.respects, plainMobile.overlay numbered, rfl, fun respects => ?_, rfl, rfl,
    by decide +kernel⟩
  have hset : (plainMobile.overlay numbered).isSet 1 = true := rfl
  obtain ⟨field, hf⟩ := respects.declared hset
  cases hf

end AddressBook

end TagWire
