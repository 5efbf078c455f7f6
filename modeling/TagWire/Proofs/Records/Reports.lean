import TagWire.Proofs.Encoding.Checking
import TagWire.Proofs.Records.Completeness
import TagWire.Proofs.Records.Positions

/-!
The report of the required fields that a record lacks. It has one path for each position at which a
required field is unset, in the record itself or in one nested in it that is there, and all ways to
encode or decode with a check let a record pass exactly if its report is empty.
-/

namespace TagWire

/-- A required field is unset at a position, in the record or in one nested in it. Below a field
that is unset there is nothing.
-/
inductive Record.Lacks : Record → Position → Prop
  | here {record : Record} {field : Field} (declared : field ∈ record.type.fields)
    (required : field.isRequired = true) (unset : record.slot? field.tag = none)
    : record.Lacks [.field field.name]
  | inField {record nested : Record} {field : Field} {position : Position}
    (declared : field ∈ record.type.fields)
    (held : record.slot? field.tag = some (.single (.message nested)))
    (below : nested.Lacks position)
    : record.Lacks (.field field.name :: position)
  | inElement {record nested : Record} {field : Field} {values : List Value} {index : Nat}
    {position : Position} (declared : field ∈ record.type.fields)
    (held : record.slot? field.tag = some (.repeated values))
    (element : values[index]? = some (.message nested)) (below : nested.Lacks position)
    : record.Lacks (.field field.name :: .index index :: position)

/-- The field names of a schema are plain. -/
def Schema.PlainNames (schema : Schema) : Prop :=
  ∀ type ∈ schema.messages, ∀ field ∈ type.fields, PlainName field.name

instance (schema : Schema) : Decidable schema.PlainNames :=
  inferInstanceAs (Decidable (∀ type ∈ _, _))

-----------------------------------------------------------------------------------------
-- What is missing in a list of values
-----------------------------------------------------------------------------------------

theorem mem_missingFrom {start : Nat} {values : List Value} {position : Position}
    : position ∈ missingFrom start values
      ↔ ∃ index nested below,
          values[index]? = some (.message nested)
          ∧ below ∈ nested.missing
          ∧ position = .index (start + index) :: below := by
  induction values generalizing start with
  | nil => simp [missingFrom]
  | cons value rest ih =>
      rw [missingFrom, List.mem_append, ih]
      constructor
      · rintro (hm | ⟨index, nested, below, he, hb, rfl⟩)
        · obtain ⟨below, hb, rfl⟩ := List.mem_map.mp hm
          cases value with
          | scalar scalar => simp [Value.missing] at hb
          | message nested => exact ⟨0, nested, below, rfl, hb, rfl⟩
        · exact ⟨index + 1, nested, below, he, hb, by simp [Nat.add_comm, Nat.add_left_comm]⟩
      · rintro ⟨index, nested, below, he, hb, rfl⟩
        cases index with
        | zero =>
            obtain rfl : value = .message nested := Option.some.inj he
            exact .inl (List.mem_map_of_mem hb)
        | succ index =>
            exact .inr ⟨index, nested, below, he, hb, by simp [Nat.add_comm, Nat.add_left_comm]⟩

/-- Nothing is reported twice of a list of values, if nothing is of each: an index is met once. -/
theorem nodup_missingFrom {start : Nat} {values : List Value}
    (h : ∀ nested, .message nested ∈ values → nested.missing.Nodup)
    : (missingFrom start values).Nodup := by
  induction values generalizing start with
  | nil => exact List.nodup_nil
  | cons value rest ih =>
      rw [missingFrom]
      refine List.Nodup.append ?_ (ih (fun nested hm => h nested (List.mem_cons_of_mem _ hm))) ?_
      · refine List.Nodup.map (List.cons_injective) ?_
        cases value with
        | scalar scalar => exact List.nodup_nil
        | message nested => exact h nested List.mem_cons_self
      · intro position hhere hlater
        obtain ⟨_, _, rfl⟩ := List.mem_map.mp hhere
        obtain ⟨index, _, _, _, _, he⟩ := mem_missingFrom.mp hlater
        simp at he
        omega

-----------------------------------------------------------------------------------------
-- What is missing in a record
-----------------------------------------------------------------------------------------

namespace Record

variable {schema : Schema} {record : Record}

/-- What is missing at a field is reported below the field. -/
theorem name_of_mem_missingAt {field : Field} {position : Position}
    (h : position ∈ record.missingAt field)
    : position.head? = some (.field field.name) := by
  rw [missingAt] at h
  split at h
  · split at h
    · rw [List.mem_singleton.mp h]
      rfl
    · simp at h
  · split at h
    · obtain ⟨_, _, rfl⟩ := List.mem_map.mp h
      rfl
    · simp at h
  · obtain ⟨_, _, rfl⟩ := List.mem_map.mp h
    rfl

/-- Nothing is reported twice at a field, if nothing is in the records that it holds. -/
theorem nodup_missingAt {field : Field}
    (h : ∀ nested, record.Holds nested → nested.missing.Nodup)
    : (record.missingAt field).Nodup := by
  rw [missingAt]
  split
  · split
    · exact List.nodup_singleton _
    · exact List.nodup_nil
  · next values hs =>
      split
      · refine List.Nodup.map List.cons_injective (nodup_missingFrom (fun nested hm => ?_))
        exact h nested (holds_of_slot? hs hm)
      · exact List.nodup_nil
  · next value hs =>
      refine List.Nodup.map List.cons_injective ?_
      cases value with
      | scalar scalar => exact List.nodup_nil
      | message nested => exact h nested (holds_of_slot? hs (List.mem_singleton_self _))

/-- No position is reported twice, by induction over the records that a record holds: the fields of
a type have names of their own.
-/
theorem Conforms.nodup_missing (built : schema.Built) (hc : record.Conforms schema)
    : record.missing.Nodup := by
  induction record using Record.nestedInduction with
  | step record ih =>
      rw [missing_eq, List.nodup_flatMap]
      refine ⟨fun field _ => nodup_missingAt (fun nested hn => ih nested hn (hc.inner hn)), ?_⟩
      have names := MessageType.nodup_names
        (built.messages _ (List.mem_of_find?_eq_some hc.here.typed))
      refine (List.pairwise_map.mp names).imp (fun {field other} hne position hf ho => hne ?_)
      have same := (name_of_mem_missingAt hf).symm.trans (name_of_mem_missingAt ho)
      simpa using same

/-- What is reported at a field is lacking, if what is reported of the records that it holds is. -/
theorem lacks_of_mem_missingAt {field : Field} (declared : field ∈ record.type.fields)
    (below
      : ∀ nested, record.Holds nested → ∀ position ∈ nested.missing, nested.Lacks position)
    {position : Position} (h : position ∈ record.missingAt field)
    : record.Lacks position := by
  rw [missingAt] at h
  split at h
  · next hs =>
      split at h
      · next hr =>
          rw [List.mem_singleton.mp h]
          exact .here declared hr hs
      · simp at h
  · next values hs =>
      split at h
      · obtain ⟨_, hm, rfl⟩ := List.mem_map.mp h
        obtain ⟨index, nested, rest, he, hrest, rfl⟩ := mem_missingFrom.mp hm
        have holds := holds_of_slot? hs (List.mem_of_getElem? he)
        rw [Nat.zero_add]
        exact .inElement declared hs he (below nested holds rest hrest)
      · simp at h
  · next value hs =>
      obtain ⟨rest, hrest, rfl⟩ := List.mem_map.mp h
      cases value with
      | scalar scalar => simp [Value.missing] at hrest
      | message nested =>
          have holds := holds_of_slot? hs (List.mem_singleton_self _)
          exact .inField declared hs (below nested holds rest hrest)

theorem lacks_of_mem_missing {position : Position} (h : position ∈ record.missing)
    : record.Lacks position := by
  induction record using Record.nestedInduction generalizing position with
  | step record ih =>
      rw [missing_eq] at h
      obtain ⟨field, declared, hm⟩ := List.mem_flatMap.mp h
      exact lacks_of_mem_missingAt declared (fun nested holds _ => ih nested holds) hm

/-- What a conforming record lacks is reported, by induction on the way to it. -/
theorem Conforms.mem_missing_of_lacks (built : schema.Built) (hc : record.Conforms schema)
    {position : Position} (h : record.Lacks position)
    : position ∈ record.missing := by
  induction h with
  | here declared required unset =>
      rw [missing_eq]
      refine List.mem_flatMap.mpr ⟨_, declared, ?_⟩
      simp [missingAt, unset, required]
  | inField declared held _ ih =>
      have hbelow := ih (hc.inner (holds_of_slot? held (List.mem_singleton_self _)))
      rw [missing_eq]
      refine List.mem_flatMap.mpr ⟨_, declared, ?_⟩
      rw [missingAt, held]
      exact List.mem_map_of_mem hbelow
  | @inElement record nested field values index position declared held element _ ih =>
      have hmem := List.mem_of_getElem? element
      have hbelow := ih (hc.inner (holds_of_slot? held hmem))
      have hf := MessageType.field?_of_mem
        (built.messages _ (List.mem_of_find?_eq_some hc.here.typed)) declared
      have hkind := ((hc.slot_of_field held hf).value hmem).fits.kind_eq
      have hmessage : field.kind.isMessage = true := by simp [hkind, Kind.isMessage, Kind.message?]
      rw [missing_eq]
      refine List.mem_flatMap.mpr ⟨field, declared, ?_⟩
      rw [missingAt, held]
      simp only [hmessage, if_true, Slot.missing]
      refine List.mem_map_of_mem (mem_missingFrom.mpr ?_)
      exact ⟨index, nested, position, element, hbelow, by rw [Nat.zero_add]⟩

/-- The positions that are reported are those at which the record lacks something. -/
theorem Conforms.mem_missing_iff (built : schema.Built) (hc : record.Conforms schema)
    {position : Position}
    : position ∈ record.missing ↔ record.Lacks position :=
  ⟨lacks_of_mem_missing, hc.mem_missing_of_lacks built⟩

/-- On the way to what a record lacks there are declared fields only. -/
theorem Lacks.plain (names : schema.PlainNames) {position : Position} (h : record.Lacks position)
    (hc : record.Conforms schema)
    : position.Plain := by
  have ofField {record : Record} (hc : record.Conforms schema) {field : Field}
      (declared : field ∈ record.type.fields)
      : PlainName field.name :=
    names _ (List.mem_of_find?_eq_some hc.here.typed) field declared
  induction h with
  | here declared _ _ =>
      intro name hm
      obtain rfl : name = _ := by simpa using hm
      exact ofField hc declared
  | inField declared held _ ih =>
      intro name hm
      rcases List.mem_cons.mp hm with he | hm
      · obtain rfl : name = _ := by simpa using he
        exact ofField hc declared
      · exact ih (hc.inner (holds_of_slot? held (List.mem_singleton_self _))) name hm
  | inElement declared held element _ ih =>
      intro name hm
      rcases List.mem_cons.mp hm with he | hm
      · obtain rfl : name = _ := by simpa using he
        exact ofField hc declared
      · have hm := (List.mem_cons.mp hm).resolve_left (by simp)
        exact ih (hc.inner (holds_of_slot? held (List.mem_of_getElem? element))) name hm

end Record

-----------------------------------------------------------------------------------------
-- The paths of a report
-----------------------------------------------------------------------------------------

theorem mem_insertText {text other : String} {texts : List String}
    : other ∈ insertText text texts ↔ other = text ∨ other ∈ texts := by
  induction texts with
  | nil => simp [insertText]
  | cons head rest ih =>
      rw [insertText]
      split
      · next he => simp [he]
      · split
        · simp
        · rw [List.mem_cons, ih, List.mem_cons]
          exact or_left_comm

/-- A text that is put into an ascending list leaves it ascending: it goes before the first larger
one.
-/
theorem ascending_insertText {text : String} {texts : List String}
    (h : texts.Pairwise (· < ·))
    : (insertText text texts).Pairwise (· < ·) := by
  induction texts with
  | nil => simp [insertText]
  | cons head rest ih =>
      obtain ⟨hhead, hrest⟩ := List.pairwise_cons.mp h
      rw [insertText]
      split
      · exact h
      · next hne =>
          split
          · next hlt =>
              refine List.pairwise_cons.mpr ⟨fun other ho => ?_, h⟩
              rcases List.mem_cons.mp ho with rfl | ho
              · exact hlt
              · exact String.lt_trans hlt (hhead other ho)
          · next hge =>
              refine List.pairwise_cons.mpr ⟨fun other ho => ?_, ih hrest⟩
              rcases mem_insertText.mp ho with rfl | ho
              · refine Decidable.byContradiction (fun hle => hne ?_)
                exact String.le_antisymm (String.not_lt.mp hle) (String.not_lt.mp hge)
              · exact hhead other ho

namespace Record

variable {schema : Schema} {record : Record}

theorem mem_missingPaths {path : String}
    : path ∈ record.missingPaths ↔ ∃ position ∈ record.missing, position.text = path := by
  rw [missingPaths, ← List.mem_map]
  induction record.missing.map Position.text with
  | nil => simp
  | cons text rest ih => rw [List.foldr_cons, mem_insertText, ih, List.mem_cons]

theorem ascending_missingPaths (record : Record) : record.missingPaths.Pairwise (· < ·) := by
  rw [missingPaths]
  induction record.missing.map Position.text with
  | nil => exact List.Pairwise.nil
  | cons text rest ih => exact ascending_insertText ih

/-- Positions with paths of their own have as many paths. -/
theorem length_missingPaths (distinct : record.missing.Nodup)
    (apart
      : ∀ left ∈ record.missing, ∀ right ∈ record.missing,
          left.text = right.text → left = right)
    : record.missingPaths.length = record.missing.length := by
  have paths : record.missingPaths.Nodup :=
    record.ascending_missingPaths.imp (fun {left right} hlt he => by
      subst he
      exact String.lt_irrefl left hlt)
  have texts : (record.missing.map Position.text).Nodup :=
    List.Nodup.map_on (fun left hl right hr => apart left hl right hr) distinct
  have same := (List.perm_ext_iff_of_nodup paths texts).mpr (fun path => by
    rw [mem_missingPaths, List.mem_map])
  rw [same.length_eq, List.length_map]

theorem isComplete_iff_missingPaths : record.isComplete = true ↔ record.missingPaths = [] := by
  rw [isComplete, List.isEmpty_iff]

end Record

-----------------------------------------------------------------------------------------
-- What a report decides
-----------------------------------------------------------------------------------------

/-- Encode a complete record onto the end of the target at hand. The answer is the number of bytes
that were added.
-/
def Record.encodeOnto {τ : Type} [Target τ] (record : Record)
    : ExceptT EncodeError (StateM τ) Nat := do
  ofExcept record.checkRequired
  modifyGet (fun target =>
    let output := record.writeTo target
    (output.written, output.target))

/-- What is left of the target, and the answer, are those of the form that makes a target anew. -/
theorem Record.encodeOnto_eq {τ : Type} [Target τ] (record : Record) (target : τ)
    : record.encodeOnto.run.run target
      = match record.encodeTo target with
        | .ok output => (.ok output.written, output.target)
        | .error cause => (.error cause, target) := by
  rw [encodeOnto, encodeTo]
  cases record.checkRequired <;> rfl

/-- The report of a record: ascending, with the path of every position at which something is lacking
and no other. With plain names it has one path for each of these positions.
-/
structure Record.Reported (schema : Schema) (record : Record) (paths : List String) : Prop where
  ascending : paths.Pairwise (· < ·)
  exact : ∀ path, path ∈ paths ↔ ∃ position, record.Lacks position ∧ position.text = path
  apart
    : schema.PlainNames
      → ∀ left right,
          record.Lacks left → record.Lacks right → left.text = right.text → left = right
  counted
    : schema.PlainNames
      → ∃ positions : List Position,
          positions.Nodup
          ∧ (∀ position, position ∈ positions ↔ record.Lacks position)
          ∧ paths.length = positions.length

/-- The checked operations let a record pass exactly if nothing is reported. Bytes are those of the
unchecked ones, and a record that is refused is refused with its report and leaves a buffer alone.
-/
structure Record.Gated (record : Record) (paths : List String) : Prop where
  complete : record.isComplete = true ↔ paths = []
  checked
    : record.checkRequired
      = if paths = [] then .ok () else .error (.missingRequired record.type.name paths)
  encoded
    : record.encode
      = if paths = [] then .ok record.bytes
        else .error (.missingRequired record.type.name paths)
  appended
    : ∀ buffer : Buffer,
        record.encodeOnto.run.run buffer
        = if paths = [] then (.ok record.bytes.length, buffer ++ record.bytes.toArray)
          else (.error (.missingRequired record.type.name paths), buffer)

namespace Record

variable {schema : Schema} {record : Record}

theorem Conforms.reported (built : schema.Built) (hc : record.Conforms schema)
    : record.Reported schema record.missingPaths := by
  have missing {position : Position} : position ∈ record.missing ↔ record.Lacks position :=
    hc.mem_missing_iff built
  have apart (names : schema.PlainNames) (left right : Position) (hl : record.Lacks left)
      (hr : record.Lacks right) (h : left.text = right.text)
      : left = right :=
    Position.eq_of_text (hl.plain names hc) (hr.plain names hc) h
  refine ⟨record.ascending_missingPaths, fun path => ?_, apart, fun names => ?_⟩
  · rw [mem_missingPaths]
    simp only [missing]
  · refine ⟨record.missing, hc.nodup_missing built, fun position => missing, ?_⟩
    exact length_missingPaths (hc.nodup_missing built) (fun left hl right hr =>
      apart names left right (missing.mp hl) (missing.mp hr))

/-- Whether a record passes hangs on its report alone. -/
theorem gated (record : Record) : record.Gated record.missingPaths := by
  have checked : record.checkRequired
      = if record.missingPaths = [] then .ok ()
        else .error (.missingRequired record.type.name record.missingPaths) := by
    simp only [checkRequired, isComplete_iff_missingPaths]
  refine ⟨isComplete_iff_missingPaths, checked, ?_, fun buffer => ?_⟩
  · rw [encode, checked]
    split <;> rfl
  · by_cases hp : record.missingPaths = []
    · simp only [encodeOnto_eq, encodeTo, checked, if_pos hp, bind, Except.bind, pure, Except.pure,
        record.writeTo_eq, push_buffer, record.length_bytes]
    · simp only [encodeOnto_eq, encodeTo, checked, if_neg hp, bind, Except.bind]

/-- The report of a record that a program can come by is exact, and every checked operation goes by
it. A path is spelled from the outermost record inwards: a name stands behind a dot unless it is at
the front, and an index in brackets. Bytes are decoded with a check exactly if they are decoded
without one and nothing of the record is reported.
-/
theorem Reachable.report_exact (built : schema.Built) (h : record.Reachable schema)
    : record.Reported schema record.missingPaths
      ∧ record.Gated record.missingPaths
      ∧ Position.text [] = ""
      ∧ (∀ position : Position, ∀ name,
        Position.text (position ++ [.field name])
        = if position.text = "" then name else position.text ++ "." ++ name)
      ∧ (∀ position : Position, ∀ index,
        Position.text (position ++ [.index index])
        = position.text ++ "[" ++ toString index ++ "]")
      ∧ ∀ name bytes limit decoded,
        decode schema name bytes ⟨limit, true⟩ = .ok decoded
        ↔ decode schema name bytes ⟨limit, false⟩ = .ok decoded ∧ decoded.missingPaths = [] := by
  refine ⟨h.conforms.reported built, record.gated, Position.text_nil, fun position name => ?_,
    Position.text_index, fun name bytes limit decoded => ?_⟩
  · rw [Position.text_field]
    simp only [String.isEmpty_iff]
  · rw [decode_eq_ok_iff_unchecked, ← isComplete_iff_missingPaths]
    simp

end Record

namespace AddressBook

/-- The person with an odd telephone has neither a name nor an identifier, and the telephone has no
number.
-/
theorem report_exact_owner
    : owner.Reachable schema
      ∧ schema.PlainNames
      ∧ owner.missingPaths = ["id", "name", "phones[0].number"]
      ∧ (∃ position, owner.Lacks position ∧ position.text = "phones[0].number")
      ∧ (∃ positions : List Position,
        positions.Nodup
        ∧ (∀ position, position ∈ positions ↔ owner.Lacks position)
        ∧ positions.length = 3)
      ∧ owner.encodeOnto.run.run (#[0xFF] : Buffer)
        = (.error (.missingRequired person.name ["id", "name", "phones[0].number"]), #[0xFF]) := by
  obtain ⟨report, gates, _⟩ := Record.Reachable.report_exact schema_built reachable_owner
  have names : schema.PlainNames := by decide +kernel
  have paths : owner.missingPaths = ["id", "name", "phones[0].number"] := by decide +kernel
  obtain ⟨positions, hnodup, hmem, hlength⟩ := report.counted names
  refine ⟨reachable_owner, names, paths, (report.exact _).mp (by simp [paths]),
    ⟨positions, hnodup, hmem, ?_⟩, ?_⟩
  · rw [← hlength, paths]
    rfl
  · rw [gates.appended, paths]
    rfl

end AddressBook

end TagWire
