import TagWire.Proofs.Schemas.Building

/-!
Which types fit together. Types are put together into a schema exactly if no two share a name and
every reference and every default is to something that is declared among them; types may refer to
themselves and to each other.
-/

namespace TagWire

/-- Types fit together: each name is taken once, every type that a field refers to is there, and the
default of a field of an enumeration is one of its numbers.
-/
structure Schema.Closed (enums : List Enumeration) (messages : List MessageType) : Prop where
  distinct : (enums.map Enumeration.name ++ messages.map MessageType.name).Nodup
  enumFields
    : ∀ type ∈ messages, ∀ field ∈ type.fields, ∀ target,
        field.kind = .enum target → ∃ enum ∈ enums, enum.name = target
  messageFields
    : ∀ type ∈ messages, ∀ field ∈ type.fields, ∀ target,
        field.kind = .message target → ∃ nested ∈ messages, nested.name = target
  defaults
    : ∀ type ∈ messages, ∀ field ∈ type.fields, ∀ target default,
        field.kind = .enum target
        → field.default? = some default
        → ∃ enum ∈ enums, enum.name = target
          ∧ ∃ value ∈ enum.values, default = .scalar (.enum value.2)

-----------------------------------------------------------------------------------------
-- Declarations of fields and enumerations
-----------------------------------------------------------------------------------------

namespace MessageType

/-- A default of the kind of an enumeration is a number. -/
theorem exists_number_of_isOfKind {default : Default} {target : String}
    (h : default.isOfKind (.enum target) = true)
    : ∃ number, default = .scalar (.enum number) := by
  cases default with
  | record type => simp [Default.isOfKind] at h
  | scalar value =>
      cases value with
      | enum number => exact ⟨number, rfl⟩
      | _ => simp [Default.isOfKind, Scalar.isOfKind] at h

end MessageType

/-- A declared enumeration has a value. -/
theorem Enumeration.values_ne_nil {type : Enumeration}
    (h : describe type.name type.values = .ok type)
    : type.values ≠ [] := by
  rintro hn
  simp [describe, hn, firstClash?] at h

/-- The default number of a declared enumeration is one of its numbers. -/
theorem Enumeration.contains_defaultNumber {type : Enumeration}
    (h : describe type.name type.values = .ok type)
    : type.contains type.defaultNumber = true := by
  obtain ⟨first, rest, hv⟩ := List.exists_cons_of_ne_nil (values_ne_nil h)
  simp [contains, defaultNumber, hv]

-----------------------------------------------------------------------------------------
-- Putting types together
-----------------------------------------------------------------------------------------

namespace Schema

theorem firstRepeat?_eq_first? (taken names : List String)
    : firstRepeat? taken names
      = Scan.first? (fun before name => if before.contains name then some name else none)
          taken names := by
  induction names generalizing taken with
  | nil => rfl
  | cons name rest ih =>
      rw [firstRepeat?, Scan.first?, ih]
      split <;> rfl

/-- No name is met again exactly if each is met once. -/
theorem firstRepeat?_eq_none_iff {names : List String}
    : firstRepeat? [] names = none ↔ names.Nodup := by
  rw [firstRepeat?_eq_first?]
  refine Scan.first?_eq_none_iff List.nodup_nil (fun before name => ?_)
  have concat : ((before ++ [name]).map id).Nodup
      ↔ (before.map id).Nodup ∧ id name ∉ before.map id :=
    Scan.nodup_concat_iff
  simpa using concat

/-- The types are put together as they are, unless one of the two checks finds a fault. -/
theorem build_eq_ok_iff {enums : List Enumeration} {messages : List MessageType} {schema : Schema}
    : build enums messages = .ok schema
      ↔ schema = ⟨enums, messages⟩
        ∧ (enums.map Enumeration.name ++ messages.map MessageType.name).Nodup
        ∧ firstFault? ⟨enums, messages⟩ = none := by
  rw [← firstRepeat?_eq_none_iff, build]
  split
  · next hrepeat => simp [hrepeat]
  · next hrepeat =>
      split
      · next hfault => simp [hfault]
      · next hfault => simp [hrepeat, hfault, eq_comm]

section Lookup

variable {schema : Schema}

theorem isSome_enum?_iff {target : String}
    : (schema.enum? target).isSome = true ↔ ∃ enum ∈ schema.enums, enum.name = target := by
  simp [enum?]

theorem isSome_message?_iff {target : String}
    : (schema.message? target).isSome = true
      ↔ ∃ nested ∈ schema.messages, nested.name = target := by
  simp [message?]

/-- With distinct names, each enumeration is what is found under its name. -/
theorem enum?_of_mem (distinct : (schema.enums.map Enumeration.name).Nodup) {enum : Enumeration}
    (h : enum ∈ schema.enums)
    : schema.enum? enum.name = some enum :=
  (Scan.find?_eq_some_iff distinct).mpr ⟨h, rfl⟩

/-- A number is declared for the name of an enumeration that has it. -/
theorem declares_iff (distinct : (schema.enums.map Enumeration.name).Nodup) {target : String}
    {number : Int32}
    : schema.declares target number = true
      ↔ ∃ enum ∈ schema.enums, enum.name = target ∧ ∃ value ∈ enum.values, value.2 = number := by
  constructor
  · intro h
    cases he : schema.enum? target with
    | none => simp [declares, he] at h
    | some enum =>
        have hname : enum.name = target := by simpa using List.find?_some he
        refine ⟨enum, List.mem_of_find?_eq_some he, hname, ?_⟩
        simpa [declares, he, Enumeration.contains] using h
  · rintro ⟨enum, hm, rfl, value, hv, rfl⟩
    have hc : enum.contains value.2 = true := by
      simp only [Enumeration.contains, List.any_eq_true]
      exact ⟨value, hv, by simp⟩
    simp [declares, enum?_of_mem distinct hm, hc]

/-- No fault is found exactly if none is found in any field. -/
theorem firstFault?_eq_none_iff
    : schema.firstFault? = none
      ↔ ∀ type ∈ schema.messages, ∀ field ∈ type.fields,
          schema.referenceFault? type.name field = none
          ∧ schema.defaultFault? type.name field = none := by
  simp only [firstFault?, List.findSome?_eq_none_iff, Option.or_eq_none_iff]

theorem referenceFault?_eq_none_iff {name : String} {field : Field}
    : schema.referenceFault? name field = none
      ↔ (∀ target, field.kind = .enum target → ∃ enum ∈ schema.enums, enum.name = target)
        ∧ ∀ target,
            field.kind = .message target → ∃ nested ∈ schema.messages, nested.name = target := by
  rw [referenceFault?]
  split
  · next target hk =>
      simp only [hk, Kind.enum.injEq, forall_eq', reduceCtorEq, false_implies, implies_true,
        and_true, ← isSome_enum?_iff]
      split <;> simp_all
  · next target hk =>
      simp only [hk, Kind.message.injEq, forall_eq', reduceCtorEq, false_implies, implies_true,
        true_and, ← isSome_message?_iff]
      split <;> simp_all
  · next henum hmessage =>
      exact iff_of_true rfl
        ⟨fun target hk => absurd hk (henum target), fun target hk => absurd hk (hmessage target)⟩

theorem defaultFault?_eq_none_iff {name : String} {field : Field}
    : schema.defaultFault? name field = none
      ↔ ∀ target number,
          field.kind = .enum target
          → field.default? = some (.scalar (.enum number))
          → schema.declares target number = true := by
  rw [defaultFault?]
  split
  · next target number hk hd => simp [hk, hd]
  · next hother =>
      exact iff_of_true rfl (fun target number hk hd => absurd hd (hother target number hk))

end Lookup

/-- Declared types can be put together into a schema exactly if they fit together. -/
theorem exists_build_iff_closed {enums : List Enumeration} {messages : List MessageType}
    (described : ∀ type ∈ messages, MessageType.describe type.name type.fields = .ok type)
    : (∃ schema, build enums messages = .ok schema) ↔ Closed enums messages := by
  simp only [build_eq_ok_iff, exists_eq_left, firstFault?_eq_none_iff,
    referenceFault?_eq_none_iff, defaultFault?_eq_none_iff]
  constructor
  · rintro ⟨distinct, fields⟩
    refine ⟨distinct, fun type ht field hf => (fields type ht field hf).1.1,
      fun type ht field hf => (fields type ht field hf).1.2, ?_⟩
    intro type ht field hf target default hk hd
    obtain ⟨number, rfl⟩ := MessageType.exists_number_of_isOfKind
      (hk ▸ ((MessageType.legal_of_describe (described type ht)).defaults field hf default hd).2.2)
    have hdeclared := (fields type ht field hf).2 target number hk hd
    obtain ⟨enum, hm, hname, value, hv, rfl⟩ :=
      (declares_iff (List.nodup_append.mp distinct).1).mp hdeclared
    exact ⟨enum, hm, hname, value, hv, rfl⟩
  · intro closed
    refine ⟨closed.distinct, fun type ht field hf => ⟨⟨closed.enumFields type ht field hf,
      closed.messageFields type ht field hf⟩, fun target number hk hd => ?_⟩⟩
    obtain ⟨enum, hm, hname, value, hv, he⟩ := closed.defaults type ht field hf target _ hk hd
    refine (declares_iff (List.nodup_append.mp closed.distinct).1).mpr
      ⟨enum, hm, hname, value, hv, ?_⟩
    simpa using he.symm

-----------------------------------------------------------------------------------------
-- Schemas that were built
-----------------------------------------------------------------------------------------

namespace Built

variable {schema : Schema}

theorem of_build {enums : List Enumeration} {messages : List MessageType}
    (describedEnums : ∀ type ∈ enums, Enumeration.describe type.name type.values = .ok type)
    (describedMessages
      : ∀ type ∈ messages, MessageType.describe type.name type.fields = .ok type)
    (h : build enums messages = .ok schema)
    : schema.Built := by
  obtain ⟨rfl, _⟩ := build_eq_ok_iff.mp h
  exact ⟨describedEnums, describedMessages, h⟩

section Fields

variable (h : schema.Built) {name : String} {type : MessageType}
  (typed : schema.message? name = some type) {tag : Nat} {field : Field}
  (hf : type.field? tag = some field)

include h typed hf

/-- No fault is found in a declared field. -/
theorem faultless
    : schema.referenceFault? type.name field = none
      ∧ schema.defaultFault? type.name field = none :=
  firstFault?_eq_none_iff.mp (build_eq_ok_iff.mp h.closed).2.2 type
    (List.mem_of_find?_eq_some typed) field (List.mem_of_find?_eq_some hf)

/-- The enumerations that fields refer to are declared. -/
theorem exists_enum {target : String} (hk : field.kind = .enum target)
    : ∃ enum, schema.enum? target = some enum := by
  have referred := referenceFault?_eq_none_iff.mp (h.faultless typed hf).1
  exact Option.isSome_iff_exists.mp (isSome_enum?_iff.mpr (referred.1 target hk))

/-- The message types that fields refer to are declared. -/
theorem exists_message {target : String} (hk : field.kind = .message target)
    : ∃ nested, schema.message? target = some nested := by
  have referred := referenceFault?_eq_none_iff.mp (h.faultless typed hf).1
  exact Option.isSome_iff_exists.mp (isSome_message?_iff.mpr (referred.2 target hk))

/-- The default number of an enumeration that a field refers to is declared. -/
theorem declares_defaultNumber {target : String} (hk : field.kind = .enum target)
    : schema.declares target (schema.defaultNumber target) = true := by
  obtain ⟨enum, he⟩ := h.exists_enum typed hf hk
  have hcontains := Enumeration.contains_defaultNumber
    (h.enums enum (List.mem_of_find?_eq_some he))
  simp [declares, defaultNumber, he, hcontains]

/-- A scalar that a field declares as its default is of the field's kind, and a number is declared.
-/
theorem default_fits {value : Scalar} (hd : field.default? = some (.scalar value))
    : value.isOfKind field.kind = true ∧ schema.isUndeclared field.kind value = false := by
  have legal := MessageType.legal_of_describe (h.messages type (List.mem_of_find?_eq_some typed))
  refine ⟨(legal.defaults field (List.mem_of_find?_eq_some hf) _ hd).2.2, ?_⟩
  unfold isUndeclared
  split
  · next target number hk =>
      have declared := defaultFault?_eq_none_iff.mp (h.faultless typed hf).2
      simp [declared target number hk hd]
  · rfl

end Fields

end Built

end Schema

end TagWire
