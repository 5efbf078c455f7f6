import Mathlib.Algebra.Group.Nat.Defs
import TagWire.Proofs.Schemas.Scans
import TagWire.Schema.MessageType

/-!
Which message types can be declared, and how their fields are looked up. Each field is held against
the rules one after the other, beside the fields before it; the first rule that is broken decides
the error.
-/

namespace TagWire

/-- The rules for a field. -/
inductive FieldRule where
  | positiveTag
  | boundedTag
  | unreservedTag
  | freshTag
  | freshName
  | fittingDefault
  | packedScalars

namespace FieldRule

/-- All rules, in the order in which a field is held against them. -/
def inOrder : List FieldRule :=
  [positiveTag, boundedTag, unreservedTag, freshTag, freshName, fittingDefault, packedScalars]

/-- A field keeps a rule, beside the fields before it. -/
def Kept (before : List Field) (field : Field) : FieldRule → Prop
  | positiveTag => 1 ≤ field.tag
  | boundedTag => field.tag ≤ 2 ^ 29 - 1
  | unreservedTag => ¬ (19000 ≤ field.tag ∧ field.tag ≤ 19999)
  | freshTag => field.tag ∉ before.map Field.tag
  | freshName => field.name ∉ before.map Field.name
  | fittingDefault =>
      ∀ default,
        field.default? = some default
        → field.cardinality ≠ .repeated
          ∧ (∀ type, field.kind ≠ .message type)
          ∧ default.isOfKind field.kind = true
  | packedScalars =>
      field.packed = true
      → field.cardinality = .repeated ∧ field.kind.wireKind ≠ .lengthDelimited

/-- A field breaks a rule, beside the fields before it, and an error says so. -/
inductive Broken (message : String) (before : List Field) (field : Field)
    : FieldRule → SchemaError → Prop
  | positiveTag (zero : field.tag = 0)
    : Broken message before field .positiveTag (.zeroTag message field.name field.tag)
  | boundedTag (large : 2 ^ 29 - 1 < field.tag)
    : Broken message before field .boundedTag (.tagTooLarge message field.name field.tag)
  | unreservedTag (reserved : 19000 ≤ field.tag ∧ field.tag ≤ 19999)
    : Broken message before field .unreservedTag (.reservedTag message field.name field.tag)
  | freshTag {other : Field} (earlier : other ∈ before) (same : other.tag = field.tag)
    : Broken message before field .freshTag
        (.duplicateTag message field.tag other.name field.name)
  | freshName (taken : field.name ∈ before.map Field.name)
    : Broken message before field .freshName (.duplicateField message field.name)
  | repeatedDefault {default : Default} (declared : field.default? = some default)
    (repeated : field.cardinality = .repeated)
    : Broken message before field .fittingDefault
        (.illegalDefault message field.name .repeated)
  | messageDefault {default : Default} {type : String}
    (declared : field.default? = some default) (singular : field.cardinality ≠ .repeated)
    (ofMessages : field.kind = .message type)
    : Broken message before field .fittingDefault
        (.illegalDefault message field.name .message)
  | otherDefault {default : Default} (declared : field.default? = some default)
    (singular : field.cardinality ≠ .repeated)
    (ofScalars : ∀ type, field.kind ≠ .message type)
    (other : default.isOfKind field.kind = false)
    : Broken message before field .fittingDefault
        (.defaultMismatch message field.name field.kind (.kind default.kindName))
  | packedSingular (packed : field.packed = true) (singular : field.cardinality ≠ .repeated)
    : Broken message before field .packedScalars
        (.illegalPacked message field.name .singular)
  | packedDelimited (packed : field.packed = true) (repeated : field.cardinality = .repeated)
    (delimited : field.kind.wireKind = .lengthDelimited)
    : Broken message before field .packedScalars
        (.illegalPacked message field.name .delimited)

end FieldRule

namespace MessageType

/-- Fields that can be declared together. -/
structure Legal (fields : List Field) : Prop where
  tags
    : ∀ field ∈ fields,
        1 ≤ field.tag
        ∧ field.tag ≤ 2 ^ 29 - 1
        ∧ ¬ (19000 ≤ field.tag ∧ field.tag ≤ 19999)
  distinctTags : (fields.map Field.tag).Nodup
  distinctNames : (fields.map Field.name).Nodup
  defaults
    : ∀ field ∈ fields, ∀ default,
        field.default? = some default
        → field.cardinality ≠ .repeated
          ∧ (∀ type, field.kind ≠ .message type)
          ∧ default.isOfKind field.kind = true
  packed
    : ∀ field ∈ fields,
        field.packed = true
        → field.cardinality = .repeated ∧ field.kind.wireKind ≠ .lengthDelimited

/-- An error is what fields are refused for: the first field that breaks a rule, and the first rule
that it breaks.
-/
def RefusedFor (message : String) (fields : List Field) (error : SchemaError) : Prop :=
  ∃ before field after asked rule others,
    fields = before ++ field :: after
    ∧ Legal before
    ∧ FieldRule.inOrder = asked ++ rule :: others
    ∧ (∀ kept ∈ asked, kept.Kept before field)
    ∧ rule.Broken message before field error

/-- Fields are found by what they are declared with, and nothing else is found. The tags go in
ascending order.
-/
structure Indexed (type : MessageType) : Prop where
  field
    : ∀ tag field, type.field? tag = some field ↔ field ∈ type.fields ∧ field.tag = tag
  undeclared : ∀ tag, type.field? tag = none ↔ tag ∉ type.fields.map Field.tag
  fieldNamed
    : ∀ name field, type.fieldNamed? name = some field ↔ field ∈ type.fields ∧ field.name = name
  unnamed : ∀ name, type.fieldNamed? name = none ↔ name ∉ type.fields.map Field.name
  ascending : type.tags.Pairwise (· < ·)
  tags : ∀ tag, tag ∈ type.tags ↔ tag ∈ type.fields.map Field.tag

end MessageType

-----------------------------------------------------------------------------------------
-- One field
-----------------------------------------------------------------------------------------

section Rules

variable {message : String} {before : List Field} {field : Field} {error : SchemaError}

theorem Field.isRepeated_iff : field.isRepeated = true ↔ field.cardinality = .repeated := by
  simp [isRepeated]

theorem Kind.isMessage_iff {kind : Kind}
    : kind.isMessage = true ↔ ∃ type, kind = .message type := by
  cases kind <;> simp [isMessage, message?]

theorem maxTag_eq : maxTag = 2 ^ 29 - 1 := rfl

theorem isReservedTag_iff {tag : Nat} : isReservedTag tag = true ↔ 19000 ≤ tag ∧ tag ≤ 19999 := by
  simp [isReservedTag]

/-- The fault of a field under one rule. -/
def FieldRule.fault? (message : String) (before : List Field) (field : Field)
    : FieldRule → Option SchemaError
  | positiveTag => if field.tag = 0 then some (.zeroTag message field.name field.tag) else none
  | boundedTag =>
      if maxTag < field.tag then some (.tagTooLarge message field.name field.tag) else none
  | unreservedTag =>
      if isReservedTag field.tag then some (.reservedTag message field.name field.tag) else none
  | freshTag =>
      (before.find? (fun other => other.tag == field.tag)).map
        (fun other => .duplicateTag message field.tag other.name field.name)
  | freshName =>
      if before.any (fun other => other.name == field.name) then
        some (.duplicateField message field.name)
      else none
  | fittingDefault => MessageType.defaultFault? message field
  | packedScalars => MessageType.packedFault? message field

/-- The fault of a field is that under the first rule that has one. -/
theorem MessageType.fieldFault?_eq_findSome?
    : fieldFault? message before field
      = FieldRule.inOrder.findSome? (FieldRule.fault? message before field) := by
  simp only [fieldFault?, placeFault?, FieldRule.inOrder, FieldRule.fault?, List.findSome?_cons,
    List.findSome?_nil]
  by_cases zero : field.tag = 0
  · simp only [if_pos zero, Option.some_or]
  by_cases large : maxTag < field.tag
  · simp only [if_neg zero, if_pos large, Option.some_or]
  by_cases reserved : isReservedTag field.tag = true
  · simp only [if_neg zero, if_neg large, if_pos reserved, Option.some_or]
  simp only [if_neg zero, if_neg large, if_neg reserved]
  cases before.find? (fun other => other.tag == field.tag) with
  | some other => rfl
  | none =>
      simp only [Option.map_none]
      split
      · rfl
      · cases defaultFault? message field with
        | some error => rfl
        | none => cases packedFault? message field <;> rfl

theorem MessageType.packedFault?_eq_none {name : String} {field : Field}
    (h : packedFault? name field = none) (hp : field.packed = true)
    : field.isRepeated = true ∧ field.kind.isPackable = true := by
  unfold packedFault? at h
  simp only [hp, Bool.not_true, Bool.false_eq_true, if_false] at h
  cases hr : field.isRepeated <;> cases hk : field.kind.isPackable <;> simp [hr, hk] at h
  exact ⟨rfl, rfl⟩

/-- A default without fault is on a singular field without records, and of the field's kind. -/
theorem MessageType.defaultFault?_eq_none {name : String} {field : Field}
    (h : defaultFault? name field = none) {default : Default}
    (hd : field.default? = some default)
    : field.isRepeated = false
      ∧ field.kind.isMessage = false
      ∧ default.isOfKind field.kind = true := by
  simp only [defaultFault?, hd] at h
  split at h
  · simp at h
  · next hrep =>
      split at h
      · simp at h
      · next hm =>
          split at h
          · next hk => exact ⟨by simpa using hrep, by simpa using hm, hk⟩
          · simp at h

namespace FieldRule

/-- A default has a fault exactly if it does not fit. -/
theorem defaultFault?_eq_some_iff
    : MessageType.defaultFault? message field = some error
      ↔ fittingDefault.Broken message before field error := by
  rw [MessageType.defaultFault?]
  constructor
  · intro h
    split at h
    · simp at h
    · next default hd =>
        split_ifs at h with hr hm hk
        · obtain rfl := Option.some.inj h
          exact .repeatedDefault hd (Field.isRepeated_iff.mp hr)
        · obtain ⟨type, hm⟩ := Kind.isMessage_iff.mp hm
          obtain rfl := Option.some.inj h
          exact .messageDefault hd (mt Field.isRepeated_iff.mpr hr) hm
        · obtain rfl := Option.some.inj h
          exact .otherDefault hd (mt Field.isRepeated_iff.mpr hr)
            (fun type he => hm (Kind.isMessage_iff.mpr ⟨type, he⟩)) (by simpa using hk)
  · intro h
    cases h with
    | repeatedDefault hd hr => simp [hd, Field.isRepeated_iff.mpr hr]
    | messageDefault hd hr hm =>
        simp [hd, Field.isRepeated_iff, hr, Kind.isMessage_iff.mpr ⟨_, hm⟩]
    | otherDefault hd hr hm hk =>
        have scalars : ¬ field.kind.isMessage = true := fun h =>
          (Kind.isMessage_iff.mp h).elim hm
        simp [hd, Field.isRepeated_iff, hr, scalars, hk]

theorem defaultFault?_eq_none_iff
    : MessageType.defaultFault? message field = none ↔ fittingDefault.Kept before field := by
  constructor
  · intro h default hd
    obtain ⟨singular, scalars, ofKind⟩ := MessageType.defaultFault?_eq_none h hd
    refine ⟨fun hr => ?_, fun type hk => ?_, ofKind⟩
    · simp [Field.isRepeated_iff.mpr hr] at singular
    · simp [Kind.isMessage_iff.mpr ⟨type, hk⟩] at scalars
  · intro kept
    refine Option.eq_none_iff_forall_ne_some.mpr (fun error h => ?_)
    have broken : fittingDefault.Broken message before field error :=
      defaultFault?_eq_some_iff.mp h
    cases broken with
    | repeatedDefault hd hr => exact (kept _ hd).1 hr
    | messageDefault hd _ hm => exact (kept _ hd).2.1 _ hm
    | otherDefault hd _ _ hk => simp [(kept _ hd).2.2] at hk

/-- Packing has a fault exactly if there are no scalars to pack. -/
theorem packedFault?_eq_some_iff
    : MessageType.packedFault? message field = some error
      ↔ packedScalars.Broken message before field error := by
  rw [MessageType.packedFault?]
  constructor
  · intro h
    split_ifs at h with hp hr hk
    · obtain rfl := Option.some.inj h
      exact .packedSingular (by simpa using hp) (by simpa [Field.isRepeated] using hr)
    · obtain rfl := Option.some.inj h
      exact .packedDelimited (by simpa using hp) (by simpa [Field.isRepeated] using hr)
        (by simpa [Kind.isPackable] using hk)
  · intro h
    cases h with
    | packedSingular hp hr => simp [hp, Field.isRepeated, hr]
    | packedDelimited hp hr hk => simp [hp, Field.isRepeated, hr, Kind.isPackable, hk]

theorem packedFault?_eq_none_iff
    : MessageType.packedFault? message field = none ↔ packedScalars.Kept before field := by
  constructor
  · intro h hp
    obtain ⟨hr, hk⟩ := MessageType.packedFault?_eq_none h hp
    exact ⟨Field.isRepeated_iff.mp hr, by simpa [Kind.isPackable] using hk⟩
  · intro kept
    refine Option.eq_none_iff_forall_ne_some.mpr (fun error h => ?_)
    have broken : packedScalars.Broken message before field error :=
      packedFault?_eq_some_iff.mp h
    cases broken with
    | packedSingular hp hr => exact hr (kept hp).1
    | packedDelimited hp _ hk => exact (kept hp).2 hk

/-- There is a fault under a rule exactly if it is broken. Tags of the fields before are distinct,
so no more than one has the field's.
-/
theorem fault?_eq_some_iff (distinct : (before.map Field.tag).Nodup) (rule : FieldRule)
    : rule.fault? message before field = some error ↔ rule.Broken message before field error := by
  cases rule with
  | positiveTag =>
      rw [fault?, Option.ite_none_right_eq_some, Option.some.injEq]
      constructor
      · rintro ⟨zero, rfl⟩
        exact .positiveTag zero
      · intro h
        cases h with
        | positiveTag zero => exact ⟨zero, rfl⟩
  | boundedTag =>
      rw [fault?, Option.ite_none_right_eq_some, Option.some.injEq]
      constructor
      · rintro ⟨large, rfl⟩
        exact .boundedTag large
      · intro h
        cases h with
        | boundedTag large => exact ⟨large, rfl⟩
  | unreservedTag =>
      rw [fault?, Option.ite_none_right_eq_some, Option.some.injEq]
      constructor
      · rintro ⟨reserved, rfl⟩
        exact .unreservedTag (isReservedTag_iff.mp reserved)
      · intro h
        cases h with
        | unreservedTag reserved => exact ⟨isReservedTag_iff.mpr reserved, rfl⟩
  | freshTag =>
      rw [fault?, Option.map_eq_some_iff]
      constructor
      · rintro ⟨other, hfind, rfl⟩
        obtain ⟨hm, same⟩ := (Scan.find?_eq_some_iff distinct).mp hfind
        exact .freshTag hm same
      · intro h
        cases h with
        | freshTag hm same => exact ⟨_, (Scan.find?_eq_some_iff distinct).mpr ⟨hm, same⟩, rfl⟩
  | freshName =>
      rw [fault?, Option.ite_none_right_eq_some, Option.some.injEq]
      constructor
      · rintro ⟨taken, rfl⟩
        exact .freshName (by simpa using taken)
      · intro h
        cases h with
        | freshName taken => exact ⟨by simpa using taken, rfl⟩
  | fittingDefault => exact defaultFault?_eq_some_iff
  | packedScalars => exact packedFault?_eq_some_iff

theorem fault?_eq_none_iff (rule : FieldRule)
    : rule.fault? message before field = none ↔ rule.Kept before field := by
  cases rule with
  | positiveTag => simp [fault?, Kept, Nat.one_le_iff_ne_zero]
  | boundedTag => rw [fault?, ite_eq_right_iff, Kept, ← maxTag_eq]; simp
  | unreservedTag => simp [fault?, Kept, isReservedTag_iff]
  | freshTag => rw [fault?, Option.map_eq_none_iff, Scan.find?_eq_none_iff, Kept]
  | freshName => simp [fault?, Kept]
  | fittingDefault => exact defaultFault?_eq_none_iff
  | packedScalars => exact packedFault?_eq_none_iff

theorem mem_inOrder (rule : FieldRule) : rule ∈ inOrder := by
  cases rule <;> simp [inOrder]

end FieldRule

namespace MessageType

/-- A field is without fault exactly if it keeps every rule. -/
theorem fieldFault?_eq_none_iff
    : fieldFault? message before field = none ↔ ∀ rule : FieldRule, rule.Kept before field := by
  simp only [fieldFault?_eq_findSome?, List.findSome?_eq_none_iff, FieldRule.fault?_eq_none_iff,
    FieldRule.mem_inOrder, forall_const]

/-- The fault of a field is that it breaks a rule and keeps those before it. -/
theorem fieldFault?_eq_some_iff (distinct : (before.map Field.tag).Nodup)
    : fieldFault? message before field = some error
      ↔ ∃ asked rule others,
          FieldRule.inOrder = asked ++ rule :: others
          ∧ (∀ kept ∈ asked, kept.Kept before field)
          ∧ rule.Broken message before field error := by
  simp only [fieldFault?_eq_findSome?, List.findSome?_eq_some_iff, FieldRule.fault?_eq_none_iff,
    FieldRule.fault?_eq_some_iff distinct]
  constructor
  · rintro ⟨asked, rule, others, hsplit, hbroken, hkept⟩
    exact ⟨asked, rule, others, hsplit, hkept, hbroken⟩
  · rintro ⟨asked, rule, others, hsplit, hkept, hbroken⟩
    exact ⟨asked, rule, others, hsplit, hbroken, hkept⟩

end MessageType

end Rules

-----------------------------------------------------------------------------------------
-- All fields
-----------------------------------------------------------------------------------------

namespace MessageType

/-- Fields stay legal exactly with one that keeps every rule beside them. -/
theorem legal_concat_iff (before : List Field) (field : Field)
    : Legal (before ++ [field]) ↔ Legal before ∧ ∀ rule : FieldRule, rule.Kept before field := by
  constructor
  · rintro ⟨tags, distinctTags, distinctNames, defaults, packed⟩
    simp only [List.forall_mem_append, List.forall_mem_singleton] at tags defaults packed
    obtain ⟨distinctTags, freshTag⟩ := Scan.nodup_concat_iff.mp distinctTags
    obtain ⟨distinctNames, freshName⟩ := Scan.nodup_concat_iff.mp distinctNames
    refine ⟨⟨tags.1, distinctTags, distinctNames, defaults.1, packed.1⟩, fun rule => ?_⟩
    cases rule with
    | positiveTag => exact tags.2.1
    | boundedTag => exact tags.2.2.1
    | unreservedTag => exact tags.2.2.2
    | freshTag => exact freshTag
    | freshName => exact freshName
    | fittingDefault => exact defaults.2
    | packedScalars => exact packed.2
  · rintro ⟨⟨tags, distinctTags, distinctNames, defaults, packed⟩, kept⟩
    refine ⟨?_, Scan.nodup_concat_iff.mpr ⟨distinctTags, kept .freshTag⟩,
      Scan.nodup_concat_iff.mpr ⟨distinctNames, kept .freshName⟩, ?_, ?_⟩
    all_goals simp only [List.forall_mem_append, List.forall_mem_singleton]
    · exact ⟨tags, kept .positiveTag, kept .boundedTag, kept .unreservedTag⟩
    · exact ⟨defaults, kept .fittingDefault⟩
    · exact ⟨packed, kept .packedScalars⟩

variable {name : String} {fields : List Field} {error : SchemaError} {type : MessageType}

theorem firstFault?_eq_first? (before fields : List Field)
    : firstFault? name before fields = Scan.first? (fieldFault? name) before fields := by
  induction fields generalizing before with
  | nil => rfl
  | cons field rest ih =>
      simp only [firstFault?, Scan.first?, ih]
      cases fieldFault? name before field <;> rfl

theorem firstFault?_eq_none_iff : firstFault? name [] fields = none ↔ Legal fields := by
  rw [firstFault?_eq_first?]
  refine Scan.first?_eq_none_iff ?_ (fun before field => ?_)
  · constructor <;> simp
  · rw [legal_concat_iff, fieldFault?_eq_none_iff]

theorem firstFault?_eq_some_iff
    : firstFault? name [] fields = some error ↔ RefusedFor name fields error := by
  rw [firstFault?_eq_first?, Scan.first?_eq_some_iff]
  constructor
  · rintro ⟨before, field, after, hsplit, hbefore, hfault⟩
    rw [← firstFault?_eq_first?, firstFault?_eq_none_iff] at hbefore
    obtain ⟨asked, rule, others, horder, hkept, hbroken⟩ :=
      (fieldFault?_eq_some_iff hbefore.distinctTags).mp hfault
    exact ⟨before, field, after, asked, rule, others, hsplit, hbefore, horder, hkept, hbroken⟩
  · rintro ⟨before, field, after, asked, rule, others, hsplit, hbefore, horder, hkept, hbroken⟩
    refine ⟨before, field, after, hsplit, ?_, ?_⟩
    · rwa [← firstFault?_eq_first?, firstFault?_eq_none_iff]
    · exact (fieldFault?_eq_some_iff hbefore.distinctTags).mpr
        ⟨asked, rule, others, horder, hkept, hbroken⟩

theorem describe_eq_ok_iff
    : describe name fields = .ok type ↔ type = ⟨name, fields⟩ ∧ Legal fields := by
  have legal : firstFault? name [] fields = none ↔ Legal fields := firstFault?_eq_none_iff
  rw [describe, ← legal]
  split
  · next fault hf => simp [hf]
  · next hf => simp [hf, eq_comm]

/-- The fields of a declared type are legal. -/
theorem legal_of_describe (h : describe type.name type.fields = .ok type) : Legal type.fields :=
  (describe_eq_ok_iff.mp h).2

theorem describe_eq_error_iff
    : describe name fields = .error error ↔ RefusedFor name fields error := by
  rw [describe, ← firstFault?_eq_some_iff]
  split
  · next fault hf => simp [hf]
  · next hf => simp [hf]

-----------------------------------------------------------------------------------------
-- Looking up fields
-----------------------------------------------------------------------------------------

theorem tags_perm (type : MessageType) : type.tags.Perm (type.fields.map Field.tag) :=
  List.mergeSort_perm _ _

/-- The tags of legal fields ascend. -/
theorem Legal.ascending_tags (h : Legal type.fields) : type.tags.Pairwise (· < ·) := by
  have sorted : type.tags.Pairwise (· ≤ ·) := by
    refine (List.pairwise_mergeSort ?_ ?_ _).imp of_decide_eq_true
    · simpa using fun _ _ _ => Nat.le_trans
    · simpa using Nat.le_total
  have distinct : type.tags.Nodup := type.tags_perm.nodup_iff.mpr h.distinctTags
  exact (sorted.and distinct).imp (fun ⟨hle, hne⟩ => Nat.lt_of_le_of_ne hle hne)

/-- Legal fields are found by what they are declared with. -/
theorem Legal.indexed (h : Legal type.fields) : type.Indexed where
  field _ _ := Scan.find?_eq_some_iff h.distinctTags
  undeclared _ := Scan.find?_eq_none_iff
  fieldNamed _ _ := Scan.find?_eq_some_iff h.distinctNames
  unnamed _ := Scan.find?_eq_none_iff
  ascending := h.ascending_tags
  tags _ := type.tags_perm.mem_iff

/-- The field names of a declared type are distinct. -/
theorem nodup_names (h : describe type.name type.fields = .ok type)
    : (type.fields.map Field.name).Nodup :=
  (legal_of_describe h).distinctNames

/-- Each field of a declared type is what is found under its tag. -/
theorem field?_of_mem (h : describe type.name type.fields = .ok type) {field : Field}
    (hm : field ∈ type.fields)
    : type.field? field.tag = some field :=
  ((legal_of_describe h).indexed.field _ _).mpr ⟨hm, rfl⟩

/-- A message type is declared exactly from legal fields, which it has in their order. Any others
are refused for the first field that breaks a rule, and for the first rule that it breaks. In what
is declared, each field is found by its tag and by its name, and the tags ascend.
-/
theorem describe_fields_exact (name : String) (fields : List Field)
    : (∀ type, describe name fields = .ok type ↔ type = ⟨name, fields⟩ ∧ Legal fields)
      ∧ (∀ error, describe name fields = .error error ↔ RefusedFor name fields error)
      ∧ ∀ type, describe name fields = .ok type → type.Indexed := by
  refine ⟨fun _ => describe_eq_ok_iff, fun _ => describe_eq_error_iff, fun type h => ?_⟩
  obtain ⟨rfl, legal⟩ := describe_eq_ok_iff.mp h
  exact legal.indexed

/-- A field that breaks more than one rule is refused for the first of them. -/
example
    : describe "Person"
        [⟨"name", 1, .required, .string, none, false⟩,
          ⟨"name", 1, .optional, .bytes, some (.scalar (.bool true)), true⟩]
      = .error (.duplicateTag "Person" 1 "name" "name") :=
  rfl

end MessageType

end TagWire
