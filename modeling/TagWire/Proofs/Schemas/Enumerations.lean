import TagWire.Proofs.Schemas.Closure
import TagWire.Proofs.Schemas.Scans

/-!
Which enumerations can be declared, and how their values are looked up. A declared enumeration is
one to one between its names and its numbers.
-/

namespace TagWire.Enumeration

/-- No two values share a name, and no two share a number. -/
structure Distinct (values : List (String × Int32)) : Prop where
  names : (values.map Prod.fst).Nodup
  numbers : (values.map Prod.snd).Nodup

/-- What a list of values is refused for: its first value that clashes with one before it, by its
name or else by its number, or that there is no value.
-/
inductive RefusedFor (values : List (String × Int32)) : EnumFault → Prop
  | repeatedName {before rest : List (String × Int32)} {name : String} {number : Int32}
    (split : values = before ++ (name, number) :: rest) (distinct : Distinct before)
    (taken : name ∈ before.map Prod.fst)
    : RefusedFor values (.repeatedName name)
  | sharedNumber {before rest : List (String × Int32)} {first name : String} {number : Int32}
    (split : values = before ++ (name, number) :: rest) (distinct : Distinct before)
    (fresh : name ∉ before.map Prod.fst) (taken : (first, number) ∈ before)
    : RefusedFor values (.sharedNumber number first name)
  | noValues (empty : values = []) : RefusedFor values .noValues

/-- Names and numbers are looked up to each other, and nothing else is found. The first number is
the default.
-/
structure OneToOne (type : Enumeration) : Prop where
  nameOf
    : ∀ name number, type.nameOf? number = some name ↔ (name, number) ∈ type.values
  numberOf
    : ∀ name number, type.numberOf? name = some number ↔ (name, number) ∈ type.values
  unnamed : ∀ number, type.nameOf? number = none ↔ number ∉ type.values.map Prod.snd
  unnumbered : ∀ name, type.numberOf? name = none ↔ name ∉ type.values.map Prod.fst
  contains : ∀ number, type.contains number = true ↔ (type.nameOf? number).isSome = true
  default
    : ∃ first rest,
        type.values = first :: rest
        ∧ type.defaultNumber = first.2
        ∧ type.contains first.2 = true

-----------------------------------------------------------------------------------------
-- Declaring an enumeration
-----------------------------------------------------------------------------------------

/-- A value is without a clash if its name and its number are both new. -/
theorem clash?_eq_none_iff {before : List (String × Int32)} {name : String} {number : Int32}
    : clash? before name number = none
      ↔ name ∉ before.map Prod.fst ∧ number ∉ before.map Prod.snd := by
  rw [clash?]
  by_cases hname : name ∈ before.map Prod.fst
  · have taken : before.any (fun value => value.1 == name) = true := by simpa using hname
    simp only [if_pos taken, hname, reduceCtorEq, not_true_eq_false, false_and]
  · have free : ¬ before.any (fun value => value.1 == name) = true := by simpa using hname
    rw [if_neg free, Option.map_eq_none_iff, Scan.find?_eq_none_iff]
    simp only [hname, not_false_eq_true, true_and]

/-- A clash is one by name, or else one by number, which only one of distinct values has. -/
theorem clash?_eq_some_iff {before : List (String × Int32)} (distinct : Distinct before)
    {name : String} {number : Int32} {fault : EnumFault}
    : clash? before name number = some fault
      ↔ (name ∈ before.map Prod.fst ∧ fault = .repeatedName name)
        ∨ (name ∉ before.map Prod.fst
            ∧ ∃ first, (first, number) ∈ before ∧ fault = .sharedNumber number first name) := by
  rw [clash?]
  by_cases hname : name ∈ before.map Prod.fst
  · have taken : before.any (fun value => value.1 == name) = true := by simpa using hname
    rw [if_pos taken]
    simp only [hname, Option.some.injEq, true_and, not_true_eq_false, false_and, or_false,
      eq_comm]
  · have free : ¬ before.any (fun value => value.1 == name) = true := by simpa using hname
    simp only [if_neg free, hname, Option.map_eq_some_iff, false_and, not_false_eq_true, true_and,
      false_or, Scan.find?_eq_some_iff distinct.numbers]
    constructor
    · rintro ⟨⟨first, _⟩, ⟨hm, rfl⟩, rfl⟩
      exact ⟨first, hm, rfl⟩
    · rintro ⟨first, hm, rfl⟩
      exact ⟨(first, number), ⟨hm, rfl⟩, rfl⟩

/-- Values stay distinct exactly with one that does not clash with them. -/
theorem distinct_concat_iff (before : List (String × Int32)) (value : String × Int32)
    : Distinct (before ++ [value]) ↔ Distinct before ∧ clash? before value.1 value.2 = none := by
  rw [clash?_eq_none_iff]
  constructor
  · rintro ⟨names, numbers⟩
    obtain ⟨names, freshName⟩ := Scan.nodup_concat_iff.mp names
    obtain ⟨numbers, freshNumber⟩ := Scan.nodup_concat_iff.mp numbers
    exact ⟨⟨names, numbers⟩, freshName, freshNumber⟩
  · rintro ⟨⟨names, numbers⟩, freshName, freshNumber⟩
    exact ⟨Scan.nodup_concat_iff.mpr ⟨names, freshName⟩,
      Scan.nodup_concat_iff.mpr ⟨numbers, freshNumber⟩⟩

theorem firstClash?_eq_first? (before values : List (String × Int32))
    : firstClash? before values
      = Scan.first? (fun before value => clash? before value.1 value.2) before values := by
  induction values generalizing before with
  | nil => rfl
  | cons value rest ih =>
      simp only [firstClash?, Scan.first?, ih]
      cases clash? before value.1 value.2 <;> rfl

theorem firstClash?_eq_none_iff {values : List (String × Int32)}
    : firstClash? [] values = none ↔ Distinct values := by
  rw [firstClash?_eq_first?]
  exact Scan.first?_eq_none_iff ⟨List.nodup_nil, List.nodup_nil⟩ distinct_concat_iff

/-- A list is refused for its first clash, or for having no values. -/
theorem refusedFor_iff {values : List (String × Int32)} {fault : EnumFault}
    : RefusedFor values fault
      ↔ firstClash? [] values = some fault ∨ (values = [] ∧ fault = .noValues) := by
  rw [firstClash?_eq_first?, Scan.first?_eq_some_iff]
  constructor
  · have faultless {before : List (String × Int32)} (distinct : Distinct before)
        : Scan.first? (fun before value => clash? before value.1 value.2) [] before = none := by
      rwa [← firstClash?_eq_first?, firstClash?_eq_none_iff]
    intro refused
    cases refused with
    | repeatedName split distinct taken =>
        exact .inl ⟨_, _, _, split, faultless distinct,
          (clash?_eq_some_iff distinct).mpr (.inl ⟨taken, rfl⟩)⟩
    | sharedNumber split distinct fresh taken =>
        exact .inl ⟨_, _, _, split, faultless distinct,
          (clash?_eq_some_iff distinct).mpr (.inr ⟨fresh, _, taken, rfl⟩)⟩
    | noValues empty => exact .inr ⟨empty, rfl⟩
  · rintro (⟨before, ⟨name, number⟩, rest, split, hbefore, hclash⟩ | ⟨empty, rfl⟩)
    · rw [← firstClash?_eq_first?, firstClash?_eq_none_iff] at hbefore
      rcases (clash?_eq_some_iff hbefore).mp hclash with ⟨taken, rfl⟩ | ⟨fresh, first, taken, rfl⟩
      · exact .repeatedName split hbefore taken
      · exact .sharedNumber split hbefore fresh taken
    · exact .noValues empty

theorem describe_eq_ok_iff {name : String} {values : List (String × Int32)} {type : Enumeration}
    : describe name values = .ok type
      ↔ type = ⟨name, values⟩ ∧ values ≠ [] ∧ Distinct values := by
  rw [describe, ← firstClash?_eq_none_iff]
  split
  · next fault hf => simp [hf]
  · next hf => cases values <;> simp [hf, eq_comm]

theorem describe_eq_error_iff {name : String} {values : List (String × Int32)}
    {error : SchemaError}
    : describe name values = .error error
      ↔ ∃ fault, error = .invalidEnum name fault ∧ RefusedFor values fault := by
  simp only [refusedFor_iff, describe]
  split
  · next found hf =>
      have nonempty : values ≠ [] := by
        rintro rfl
        simp [firstClash?] at hf
      simp [hf, nonempty, eq_comm]
  · next hf => cases values <;> simp [hf, eq_comm]

-----------------------------------------------------------------------------------------
-- Looking up values
-----------------------------------------------------------------------------------------

/-- Distinct values are looked up one to one. -/
theorem Distinct.oneToOne {type : Enumeration} (h : Distinct type.values)
    (nonempty : type.values ≠ [])
    : type.OneToOne where
  nameOf name number := by
    rw [nameOf?, Option.map_eq_some_iff]
    constructor
    · rintro ⟨⟨_, _⟩, hf, rfl⟩
      obtain ⟨hm, rfl⟩ := (Scan.find?_eq_some_iff h.numbers).mp hf
      exact hm
    · intro hm
      exact ⟨(name, number), (Scan.find?_eq_some_iff h.numbers).mpr ⟨hm, rfl⟩, rfl⟩
  numberOf name number := by
    rw [numberOf?, Option.map_eq_some_iff]
    constructor
    · rintro ⟨⟨_, _⟩, hf, rfl⟩
      obtain ⟨hm, rfl⟩ := (Scan.find?_eq_some_iff h.names).mp hf
      exact hm
    · intro hm
      exact ⟨(name, number), (Scan.find?_eq_some_iff h.names).mpr ⟨hm, rfl⟩, rfl⟩
  unnamed number := by
    rw [nameOf?, Option.map_eq_none_iff, Scan.find?_eq_none_iff]
  unnumbered name := by
    rw [numberOf?, Option.map_eq_none_iff, Scan.find?_eq_none_iff]
  contains number := by
    rw [nameOf?, Option.isSome_map, List.find?_isSome, contains, List.any_eq_true]
  default := by
    obtain ⟨first, rest, hv⟩ := List.exists_cons_of_ne_nil nonempty
    exact ⟨first, rest, hv, by simp [defaultNumber, hv], by simp [contains, hv]⟩

/-- An enumeration is declared exactly from values of which there is one, and no two of which share
a name or a number. Any others are refused for the first value that clashes with one before it, by
its name before its number. What is declared is looked up one to one.
-/
theorem describe_values_exact (name : String) (values : List (String × Int32))
    : (∀ type,
        describe name values = .ok type
        ↔ type = ⟨name, values⟩ ∧ values ≠ [] ∧ Distinct values)
      ∧ (∀ error,
          describe name values = .error error
          ↔ ∃ fault, error = .invalidEnum name fault ∧ RefusedFor values fault)
      ∧ ∀ type, describe name values = .ok type → type.OneToOne := by
  refine ⟨fun _ => describe_eq_ok_iff, fun _ => describe_eq_error_iff, fun type h => ?_⟩
  obtain ⟨rfl, nonempty, distinct⟩ := describe_eq_ok_iff.mp h
  exact Distinct.oneToOne distinct nonempty

/-- A value that clashes both ways is refused for its name. -/
example
    : describe "Sort" [("MOBILE", 0), ("HOME", 1), ("MOBILE", 1), ("WORK", 0)]
      = .error (.invalidEnum "Sort" (.repeatedName "MOBILE")) :=
  rfl

end TagWire.Enumeration
