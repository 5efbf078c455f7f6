import Mathlib.Data.List.Induction
import Mathlib.Data.List.Nodup

/-!
Lists of declarations. They are gone through in order, each beside those before it, and the first
fault is reported; and they are searched by what tells them apart.
-/

namespace TagWire.Scan

-----------------------------------------------------------------------------------------
-- Going through a list
-----------------------------------------------------------------------------------------

section Faults

variable {α ε : Type} {fault? : List α → α → Option ε} {before list : List α} {error : ε}

/-- The first fault of a list, if there is a fault for an item beside those before it. -/
def first? (fault? : List α → α → Option ε) (before : List α) : List α → Option ε
  | [] => none
  | item :: rest =>
      match fault? before item with
      | some error => some error
      | none => first? fault? (before ++ [item]) rest

theorem first?_append (front rest : List α)
    : first? fault? before (front ++ rest)
      = (first? fault? before front).or (first? fault? (before ++ front) rest) := by
  induction front generalizing before with
  | nil => simp [first?]
  | cons item front ih =>
      simp only [List.cons_append, first?]
      cases fault? before item with
      | some error => rfl
      | none => rw [ih, List.append_assoc, List.singleton_append]

theorem first?_singleton (item : α) : first? fault? before [item] = fault? before item := by
  simp only [first?]
  cases fault? before item <;> rfl

/-- The fault that is reported is that of an item before which there is none; by induction on the
items.
-/
theorem first?_eq_some_iff
    : first? fault? before list = some error
      ↔ ∃ front item rest,
          list = front ++ item :: rest
          ∧ first? fault? before front = none
          ∧ fault? (before ++ front) item = some error := by
  constructor
  · intro h
    induction list generalizing before with
    | nil => simp [first?] at h
    | cons item rest ih =>
        simp only [first?] at h
        split at h
        · next found hf => exact ⟨[], item, rest, rfl, rfl, by simpa [hf] using h⟩
        · next hf =>
            obtain ⟨front, later, others, rfl, hnone, hlater⟩ := ih h
            refine ⟨item :: front, later, others, rfl, ?_, by simpa using hlater⟩
            simpa only [first?, hf] using hnone
  · rintro ⟨front, item, rest, rfl, hnone, hitem⟩
    rw [first?_append, hnone, Option.none_or, ← List.singleton_append, first?_append,
      first?_singleton, hitem, Option.some_or]

/-- A list is without fault exactly if it is legal, where a legal list stays legal exactly with an
item that has no fault beside it; by induction on the items from the last one on.
-/
theorem first?_eq_none_iff {Legal : List α → Prop} (nil : Legal [])
    (concat
      : ∀ before item, Legal (before ++ [item]) ↔ Legal before ∧ fault? before item = none)
    : first? fault? [] list = none ↔ Legal list := by
  induction list using List.reverseRecOn with
  | nil => exact iff_of_true rfl nil
  | append_singleton front item ih =>
      rw [first?_append, Option.or_eq_none_iff, first?_singleton, List.nil_append, ih, concat]

end Faults

-----------------------------------------------------------------------------------------
-- Searching a list
-----------------------------------------------------------------------------------------

/-- With one item more, keys stay distinct exactly if no item had the new key. -/
theorem nodup_concat_iff {α β : Type} {keyOf : α → β} {before : List α} {item : α}
    : ((before ++ [item]).map keyOf).Nodup
      ↔ (before.map keyOf).Nodup ∧ keyOf item ∉ before.map keyOf := by
  rw [List.map_append, List.map_singleton, List.nodup_append_comm, List.singleton_append,
    List.nodup_cons, and_comm]

section Keys

variable {α β : Type} [BEq β] [LawfulBEq β] {keyOf : α → β} {list : List α}

/-- An item is found under its key, if no other item has it. -/
theorem find?_eq_some_iff (distinct : (list.map keyOf).Nodup) {key : β} {item : α}
    : list.find? (fun other => keyOf other == key) = some item
      ↔ item ∈ list ∧ keyOf item = key := by
  constructor
  · intro h
    exact ⟨List.mem_of_find?_eq_some h, by simpa using List.find?_some h⟩
  · rintro ⟨hm, rfl⟩
    have hsome : (list.find? (fun other => keyOf other == keyOf item)).isSome = true := by
      rw [List.find?_isSome]
      exact ⟨item, hm, beq_self_eq_true _⟩
    obtain ⟨found, hfound⟩ := Option.isSome_iff_exists.mp hsome
    have same : keyOf found = keyOf item := by simpa using List.find?_some hfound
    rw [hfound, List.inj_on_of_nodup_map distinct (List.mem_of_find?_eq_some hfound) hm same]

/-- Nothing is found under a key that no item has. -/
theorem find?_eq_none_iff {key : β}
    : list.find? (fun other => keyOf other == key) = none ↔ key ∉ list.map keyOf := by
  simp [List.find?_eq_none]

end Keys

end TagWire.Scan
