/-!
Maps from tags, held as lists of entries in ascending order of tag. A map has one list, so two
maps that hold the same entries are equal.
-/

namespace TagWire

/-- Entries by tag. The operations keep the tags strictly ascending. -/
abbrev TagMap (α : Type) := List (Nat × α)

namespace TagMap

variable {α β : Type}

/-- The tags strictly ascend. -/
def Ascending (map : TagMap α) : Prop := (map.map Prod.fst).Pairwise (· < ·)

/-- The entry at a tag. -/
def find? : TagMap α → Nat → Option α
  | [], _ => none
  | (other, value) :: rest, tag => if other = tag then some value else find? rest tag

/-- Put an entry at a tag, over the one that may be there. -/
def insert (tag : Nat) (value : α) : TagMap α → TagMap α
  | [] => [(tag, value)]
  | (other, held) :: rest =>
      if tag < other then (tag, value) :: (other, held) :: rest
      else if tag = other then (tag, value) :: rest
      else (other, held) :: insert tag value rest

/-- Remove the entry at a tag. -/
def erase (tag : Nat) (map : TagMap α) : TagMap α := map.filter (fun entry => entry.1 != tag)

/-- Whether there is an entry at a tag. -/
def contains (map : TagMap α) (tag : Nat) : Bool := (find? map tag).isSome

theorem find?_insert (tag : Nat) (value : α) (map : TagMap α) (other : Nat)
    : find? (insert tag value map) other = if tag = other then some value else find? map other := by
  induction map with
  | nil => simp [insert, find?]
  | cons entry rest ih =>
      obtain ⟨head, held⟩ := entry
      simp only [insert]
      split
      · simp [find?]
      · split
        · next h => subst h; by_cases ht : tag = other <;> simp [find?, ht]
        · next h =>
            by_cases hh : head = other
            · subst hh; simp [find?, h]
            · simp [find?, hh, ih]

theorem mem_insert {tag : Nat} {value : α} {map : TagMap α} {entry : Nat × α}
    (h : entry ∈ insert tag value map) : entry = (tag, value) ∨ entry ∈ map := by
  induction map with
  | nil => exact Or.inl (List.mem_singleton.mp h)
  | cons head rest ih =>
      simp only [insert] at h
      split at h
      · simpa using h
      · split at h
        · rcases List.mem_cons.mp h with he | hm
          · exact Or.inl he
          · exact Or.inr (List.mem_cons_of_mem _ hm)
        · rcases List.mem_cons.mp h with he | hm
          · exact Or.inr (he ▸ List.mem_cons_self)
          · exact (ih hm).imp_right (List.mem_cons_of_mem _)

theorem Ascending.insert {tag : Nat} {value : α} {map : TagMap α} (h : Ascending map)
    : Ascending (insert tag value map) := by
  induction map with
  | nil => simp [Ascending, TagMap.insert]
  | cons head rest ih =>
      obtain ⟨hr, ht⟩ := List.pairwise_cons.mp h
      have hlow : ∀ entry ∈ rest, head.1 < entry.1 :=
        fun entry hm => hr entry.1 (List.mem_map_of_mem hm)
      simp only [TagMap.insert]
      split
      · next hlt =>
          refine List.pairwise_cons.mpr ⟨fun other ho => ?_, h⟩
          obtain ⟨entry, hm, rfl⟩ := List.mem_map.mp ho
          rcases List.mem_cons.mp hm with rfl | hm
          · exact hlt
          · exact Nat.lt_trans hlt (hlow entry hm)
      · split
        · next he =>
            subst he
            exact List.pairwise_cons.mpr ⟨hr, ht⟩
        · next hlt he =>
            refine List.pairwise_cons.mpr ⟨fun other ho => ?_, ih ht⟩
            obtain ⟨entry, hm, rfl⟩ := List.mem_map.mp ho
            rcases mem_insert hm with rfl | hm
            · exact Nat.lt_of_le_of_ne (Nat.le_of_not_lt hlt) (Ne.symm he)
            · exact hlow entry hm

theorem find?_erase (tag : Nat) (map : TagMap α) (other : Nat)
    : find? (erase tag map) other = if tag = other then none else find? map other := by
  induction map with
  | nil => simp [erase, find?]
  | cons entry rest ih =>
      obtain ⟨head, held⟩ := entry
      simp only [erase] at ih
      by_cases hh : head = tag
      · subst hh
        by_cases ho : head = other <;> simpa [erase, find?, ho] using ih
      · have hn : (head != tag) = true := by simpa using hh
        by_cases ho : head = other
        · subst ho
          simp [erase, find?, hn, Ne.symm hh]
        · simp [erase, find?, hn, ho, ih]

theorem Ascending.erase {tag : Nat} {map : TagMap α} (h : Ascending map)
    : Ascending (erase tag map) :=
  List.Pairwise.sublist ((List.filter_sublist).map Prod.fst) h

end TagMap

end TagWire
