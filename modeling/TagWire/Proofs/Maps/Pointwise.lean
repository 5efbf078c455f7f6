import Mathlib.Data.List.Basic
import TagWire.TagMap

/-!
A map from tags is determined by what it holds at each tag. Maps made tag by tag, and one map laid
over another, are described here by what they hold.
-/

namespace TagWire.TagMap

variable {α β : Type}

theorem find?_eq_none_of_forall_lt {tag : Nat} {map : TagMap α}
    (h : ∀ entry ∈ map, tag < entry.1)
    : find? map tag = none := by
  induction map with
  | nil => rfl
  | cons entry rest ih =>
      have hh := h entry (by simp)
      simp only [find?, if_neg (Nat.ne_of_gt hh)]
      exact ih (fun other ho => h other (by simp [ho]))

theorem Ascending.tail {entry : Nat × α} {rest : TagMap α} (h : Ascending (entry :: rest))
    : Ascending rest :=
  (List.pairwise_cons.mp h).2

theorem Ascending.head_lt {entry : Nat × α} {rest : TagMap α} (h : Ascending (entry :: rest))
    : ∀ other ∈ rest, entry.1 < other.1 :=
  fun other ho => (List.pairwise_cons.mp h).1 other.1 (List.mem_map_of_mem ho)

theorem Ascending.find?_tail_head {entry : Nat × α} {rest : TagMap α}
    (h : Ascending (entry :: rest))
    : find? rest entry.1 = none :=
  find?_eq_none_of_forall_lt h.head_lt

theorem mem_of_find? {map : TagMap α} {tag : Nat} {value : α} (h : find? map tag = some value)
    : (tag, value) ∈ map := by
  induction map with
  | nil => simp [find?] at h
  | cons entry rest ih =>
      rcases entry with ⟨head, held⟩
      simp only [find?] at h
      split at h
      · next he => rw [← he, ← Option.some.inj h]; exact List.mem_cons_self
      · exact List.mem_cons_of_mem _ (ih h)

theorem Ascending.find?_of_mem {map : TagMap α} (hm : Ascending map) {tag : Nat} {value : α}
    (h : (tag, value) ∈ map)
    : find? map tag = some value := by
  induction map with
  | nil => simp at h
  | cons entry rest ih =>
      rcases entry with ⟨head, held⟩
      rcases List.mem_cons.mp h with he | hr
      · obtain ⟨rfl, rfl⟩ := Prod.mk.inj he
        simp [find?]
      · have hlt : head < tag := hm.head_lt _ hr
        simp only [find?, if_neg (Nat.ne_of_lt hlt)]
        exact ih hm.tail hr

/-- Two ascending maps that hold the same at every tag are one list, by induction on both: the
smaller of two unequal heads would be held by one map only.
-/
theorem Ascending.ext {left right : TagMap α} (hl : Ascending left) (hr : Ascending right)
    (same : ∀ tag, find? left tag = find? right tag)
    : left = right := by
  induction left generalizing right with
  | nil =>
      cases right with
      | nil => rfl
      | cons entry rest => simpa [find?] using same entry.1
  | cons entry rest ih =>
      rcases entry with ⟨tag, value⟩
      cases right with
      | nil => simpa [find?] using same tag
      | cons other more =>
          rcases other with ⟨otherTag, held⟩
          have heads : tag = otherTag := by
            have atTag := same tag
            have atOther := same otherTag
            simp only [find?, if_true] at atTag atOther
            rcases Nat.lt_trichotomy tag otherTag with hlt | he | hlt
            · have hn : find? more tag = none :=
                find?_eq_none_of_forall_lt (fun e hm => Nat.lt_trans hlt (hr.head_lt e hm))
              simp [hn, Nat.ne_of_gt hlt] at atTag
            · exact he
            · have hn : find? rest otherTag = none :=
                find?_eq_none_of_forall_lt (fun e hm => Nat.lt_trans hlt (hl.head_lt e hm))
              simp [hn, Nat.ne_of_gt hlt] at atOther
          subst heads
          have values : value = held := by simpa [find?] using same tag
          subst values
          have tails : rest = more := ih hl.tail hr.tail (fun at' => by
            by_cases he : tag = at'
            · subst he
              exact hl.find?_tail_head.trans hr.find?_tail_head.symm
            · simpa [find?, he] using same at')
          rw [tails]

theorem Ascending.find?_takeWhile {map : TagMap α} (h : Ascending map) (bound tag : Nat)
    : find? (map.takeWhile (fun entry => entry.1 < bound)) tag
      = if tag < bound then find? map tag else none := by
  induction map with
  | nil => simp [find?]
  | cons entry rest ih =>
      rcases entry with ⟨head, held⟩
      by_cases hh : head < bound
      · rw [List.takeWhile_cons_of_pos (by simpa using hh)]
        by_cases he : head = tag
        · subst he
          simp [find?, hh]
        · simp only [find?, if_neg he, ih h.tail]
      · rw [List.takeWhile_cons_of_neg (by simpa using hh), find?]
        split
        · next hlt =>
            have hall : ∀ other ∈ (head, held) :: rest, tag < other.1 := by
              intro other ho
              rcases List.mem_cons.mp ho with rfl | hm
              · exact Nat.lt_of_lt_of_le hlt (Nat.not_lt.mp hh)
              · have := h.head_lt other hm
                omega
            exact (find?_eq_none_of_forall_lt hall).symm
        · rfl

theorem Ascending.find?_dropWhile {map : TagMap α} (h : Ascending map) (bound tag : Nat)
    : find? (map.dropWhile (fun entry => entry.1 < bound)) tag
      = if tag < bound then none else find? map tag := by
  induction map with
  | nil => simp [find?]
  | cons entry rest ih =>
      rcases entry with ⟨head, held⟩
      by_cases hh : head < bound
      · rw [List.dropWhile_cons_of_pos (by simpa using hh), ih h.tail]
        split
        · rfl
        · next hge => rw [find?, if_neg (by omega)]
      · rw [List.dropWhile_cons_of_neg (by simpa using hh)]
        split
        · next hlt =>
            refine find?_eq_none_of_forall_lt (fun other ho => ?_)
            rcases List.mem_cons.mp ho with rfl | hm
            · exact Nat.lt_of_lt_of_le hlt (Nat.not_lt.mp hh)
            · have := h.head_lt other hm
              omega
        · rfl

theorem Ascending.dropWhile {map : TagMap α} (h : Ascending map) (p : Nat × α → Bool)
    : Ascending (map.dropWhile p) :=
  List.Pairwise.sublist ((List.dropWhile_sublist p).map Prod.fst) h

theorem Ascending.takeWhile {map : TagMap α} (h : Ascending map) (p : Nat × α → Bool)
    : Ascending (map.takeWhile p) :=
  List.Pairwise.sublist ((List.takeWhile_sublist p).map Prod.fst) h

/-- The map that holds, at those of the tags where a function gives one, the entry it gives. -/
def tabulate (valueAt? : Nat → Option α) : List Nat → TagMap α
  | [] => []
  | tag :: rest =>
      match valueAt? tag with
      | some value => insert tag value (tabulate valueAt? rest)
      | none => tabulate valueAt? rest

theorem Ascending.nil : Ascending ([] : TagMap α) := List.Pairwise.nil

theorem ascending_tabulate (valueAt? : Nat → Option α) (tags : List Nat)
    : Ascending (tabulate valueAt? tags) := by
  induction tags with
  | nil => exact Ascending.nil
  | cons tag rest ih =>
      simp only [tabulate]
      split
      · exact ih.insert
      · exact ih

/-- A made map holds what the function gives, at the tags it was made for. -/
theorem find?_tabulate (valueAt? : Nat → Option α) (tags : List Nat) (tag : Nat)
    : find? (tabulate valueAt? tags) tag = if tag ∈ tags then valueAt? tag else none := by
  induction tags with
  | nil => rfl
  | cons head rest ih =>
      by_cases hh : head = tag
      · subst hh
        cases he : valueAt? head with
        | none => simp [tabulate, he, ih]
        | some value => simp [tabulate, he, find?_insert]
      · have hn : tag ≠ head := Ne.symm hh
        cases he : valueAt? head with
        | none => simp [tabulate, he, ih, hn]
        | some value => simp [tabulate, he, find?_insert, hh, hn, ih]

theorem find?_tabulate_of_mem {valueAt? : Nat → Option α} {tags : List Nat} {tag : Nat}
    (h : valueAt? tag ≠ none → tag ∈ tags)
    : find? (tabulate valueAt? tags) tag = valueAt? tag := by
  rw [find?_tabulate]
  split
  · rfl
  · next hn =>
      by_cases he : valueAt? tag = none
      · exact he.symm
      · exact absurd (h he) hn

/-- A map after the entries of another are put over its own, each joined with the one that may be
there.
-/
def layOver (join : Option α → α → α) (mine : TagMap α) : TagMap α → TagMap α
  | [] => mine
  | (tag, value) :: rest => layOver join (insert tag (join (find? mine tag) value) mine) rest

theorem Ascending.layOver {join : Option α → α → α} {mine theirs : TagMap α}
    (h : Ascending mine)
    : Ascending (layOver join mine theirs) := by
  induction theirs generalizing mine with
  | nil => exact h
  | cons entry rest ih => exact ih h.insert

/-- Laying an ascending map over another joins entry with entry. The tags of the upper map are
distinct, so an entry that was just put is not met again.
-/
theorem find?_layOver (join : Option α → α → α) (mine : TagMap α) {theirs : TagMap α}
    (h : Ascending theirs) (tag : Nat)
    : find? (layOver join mine theirs) tag
      = match find? theirs tag with
        | none => find? mine tag
        | some value => some (join (find? mine tag) value) := by
  induction theirs generalizing mine with
  | nil => rfl
  | cons entry rest ih =>
      rcases entry with ⟨head, held⟩
      rw [layOver, ih _ h.tail]
      by_cases hh : head = tag
      · subst hh
        rw [h.find?_tail_head]
        simp [find?, find?_insert]
      · simp only [find?, if_neg hh, find?_insert]

/-- A map with the same tags, and with each entry changed by a function. -/
def mapValues (f : α → β) (map : TagMap α) : TagMap β := map.map (fun entry => (entry.1, f entry.2))

theorem find?_mapValues (f : α → β) (map : TagMap α) (tag : Nat)
    : find? (mapValues f map) tag = (find? map tag).map f := by
  induction map with
  | nil => rfl
  | cons entry rest ih =>
      rcases entry with ⟨head, held⟩
      by_cases hh : head = tag
      · simp [mapValues, find?, hh]
      · simpa [mapValues, find?, hh] using ih

theorem Ascending.mapValues {map : TagMap α} (h : Ascending map) (f : α → β)
    : Ascending (mapValues f map) := by
  have tags : (TagMap.mapValues f map).map Prod.fst = map.map Prod.fst := by
    rw [TagMap.mapValues, List.map_map]
    rfl
  rwa [Ascending, tags]

theorem mapValues_insert (f : α → β) (tag : Nat) (value : α) (map : TagMap α)
    : mapValues f (insert tag value map) = insert tag (f value) (mapValues f map) := by
  induction map with
  | nil => rfl
  | cons entry rest ih =>
      rcases entry with ⟨head, held⟩
      simp only [mapValues, List.map_cons, insert] at ih ⊢
      split
      · rfl
      · split
        · rfl
        · rw [List.map_cons, ih]

theorem mapValues_tabulate (f : α → β) (valueAt? : Nat → Option α) (tags : List Nat)
    : mapValues f (tabulate valueAt? tags) = tabulate (fun tag => (valueAt? tag).map f) tags := by
  induction tags with
  | nil => rfl
  | cons tag rest ih =>
      cases hv : valueAt? tag with
      | none => simp only [tabulate, hv, Option.map_none, ih]
      | some value => simp only [tabulate, hv, Option.map_some, mapValues_insert, ih]

/-- The tags of an ascending map are those at which something is found. -/
theorem mem_map_fst_iff {map : TagMap α} (h : Ascending map) {tag : Nat}
    : tag ∈ map.map Prod.fst ↔ (find? map tag).isSome = true := by
  rw [Option.isSome_iff_exists, List.mem_map]
  constructor
  · rintro ⟨⟨_, value⟩, hm, rfl⟩
    exact ⟨value, h.find?_of_mem hm⟩
  · rintro ⟨value, hf⟩
    exact ⟨(tag, value), mem_of_find? hf, rfl⟩

/-- At a tag below which there are none an ascending map has its first entry, or no entry. Without
it, all tags are larger.
-/
theorem Ascending.first_or_absent {map : TagMap α} (h : Ascending map) {tag : Nat}
    (smallest : ∀ entry ∈ map, tag ≤ entry.1)
    : (∃ value, find? map tag = some value ∧ map = (tag, value) :: TagMap.erase tag map)
      ∨ (find? map tag = none ∧ TagMap.erase tag map = map) := by
  have absent {map : TagMap α} (larger : ∀ entry ∈ map, tag < entry.1)
      : TagMap.erase tag map = map :=
    List.filter_eq_self.mpr (fun entry he => by simpa using Nat.ne_of_gt (larger entry he))
  cases map with
  | nil => exact .inr ⟨rfl, rfl⟩
  | cons entry rest =>
      rcases entry with ⟨head, value⟩
      rcases Nat.eq_or_lt_of_le (smallest _ List.mem_cons_self) with rfl | hlt
      · have hrest : TagMap.erase tag ((tag, value) :: rest) = rest :=
          (List.filter_cons_of_neg (by simp)).trans (absent h.head_lt)
        exact .inl ⟨value, by simp [find?], by rw [hrest]⟩
      · have larger : ∀ other ∈ (head, value) :: rest, tag < other.1 := by
          intro other ho
          rcases List.mem_cons.mp ho with rfl | ho
          · exact hlt
          · exact Nat.lt_trans hlt (h.head_lt other ho)
        exact .inr ⟨find?_eq_none_of_forall_lt larger, absent larger⟩

/-- Without its entry at the first of some tags, a map has its tags among the others. -/
theorem mem_of_mem_erase {map : TagMap α} {tag : Nat} {tags : List Nat}
    (covered : ∀ entry ∈ map, entry.1 ∈ tag :: tags) {entry : Nat × α} (he : entry ∈ erase tag map)
    : entry.1 ∈ tags := by
  obtain ⟨hm, hne⟩ := List.mem_filter.mp he
  exact (List.mem_cons.mp (covered entry hm)).resolve_left (by simpa using hne)

theorem le_of_covered {map : TagMap α} {tag : Nat} {tags : List Nat}
    (ascending : (tag :: tags).Pairwise (· < ·)) (covered : ∀ entry ∈ map, entry.1 ∈ tag :: tags)
    : ∀ entry ∈ map, tag ≤ entry.1 := by
  intro entry he
  rcases List.mem_cons.mp (covered entry he) with heq | hm
  · exact Nat.le_of_eq heq.symm
  · exact Nat.le_of_lt ((List.pairwise_cons.mp ascending).1 _ hm)

theorem find?_erase_of_lt {map : TagMap α} {tag other : Nat} (h : tag < other)
    : find? (erase tag map) other = find? map other := by
  rw [find?_erase, if_neg (Nat.ne_of_lt h)]

/-- To go through ascending tags that cover a map is to go through its entries, each of them once;
by induction on the tags.
-/
theorem Ascending.flatMap_find? {map : TagMap α} (h : Ascending map) {tags : List Nat}
    (ascending : tags.Pairwise (· < ·)) (covered : ∀ entry ∈ map, entry.1 ∈ tags)
    (items : α → List β)
    : tags.flatMap (fun tag => ((find? map tag).map items).getD [])
      = map.flatMap (fun entry => items entry.2) := by
  induction tags generalizing map with
  | nil =>
      obtain rfl : map = [] := List.eq_nil_iff_forall_not_mem.mpr (by simpa using covered)
      rfl
  | cons tag tags ih =>
      obtain ⟨smallest, more⟩ := List.pairwise_cons.mp ascending
      have others : tags.flatMap (fun tag => ((find? map tag).map items).getD [])
          = (TagMap.erase tag map).flatMap (fun entry => items entry.2) := by
        rw [← ih h.erase more (fun entry => mem_of_mem_erase covered)]
        exact List.flatMap_congr (fun other ho => by rw [find?_erase_of_lt (smallest other ho)])
      rw [List.flatMap_cons, others]
      rcases h.first_or_absent (le_of_covered ascending covered) with ⟨value, hf, hm⟩ | ⟨hf, hm⟩
      · rw [hf]
        conv => rhs; rw [hm]
        rfl
      · rw [hf, hm]
        rfl

end TagWire.TagMap
