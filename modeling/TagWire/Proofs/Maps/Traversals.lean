/-!
Going through a list with a function that may refuse an element: all are accepted, or there is no
result.
-/

namespace TagWire.Traversal

variable {α β : Type} {f : α → Option β}

theorem mapM_cons_eq_some_iff {head : α} {rest : List α} {results : List β}
    : (head :: rest).mapM f = some results
      ↔ ∃ first others,
          f head = some first ∧ rest.mapM f = some others ∧ results = first :: others := by
  simp only [List.mapM_cons, Option.bind_eq_bind, Option.pure_def, Option.bind_eq_some_iff,
    Option.some.injEq]
  constructor
  · rintro ⟨first, hf, others, ho, rfl⟩
    exact ⟨first, others, hf, ho, rfl⟩
  · rintro ⟨first, others, hf, ho, rfl⟩
    exact ⟨first, hf, others, ho, rfl⟩

theorem exists_of_mem_mapM {list : List α} {results : List β} (h : list.mapM f = some results)
    {result : β} (hr : result ∈ results)
    : ∃ item ∈ list, f item = some result := by
  induction list generalizing results with
  | nil =>
      obtain rfl : [] = results := Option.some.inj h
      simp at hr
  | cons head rest ih =>
      obtain ⟨first, others, hf, ho, rfl⟩ := mapM_cons_eq_some_iff.mp h
      rcases List.mem_cons.mp hr with rfl | hm
      · exact ⟨head, by simp, hf⟩
      · obtain ⟨item, hi, he⟩ := ih ho hm
        exact ⟨item, by simp [hi], he⟩

theorem exists_mapM_of_mem {list : List α} {results : List β} (h : list.mapM f = some results)
    {item : α} (hi : item ∈ list)
    : ∃ result, f item = some result := by
  induction list generalizing results with
  | nil => simp at hi
  | cons head rest ih =>
      obtain ⟨first, others, hf, ho, rfl⟩ := mapM_cons_eq_some_iff.mp h
      rcases List.mem_cons.mp hi with rfl | hm
      · exact ⟨first, hf⟩
      · exact ih ho hm

theorem exists_mapM_eq_some {list : List α} (h : ∀ item ∈ list, ∃ result, f item = some result)
    : ∃ results, list.mapM f = some results := by
  induction list with
  | nil => exact ⟨[], rfl⟩
  | cons head rest ih =>
      obtain ⟨first, hf⟩ := h head (by simp)
      obtain ⟨others, ho⟩ := ih (fun item hi => h item (by simp [hi]))
      exact ⟨first :: others, mapM_cons_eq_some_iff.mpr ⟨first, others, hf, ho, rfl⟩⟩

theorem mapM_congr {g : α → Option β} {list : List α} (h : ∀ item ∈ list, f item = g item)
    : list.mapM f = list.mapM g := by
  induction list with
  | nil => rfl
  | cons head rest ih =>
      rw [List.mapM_cons, List.mapM_cons, h head (by simp),
        ih (fun item hi => h item (by simp [hi]))]

/-- A function that gives every result which another one gave traverses a list to the same results.
-/
theorem mapM_of_results {g : α → Option β} {list : List α} {results : List β}
    (h : list.mapM f = some results)
    (gives : ∀ item, ∀ result ∈ results, f item = some result → g item = some result)
    : list.mapM g = some results := by
  induction list generalizing results with
  | nil => exact h
  | cons head rest ih =>
      obtain ⟨first, others, hf, ho, rfl⟩ := mapM_cons_eq_some_iff.mp h
      have hrest := ih ho (fun item result hr => gives item result (List.mem_cons_of_mem _ hr))
      exact mapM_cons_eq_some_iff.mpr
        ⟨first, others, gives head first List.mem_cons_self hf, hrest, rfl⟩

theorem mapM_append_eq_bind (left right : List α)
    : (left ++ right).mapM f
      = (left.mapM f).bind (fun first => (right.mapM f).map (first ++ ·)) := by
  simp only [List.mapM_append, Option.bind_eq_bind, Option.pure_def]
  cases left.mapM f <;> cases right.mapM f <;> rfl

/-- A list made item by item is traversed as its items are, if all of them are accepted. -/
theorem mapM_map_eq_some {γ : Type} {make : γ → α} {g : γ → β} {list : List γ}
    (h : ∀ item ∈ list, f (make item) = some (g item))
    : (list.map make).mapM f = some (list.map g) := by
  induction list with
  | nil => rfl
  | cons head rest ih =>
      exact mapM_cons_eq_some_iff.mpr
        ⟨g head, rest.map g, h head (by simp), ih (fun item hi => h item (by simp [hi])), rfl⟩

/-- What is done to each result may be done to all of them in the end. -/
theorem mapM_comp_map {γ : Type} (g : β → γ) (list : List α)
    : list.mapM (fun item => (f item).map g) = (list.mapM f).map (List.map g) := by
  induction list with
  | nil => rfl
  | cons head rest ih =>
      simp only [List.mapM_cons, ih, Option.bind_eq_bind, Option.pure_def]
      cases f head with
      | none => rfl
      | some first => cases rest.mapM f <;> rfl

theorem mapM_eq_some_self {f : α → Option α} {list : List α}
    (h : ∀ item ∈ list, f item = some item)
    : list.mapM f = some list := by
  have hid : (list.map id).mapM f = some (list.map id) := mapM_map_eq_some h
  rwa [List.map_id] at hid

theorem flatMap_toList_of_mapM {list : List α} {results : List β} (h : list.mapM f = some results)
    : list.flatMap (fun item => (f item).toList) = results := by
  induction list generalizing results with
  | nil => exact Option.some.inj h
  | cons head rest ih =>
      obtain ⟨first, others, hf, ho, rfl⟩ := mapM_cons_eq_some_iff.mp h
      rw [List.flatMap_cons, hf, ih ho]
      rfl

/-- Leaving out elements leaves out their results, if the function keeps apart what is left out
from what is not.
-/
theorem mapM_filter {p : α → Bool} {q : β → Bool} {list : List α} {results : List β}
    (h : list.mapM f = some results)
    (same : ∀ item ∈ list, ∀ result, f item = some result → q result = p item)
    : (list.filter p).mapM f = some (results.filter q) := by
  induction list generalizing results with
  | nil =>
      obtain rfl : [] = results := Option.some.inj h
      rfl
  | cons head rest ih =>
      obtain ⟨first, others, hf, ho, rfl⟩ := mapM_cons_eq_some_iff.mp h
      have hq := same head (by simp) first hf
      have hrest := ih ho (fun item hi => same item (by simp [hi]))
      cases hp : p head with
      | false => simpa [hp, hq] using hrest
      | true =>
          rw [hp] at hq
          rw [List.filter_cons_of_pos hp, List.filter_cons_of_pos hq]
          exact mapM_cons_eq_some_iff.mpr ⟨first, others.filter q, hf, hrest, rfl⟩

end TagWire.Traversal
