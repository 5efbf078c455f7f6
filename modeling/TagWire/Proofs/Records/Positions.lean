import Mathlib.Data.List.Induction
import TagWire.Record.Required

/-!
Positions in a tree of records and the paths that they are written as. A path tells its position
apart from all others if no field name is empty or has a dot or a bracket in it.
-/

namespace TagWire

/-- A name that is one step of a path wherever it stands: it is not empty, and nothing in it could
be taken for the end of a step.
-/
def PlainName (name : String) : Prop :=
  name ≠ "" ∧ ∀ c ∈ name.toList, c ≠ '.' ∧ c ≠ '[' ∧ c ≠ ']'

instance (name : String) : Decidable (PlainName name) :=
  -- The characters of the name are gone through, and not all that there are.
  @instDecidableAnd _ _ inferInstance (List.decidableBAll _ _)

/-- The field names of a position are plain. -/
def Position.Plain (position : Position) : Prop :=
  ∀ name, .field name ∈ position → PlainName name

theorem Position.Plain.tail {step : PathStep} {rest : Position}
    (h : Position.Plain (step :: rest))
    : Position.Plain rest :=
  fun name hm => h name (List.mem_cons_of_mem _ hm)

-----------------------------------------------------------------------------------------
-- The text of a path
-----------------------------------------------------------------------------------------

namespace Position

theorem text_nil : text [] = "" := rfl

theorem text_field (position : Position) (name : String)
    : text (position ++ [.field name])
      = if position.text.isEmpty then name else position.text ++ "." ++ name := by
  rw [text, List.foldl_append]
  rfl

theorem text_index (position : Position) (index : Nat)
    : text (position ++ [.index index]) = position.text ++ "[" ++ toString index ++ "]" := by
  have bracketed : position.text ++ "[" ++ toString index ++ "]"
      = position.text ++ ("[" ++ toString index ++ "]") := by
    simp only [String.append_assoc]
  rw [text, List.foldl_append, bracketed]
  rfl

end Position

/-- The characters that a step adds to a path that is not empty. -/
def PathStep.mark : PathStep → List Char
  | .field name => '.' :: name.toList
  | .index place => '[' :: (Nat.toDigits 10 place ++ [']'])

/-- A step adds its mark to what is there already. -/
theorem Position.toList_text_concat {position : Position} (nonempty : position.text ≠ "")
    (step : PathStep)
    : (text (position ++ [step])).toList = position.text.toList ++ step.mark := by
  cases step with
  | field name =>
      have hne : ¬ position.text.isEmpty = true := by simpa using nonempty
      simp [text_field, hne, PathStep.mark]
  | index index => simp [text_index, PathStep.mark, Nat.toString_eq_repr, Nat.toList_repr]

/-- A first step that is not empty is followed by the marks of the others, by induction on these
from the last one on.
-/
theorem Position.toList_text_cons {first : PathStep} (nonempty : text [first] ≠ "")
    (rest : Position)
    : (text (first :: rest)).toList = (text [first]).toList ++ rest.flatMap PathStep.mark := by
  induction rest using List.reverseRecOn with
  | nil => simp
  | append_singleton rest step ih =>
      have hne : text (first :: rest) ≠ "" := by
        intro he
        rw [he] at ih
        exact nonempty (String.toList_inj.mp (List.append_eq_nil_iff.mp ih.symm).1)
      rw [← List.cons_append, toList_text_concat hne, ih, List.flatMap_append, List.append_assoc,
        List.flatMap_singleton]

theorem Position.text_singleton (step : PathStep)
    : (text [step]).toList
      = match step with
        | .field name => name.toList
        | .index _ => step.mark := by
  cases step with
  | field name => exact congrArg String.toList (text_field [] name)
  | index index =>
      have h := text_index [] index
      simp only [List.nil_append, text_nil] at h
      simp [h, PathStep.mark, Nat.toString_eq_repr, Nat.toList_repr]

-----------------------------------------------------------------------------------------
-- Positions told apart by their paths
-----------------------------------------------------------------------------------------

/-- A stretch of characters of one sort ends where the first of another sort stands, so it can be
told apart from what follows.
-/
theorem append_inj_of_boundary {sort : Char → Bool} {left right rest more : List Char}
    (hl : ∀ c ∈ left, sort c = true) (hr : ∀ c ∈ right, sort c = true)
    (hrest : ∀ c, rest.head? = some c → sort c = false)
    (hmore : ∀ c, more.head? = some c → sort c = false) (h : left ++ rest = right ++ more)
    : left = right ∧ rest = more := by
  have taken {stretch after : List Char} (inside : ∀ c ∈ stretch, sort c = true)
      (boundary : ∀ c, after.head? = some c → sort c = false)
      : (stretch ++ after).takeWhile sort = stretch := by
    rw [List.takeWhile_append_of_pos inside]
    cases after with
    | nil => simp
    | cons c after => simp [boundary c rfl]
  have same : left = right := by rw [← taken hl hrest, h, taken hr hmore]
  exact ⟨same, List.append_cancel_left (same ▸ h)⟩

/-- Whether a character is one that a plain name may have. -/
def isPlainChar (c : Char) : Bool := c != '.' && c != '[' && c != ']'

theorem PlainName.isPlainChar {name : String} (h : PlainName name)
    : ∀ c ∈ name.toList, isPlainChar c = true := by
  intro c hc
  simpa [TagWire.isPlainChar, and_assoc] using h.2 c hc

/-- Marks start with a dot or a bracket. -/
theorem Position.head?_marks {position : Position} {c : Char}
    (h : (position.flatMap PathStep.mark).head? = some c)
    : c = '.' ∨ c = '[' := by
  cases position with
  | nil => simp at h
  | cons step rest =>
      cases step with
      | field name => exact .inl (Option.some.inj h).symm
      | index place => exact .inr (Option.some.inj h).symm

/-- Positions with plain names are told apart by their marks, by induction on the first. -/
theorem Position.eq_of_marks {left right : Position} (hl : left.Plain) (hr : right.Plain)
    (h : left.flatMap PathStep.mark = right.flatMap PathStep.mark)
    : left = right := by
  have plain {position : Position} {c : Char}
      (hc : (position.flatMap PathStep.mark).head? = some c)
      : isPlainChar c = false := by
    rcases head?_marks hc with rfl | rfl <;> rfl
  induction left generalizing right with
  | nil =>
      cases right with
      | nil => rfl
      | cons step rest => cases step <;> simp [PathStep.mark] at h
  | cons first rest ih =>
      cases right with
      | nil => cases first <;> simp [PathStep.mark] at h
      | cons second more =>
          rw [List.flatMap_cons, List.flatMap_cons] at h
          cases first with
          | field name =>
              cases second with
              | index place => simp [PathStep.mark] at h
              | field other =>
                  have hn := (hl name List.mem_cons_self).isPlainChar
                  have ho := (hr other List.mem_cons_self).isPlainChar
                  obtain ⟨hname, hrest⟩ := append_inj_of_boundary hn ho (fun _ => plain)
                    (fun _ => plain) (List.cons.inj h).2
                  rw [String.toList_inj.mp hname, ih hl.tail hr.tail hrest]
          | index place =>
              cases second with
              | field name => simp [PathStep.mark] at h
              | index other =>
                  have digits (n : Nat) : ∀ c ∈ Nat.toDigits 10 n, c.isDigit = true :=
                    fun c hc => Nat.isDigit_of_mem_toDigits (by decide) (by decide) hc
                  have stop {chars : List Char} : ∀ c,
                      (']' :: chars).head? = some c → c.isDigit = false := by
                    rintro _ ⟨⟩
                    rfl
                  simp only [PathStep.mark, List.cons_append, List.append_assoc,
                    List.cons.injEq, true_and, List.nil_append] at h
                  obtain ⟨hplace, hrest⟩ :=
                    append_inj_of_boundary (digits place) (digits other) stop stop h
                  have same := congrArg (Nat.ofDigitChars 10 · 0) hplace
                  simp only [Nat.ofDigitChars_ten_toDigits] at same
                  rw [same, ih hl.tail hr.tail (List.cons.inj hrest).2]

/-- The marks of all steps of a path, of which the text leaves out a dot at the front. -/
def Position.restored : List Char → List Char
  | [] => []
  | '[' :: rest => '[' :: rest
  | text => '.' :: text

theorem Position.restored_text {position : Position} (h : position.Plain)
    : restored position.text.toList = position.flatMap PathStep.mark := by
  cases position with
  | nil => rfl
  | cons first rest =>
      cases first with
      | index place =>
          have hne : text [.index place] ≠ "" := by
            rw [← String.toList_inj.ne, text_singleton]
            simp [PathStep.mark]
          rw [toList_text_cons hne, text_singleton]
          rfl
      | field name =>
          obtain ⟨nonempty, hchars⟩ := h name List.mem_cons_self
          obtain ⟨c, chars, hname⟩ := List.exists_cons_of_ne_nil (l := name.toList) (by simpa)
          have hc : c ≠ '[' := (hchars c (by simp [hname])).2.1
          have hne : text [.field name] ≠ "" := by
            rwa [← String.toList_inj.ne, text_singleton, String.toList_inj.ne]
          rw [toList_text_cons hne, text_singleton]
          simp [restored, hname, hc, PathStep.mark]

/-- Positions with plain names have paths of their own. -/
theorem Position.eq_of_text {left right : Position} (hl : left.Plain) (hr : right.Plain)
    (h : left.text = right.text)
    : left = right :=
  eq_of_marks hl hr (by rw [← restored_text hl, ← restored_text hr, h])

end TagWire
