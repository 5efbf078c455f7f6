import Mathlib.Data.List.DropRight
import TagWire.Text.Blank

/-!
Texts without what is at their ends. What is kept is told apart from what is dropped by the
characters alone, and white space is a list of characters.
-/

namespace TagWire

/-- The characters that are white space. -/
def whiteSpace : List Char :=
  ['\t', '\n', '\x0b', '\x0c', '\r', ' ', '\u0085', '\u00a0', '\u1680', '\u2000', '\u2001',
    '\u2002', '\u2003', '\u2004', '\u2005', '\u2006', '\u2007', '\u2008', '\u2009', '\u200a',
    '\u2028', '\u2029', '\u202f', '\u205f', '\u3000']

theorem isBlank_iff (c : Char) : isBlank c = true ↔ c ∈ whiteSpace := by
  simp only [whiteSpace, List.mem_cons, List.not_mem_nil, or_false, ← Char.toNat_inj]
  simp only [isBlank, Bool.or_eq_true, Bool.and_eq_true, decide_eq_true_eq, beq_iff_eq]
  simp only [Char.reduceToNat]
  omega

section Ends

variable {drop : Char → Bool} {text kept after : List Char}

theorem dropEnd_append (h : ∀ c ∈ after, drop c = true)
    : dropEnd drop (text ++ after) = dropEnd drop text := by
  have reversed : ∀ c ∈ after.reverse, drop c = true := fun c hc => h c (List.mem_reverse.mp hc)
  rw [dropEnd, List.reverse_append, List.dropWhile_append_of_pos reversed, dropEnd]

theorem dropEnd_eq_self (h : ∀ c ∈ text.getLast?, drop c = false) : dropEnd drop text = text := by
  refine List.rdropWhile_eq_self_iff.mpr (fun nonempty => ?_)
  simpa using h _ (List.getLast?_eq_some_getLast nonempty)

/-- What is dropped at the end of a text is all of one class, and what is kept ends otherwise. -/
theorem dropEnd_eq_iff
    : dropEnd drop text = kept
      ↔ (∃ after, text = kept ++ after ∧ ∀ c ∈ after, drop c = true)
        ∧ ∀ c ∈ kept.getLast?, drop c = false := by
  constructor
  · rintro rfl
    refine ⟨⟨text.rtakeWhile drop, List.rdropWhile_append_rtakeWhile.symm,
      fun c hc => List.mem_rtakeWhile_imp hc⟩, fun c hc => ?_⟩
    obtain ⟨nonempty, rfl⟩ := List.mem_getLast?_eq_getLast hc
    exact Bool.eq_false_iff.mpr (List.rdropWhile_last_not drop text nonempty)
  · rintro ⟨⟨after, rfl, dropped⟩, last⟩
    rw [dropEnd_append dropped, dropEnd_eq_self last]

end Ends

section Blanks

variable {before text after : List Char}

theorem isBlank_eq_false {c : Char} (h : c ∉ whiteSpace) : isBlank c = false :=
  Bool.eq_false_iff.mpr (fun blank => h ((isBlank_iff c).mp blank))

/-- White space around a text that has none is trimmed. -/
theorem trimBlank_amid (hb : ∀ c ∈ before, c ∈ whiteSpace) (ha : ∀ c ∈ after, c ∈ whiteSpace)
    (ht : ∀ c ∈ text, c ∉ whiteSpace)
    : trimBlank (before ++ (text ++ after)) = text := by
  have blankBefore : ∀ c ∈ before, isBlank c = true := fun c hc => (isBlank_iff c).mpr (hb c hc)
  have blankAfter : ∀ c ∈ after, isBlank c = true := fun c hc => (isBlank_iff c).mpr (ha c hc)
  rw [trimBlank, List.dropWhile_append_of_pos blankBefore]
  cases text with
  | nil =>
      rw [List.nil_append, List.dropWhile_eq_nil_iff.mpr blankAfter]
      rfl
  | cons c rest =>
      have solid : isBlank c = false := isBlank_eq_false (ht c List.mem_cons_self)
      rw [List.cons_append, List.dropWhile_cons_of_neg (by simp [solid]), ← List.cons_append,
        dropEnd_append blankAfter]
      exact dropEnd_eq_self (fun c hc => isBlank_eq_false (ht c (List.mem_of_mem_getLast? hc)))

theorem exists_trimBlank (text : List Char)
    : ∃ before after,
        text = before ++ (trimBlank text ++ after)
        ∧ (∀ c ∈ before, c ∈ whiteSpace)
        ∧ ∀ c ∈ after, c ∈ whiteSpace := by
  obtain ⟨⟨after, split, blank⟩, _⟩ := dropEnd_eq_iff.mp (rfl : trimBlank text = trimBlank text)
  refine ⟨text.takeWhile isBlank, after, ?_, fun c hc => ?_, fun c hc => ?_⟩
  · rw [← split, List.takeWhile_append_dropWhile]
  · exact (isBlank_iff c).mp (List.mem_takeWhile_imp hc)
  · exact (isBlank_iff c).mp (blank c hc)

end Blanks

end TagWire
