import TagWire.AddressBook.Interview
import TagWire.Proofs.Text.Trimming
import TagWire.Proofs.Wire.Scalars

/-!
The lines of an input. A line is a text in UTF-8, perhaps with carriage returns after it, up to a
line break or the end of the input. What an interview hears is the text of the line that comes
next.
-/

namespace TagWire.AddressBook

/-- Bytes without a line break are a text in UTF-8 and carriage returns that are not part of it. -/
structure SpellsLine (line : Bytes) (text : String) : Prop where
  whole : 10 ∉ line
  typed : ∃ returns, line = Scalar.utf8 text ++ List.replicate returns 13
  chomped : text.toList.getLast? ≠ some '\r'

/-- An input starts with a line of text, and after the line comes the rest. In an input that has
ended there is the empty line.
-/
inductive TypedLine : Bytes → String → Bytes → Prop
  | ended {line rest : Bytes} {text : String} (spells : SpellsLine line text)
    : TypedLine (line ++ 10 :: rest) text rest
  | last {line : Bytes} {text : String} (spells : SpellsLine line text) : TypedLine line text []

-----------------------------------------------------------------------------------------
-- Texts in UTF-8
-----------------------------------------------------------------------------------------

theorem utf8_ofList (text : List Char)
    : Scalar.utf8 (String.ofList text) = text.flatMap String.utf8EncodeChar := by
  simp [Scalar.utf8, List.utf8Encode]

theorem utf8_ofList_append (text after : List Char)
    : Scalar.utf8 (String.ofList (text ++ after))
      = Scalar.utf8 (String.ofList text) ++ Scalar.utf8 (String.ofList after) := by
  rw [utf8_ofList, utf8_ofList, utf8_ofList, List.flatMap_append]

/-- Only a line break has the byte of one. -/
theorem newline_mem_utf8EncodeChar {c : Char} : 10 ∈ String.utf8EncodeChar c ↔ c = '\n' := by
  constructor
  · intro h
    have small : c.val.toNat = 10 := by
      unfold String.utf8EncodeChar at h
      simp only at h
      split at h
      · simp only [List.mem_singleton, ← UInt8.toNat_inj, UInt8.toNat_ofNat',
          UInt8.reduceToNat] at h
        omega
      -- Where a character takes more than one byte, the highest bit of each is set.
      all_goals
        repeat' split at h
        all_goals
          simp only [List.mem_cons, List.not_mem_nil, or_false, ← UInt8.toNat_inj,
            UInt8.toNat_ofNat', UInt8.reduceToNat] at h
          omega
    exact Char.toNat_inj.mp small
  · rintro rfl
    decide

theorem newline_mem_utf8 {text : List Char}
    : 10 ∈ Scalar.utf8 (String.ofList text) ↔ '\n' ∈ text := by
  simp [utf8_ofList, newline_mem_utf8EncodeChar]

/-- Where a text ends with the byte of a line break, it ends with a line break. -/
theorem utf8_eq_append_newline_iff {line : Bytes} {whole : List Char}
    : line ++ [10] = Scalar.utf8 (String.ofList whole)
      ↔ ∃ front, whole = front ++ ['\n'] ∧ line = Scalar.utf8 (String.ofList front) := by
  have newline : Scalar.utf8 (String.ofList ['\n']) = [10] := rfl
  constructor
  · intro h
    rcases List.eq_nil_or_concat whole with rfl | ⟨front, c, rfl⟩
    · rw [utf8_ofList, List.flatMap_nil] at h
      exact absurd h (List.append_ne_nil_of_right_ne_nil line (List.cons_ne_nil 10 []))
    · rw [List.concat_eq_append, utf8_ofList_append] at h
      have last : 10 ∈ Scalar.utf8 (String.ofList [c]) := by
        have nonempty : Scalar.utf8 (String.ofList [c]) ≠ [] := by
          rw [utf8_ofList, List.flatMap_singleton]
          exact String.utf8EncodeChar_ne_nil
        have hlast := congrArg List.getLast? h
        rw [List.getLast?_append_of_ne_nil _ nonempty, List.getLast?_concat] at hlast
        exact List.mem_of_mem_getLast? hlast.symm
      obtain rfl : '\n' = c := List.mem_singleton.mp (newline_mem_utf8.mp last)
      rw [newline] at h
      exact ⟨front, List.concat_eq_append, List.append_cancel_right h⟩
  · rintro ⟨front, rfl, rfl⟩
    rw [utf8_ofList_append, newline]

theorem fromUTF8?_eq_some_iff {bytes : Bytes} {text : String}
    : String.fromUTF8? ⟨bytes.toArray⟩ = some text ↔ bytes = Scalar.utf8 text := by
  constructor
  · intro h
    unfold String.fromUTF8? at h
    split at h
    · obtain rfl := Option.some.inj h
      rfl
    · cases h
  · rintro rfl
    exact Scalar.fromUTF8?_utf8 text

-----------------------------------------------------------------------------------------
-- Texts of lines
-----------------------------------------------------------------------------------------

/-- A line is heard exactly if it is in UTF-8, and the text that is heard is chomped. -/
theorem lineText_eq_ok_iff {line : Bytes} {text : String}
    : Interview.lineText line = .ok text
      ↔ ∃ whole : List Char,
        line = Scalar.utf8 (String.ofList whole) ∧ chomp whole = text.toList := by
  rw [Interview.lineText]
  constructor
  · intro h
    split at h
    · next whole hread =>
        obtain rfl := Except.ok.inj h
        refine ⟨whole.toList, ?_, String.toList_ofList.symm⟩
        rw [String.ofList_toList, fromUTF8?_eq_some_iff.mp hread]
    · cases h
  · rintro ⟨whole, rfl, chomped⟩
    simp only [Scalar.fromUTF8?_utf8, String.toList_ofList, chomped, String.ofList_toList]

/-- A line break at the end of a line is not heard. -/
theorem lineText_append_newline {line : Bytes} {text : String}
    : Interview.lineText (line ++ [10]) = .ok text ↔ Interview.lineText line = .ok text := by
  have chomp_append (front : List Char) : chomp (front ++ ['\n']) = chomp front :=
    dropEnd_append (by simp)
  rw [lineText_eq_ok_iff, lineText_eq_ok_iff]
  constructor
  · rintro ⟨whole, hwhole, chomped⟩
    obtain ⟨front, rfl, rfl⟩ := utf8_eq_append_newline_iff.mp hwhole
    exact ⟨front, rfl, chomp_append front ▸ chomped⟩
  · rintro ⟨front, hfront, chomped⟩
    exact ⟨front ++ ['\n'], utf8_eq_append_newline_iff.mpr ⟨front, rfl, hfront⟩,
      (chomp_append front).trans chomped⟩

/-- A line without a break is heard as what it spells. -/
theorem lineText_eq_ok_iff_spells {line : Bytes} {text : String} (whole : 10 ∉ line)
    : Interview.lineText line = .ok text ↔ SpellsLine line text := by
  have returns (n : Nat)
      : Scalar.utf8 (String.ofList (List.replicate n '\r')) = List.replicate n 13 := by
    rw [utf8_ofList, List.flatMap_replicate]
    exact List.flatten_replicate_singleton
  rw [lineText_eq_ok_iff]
  constructor
  · rintro ⟨chars, rfl, chomped⟩
    obtain ⟨⟨after, rfl, dropped⟩, last⟩ := dropEnd_eq_iff.mp chomped
    refine ⟨whole, ⟨after.length, ?_⟩, fun h => by simpa using last _ h⟩
    have allReturns : after = List.replicate after.length '\r' := by
      refine List.eq_replicate_of_mem (fun c hc => ?_)
      have unbroken : c ≠ '\n' := by
        rintro rfl
        exact whole (newline_mem_utf8.mpr (List.mem_append_right _ hc))
      simpa [unbroken] using dropped c hc
    rw [utf8_ofList_append, String.ofList_toList, ← returns, ← allReturns]
  · rintro ⟨_, ⟨n, rfl⟩, chomped⟩
    refine ⟨text.toList ++ List.replicate n '\r', ?_, dropEnd_eq_iff.mpr ⟨⟨_, rfl, ?_⟩, ?_⟩⟩
    · rw [utf8_ofList_append, String.ofList_toList, returns]
    · intro c hc
      rw [List.eq_of_mem_replicate hc]
      rfl
    · intro c hc
      have unreturned : c ≠ '\r' := by
        rintro rfl
        exact chomped hc
      have unbroken : c ≠ '\n' := by
        rintro rfl
        have typed := newline_mem_utf8.mpr (List.mem_of_mem_getLast? hc)
        rw [String.ofList_toList] at typed
        exact whole (List.mem_append_left _ typed)
      simp [unreturned, unbroken]

-----------------------------------------------------------------------------------------
-- Lines of inputs
-----------------------------------------------------------------------------------------

theorem nextLine_ended {line : Bytes} (whole : 10 ∉ line) (rest : Bytes)
    : nextLine (line ++ 10 :: rest) = (line ++ [10], rest) := by
  induction line with
  | nil => rfl
  | cons byte line ih =>
      obtain ⟨other, others⟩ := not_or.mp (List.mem_cons.not.mp whole)
      rw [List.cons_append, nextLine, if_neg (Ne.symm other), ih others]
      rfl

theorem nextLine_last {line : Bytes} (whole : 10 ∉ line) : nextLine line = (line, []) := by
  induction line with
  | nil => rfl
  | cons byte line ih =>
      obtain ⟨other, others⟩ := not_or.mp (List.mem_cons.not.mp whole)
      rw [nextLine, if_neg (Ne.symm other), ih others]

theorem length_nextLine_lt {input : Bytes} (nonempty : input ≠ [])
    : (nextLine input).2.length < input.length := by
  induction input with
  | nil => exact absurd rfl nonempty
  | cons byte rest ih =>
      rw [nextLine]
      split
      · exact Nat.lt_succ_self _
      · cases rest with
        | nil => exact Nat.zero_lt_one
        | cons => exact Nat.lt_succ_of_lt (ih (List.cons_ne_nil _ _))

theorem lineText_nil : Interview.lineText [] = .ok "" := by
  rfl

/-- The next line of an input is heard as what it spells. -/
theorem typedLine_iff {input rest : Bytes} {text : String}
    : TypedLine input text rest
      ↔ Interview.lineText (nextLine input).1 = .ok text ∧ (nextLine input).2 = rest := by
  constructor
  · intro line
    cases line with
    | ended spells =>
        rw [nextLine_ended spells.whole, lineText_append_newline]
        exact ⟨(lineText_eq_ok_iff_spells spells.whole).mpr spells, rfl⟩
    | last spells =>
        rw [nextLine_last spells.whole]
        exact ⟨(lineText_eq_ok_iff_spells spells.whole).mpr spells, rfl⟩
  · by_cases broken : 10 ∈ input
    · obtain ⟨line, after, rfl, whole⟩ := List.eq_append_cons_of_mem broken
      rw [nextLine_ended whole, lineText_append_newline]
      rintro ⟨heard, rfl⟩
      exact .ended ((lineText_eq_ok_iff_spells whole).mp heard)
    · rw [nextLine_last broken]
      rintro ⟨heard, rfl⟩
      exact .last ((lineText_eq_ok_iff_spells broken).mp heard)

theorem typedLine_next {input : Bytes} {text : String}
    (heard : Interview.lineText (nextLine input).1 = .ok text)
    : TypedLine input text (nextLine input).2 :=
  typedLine_iff.mpr ⟨heard, rfl⟩

namespace TypedLine

variable {input rest : Bytes} {text : String}

theorem length_lt (h : TypedLine input text rest) (nonempty : input ≠ [])
    : rest.length < input.length := by
  rw [← (typedLine_iff.mp h).2]
  exact length_nextLine_lt nonempty

theorem length_le (h : TypedLine input text rest) : rest.length ≤ input.length := by
  by_cases nonempty : input = []
  · subst nonempty
    exact Nat.le_of_eq (congrArg List.length (typedLine_iff.mp h).2).symm
  · exact Nat.le_of_lt (h.length_lt nonempty)

/-- An input that has ended is an empty line. -/
theorem text_eq_empty (h : TypedLine [] text rest) : text = "" :=
  Except.ok.inj ((typedLine_iff.mp h).1.symm.trans lineText_nil)

end TypedLine

end TagWire.AddressBook
