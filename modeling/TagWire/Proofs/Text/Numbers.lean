import Mathlib.Data.Nat.Digits.Defs
import TagWire.Proofs.Text.Trimming
import TagWire.Text.Integer

/-!
Numbers in texts. A text spells a number by decimal digits, with a sign or without one, and white
space around them does not count. What is read of a text is the number that it spells.
-/

namespace TagWire

/-- A row of digits as characters. -/
def digitText (digits : List (Fin 10)) : List Char :=
  digits.map (fun digit : Fin 10 => Nat.digitChar digit.val)

/-- The number with a row of decimal digits, the last of which counts ones. -/
def digitValue (digits : List (Fin 10)) : Nat := Nat.ofDigits 10 (digits.reverse.map Fin.val)

/-- A text is a number in digits, with a sign or without one. -/
inductive SpellsInteger : List Char → Int → Prop
  | bare {digits : List (Fin 10)} (nonempty : digits ≠ [])
    : SpellsInteger (digitText digits) (digitValue digits)
  | plus {digits : List (Fin 10)} (nonempty : digits ≠ [])
    : SpellsInteger ('+' :: digitText digits) (digitValue digits)
  | minus {digits : List (Fin 10)} (nonempty : digits ≠ [])
    : SpellsInteger ('-' :: digitText digits) (-digitValue digits)

/-- A text is a number in digits, perhaps with white space around it. -/
inductive SpellsNumber : String → Int → Prop
  | amid {before number after : List Char} {n : Int} (hb : ∀ c ∈ before, c ∈ whiteSpace)
    (spells : SpellsInteger number n) (ha : ∀ c ∈ after, c ∈ whiteSpace)
    : SpellsNumber (String.ofList (before ++ (number ++ after))) n

-----------------------------------------------------------------------------------------
-- Digits
-----------------------------------------------------------------------------------------

/-- A digit is no sign, and no white space. -/
theorem digitChar_spec (digit : Fin 10)
    : Nat.digitChar digit ≠ '-' ∧ Nat.digitChar digit ≠ '+' ∧ Nat.digitChar digit ∉ whiteSpace := by
  decide +revert

theorem isDigit_digitChar (digit : Fin 10) : (Nat.digitChar digit).isDigit = true := by
  simp [Nat.isDigit_digitChar]

theorem exists_digit {c : Char} (h : c.isDigit = true)
    : ∃ digit : Fin 10, c = Nat.digitChar digit := by
  have range : 48 ≤ c.toNat ∧ c.toNat ≤ 57 := by
    simpa [Char.isDigit, UInt32.le_iff_toNat_le] using h
  refine ⟨⟨c.toNat - 48, by omega⟩, Char.toNat_inj.mp ?_⟩
  rw [Nat.toNat_digitChar_of_lt_ten (by dsimp only; omega)]
  dsimp only
  omega

theorem exists_digitText {text : List Char} (h : ∀ c ∈ text, c.isDigit = true)
    : ∃ digits, text = digitText digits := by
  induction text with
  | nil => exact ⟨[], rfl⟩
  | cons c rest ih =>
      obtain ⟨first, others⟩ := List.forall_mem_cons.mp h
      obtain ⟨digit, rfl⟩ := exists_digit first
      obtain ⟨digits, rfl⟩ := ih others
      exact ⟨digit :: digits, rfl⟩

/-- Reading digits from the first on shifts what was read by a place for each, by induction on
them.
-/
theorem foldl_digitText (digits : List (Fin 10)) (read : Nat)
    : (digitText digits).foldl (fun n c => 10 * n + (c.toNat - '0'.toNat)) read
      = 10 ^ digits.length * read + digitValue digits := by
  induction digits generalizing read with
  | nil => simp [digitText, digitValue]
  | cons digit rest ih =>
      have place : (Nat.digitChar digit).toNat - '0'.toNat = digit := by
        rw [Nat.toNat_digitChar_of_lt_ten digit.isLt]
        simp
      have value : digitValue (digit :: rest) = digitValue rest + 10 ^ rest.length * digit := by
        simp [digitValue, Nat.ofDigits_append]
      rw [digitText, List.map_cons, List.foldl_cons, ← digitText, ih, place, value,
        List.length_cons, Nat.pow_succ]
      ring

theorem digits?_digitText {digits : List (Fin 10)} (nonempty : digits ≠ [])
    : digits? (digitText digits) = some (digitValue digits) := by
  have allDigits : (digitText digits).any (fun c => !c.isDigit) = false := by
    refine List.any_eq_false.mpr (fun c hc => ?_)
    obtain ⟨digit, _, rfl⟩ := List.mem_map.mp hc
    rw [isDigit_digitChar, Bool.not_true, Bool.not_eq_true]
  have told : (digitText digits).isEmpty = false := by simpa [digitText] using nonempty
  rw [digits?, told, allDigits, foldl_digitText, Nat.mul_zero, Nat.zero_add]
  rfl

/-- What is read of a text without a sign is its value in digits. -/
theorem digits?_eq_some_iff {text : List Char} {n : Nat}
    : digits? text = some n
      ↔ ∃ digits, digits ≠ [] ∧ text = digitText digits ∧ n = digitValue digits := by
  constructor
  · intro h
    have read := h
    rw [digits?] at read
    split at read
    · cases read
    · next rows =>
        simp only [Bool.or_eq_true, not_or, Bool.not_eq_true, List.any_eq_false,
          Bool.not_eq_true', Bool.not_eq_false] at rows
        obtain ⟨digits, rfl⟩ := exists_digitText rows.2
        have nonempty : digits ≠ [] := by simpa [digitText] using rows.1
        exact ⟨digits, nonempty, rfl, Option.some.inj (h.symm.trans (digits?_digitText nonempty))⟩
  · rintro ⟨digits, nonempty, rfl, rfl⟩
    exact digits?_digitText nonempty

-----------------------------------------------------------------------------------------
-- Signed numbers
-----------------------------------------------------------------------------------------

/-- A text without a sign is read as digits. -/
theorem integer?_eq_digits? {text : List Char} (bare : ∀ c ∈ text.head?, c ≠ '-' ∧ c ≠ '+')
    : integer? text = (digits? text).map (fun n : Nat => (n : Int)) := by
  unfold integer?
  split
  · exact absurd rfl (bare '-' rfl).1
  · exact absurd rfl (bare '+' rfl).2
  · rfl

/-- What is read of a text is the number that it spells. -/
theorem integer?_eq_some_iff {text : List Char} {n : Int}
    : integer? text = some n ↔ SpellsInteger text n := by
  constructor
  · intro h
    unfold integer? at h
    split at h
    all_goals
      obtain ⟨read, hread, rfl⟩ := Option.map_eq_some_iff.mp h
      obtain ⟨digits, nonempty, rfl, rfl⟩ := digits?_eq_some_iff.mp hread
    · exact .minus nonempty
    · exact .plus nonempty
    · exact .bare nonempty
  · intro spells
    cases spells with
    | bare nonempty =>
        rw [integer?_eq_digits?, digits?_digitText nonempty]
        · rfl
        · intro c hc
          obtain ⟨digit, _, rfl⟩ := List.mem_map.mp (List.mem_of_mem_head? hc)
          exact ⟨(digitChar_spec digit).1, (digitChar_spec digit).2.1⟩
    | plus nonempty | minus nonempty =>
        simp only [integer?, digits?_digitText nonempty, Option.map_some]

/-- A text is read as a word of 32 bits exactly if the number that it spells is one. -/
theorem int32?_eq_some_iff {text : List Char} {n : Int32}
    : int32? text = some n ↔ SpellsInteger text n.toInt := by
  rw [← integer?_eq_some_iff, int32?]
  constructor
  · intro h
    split at h
    · next read hread =>
        split at h
        · next fits =>
            obtain rfl := Option.some.inj h
            rw [hread, Int32.toInt_ofInt_of_le fits.1 (Int.lt_add_one_of_le fits.2)]
        · cases h
    · cases h
  · intro h
    simp only [h]
    rw [if_pos ⟨Int32.minValue_le_toInt n, Int32.toInt_le n⟩, Int32.ofInt_toInt]

/-- A number has no white space in it. -/
theorem SpellsInteger.solid {text : List Char} {n : Int} (h : SpellsInteger text n)
    : ∀ c ∈ text, c ∉ whiteSpace := by
  have digit {digits : List (Fin 10)} : ∀ c ∈ digitText digits, c ∉ whiteSpace := by
    intro c hc
    obtain ⟨digit, _, rfl⟩ := List.mem_map.mp hc
    exact (digitChar_spec digit).2.2
  cases h with
  | bare => exact digit
  | plus | minus => exact List.forall_mem_cons.mpr ⟨by decide, digit⟩

/-- A text is read as a word of 32 bits exactly if it spells one, white space around it apart. -/
theorem int32?_trimBlank {text : String} {n : Int32}
    : int32? (trimBlank text.toList) = some n ↔ SpellsNumber text n.toInt := by
  rw [int32?_eq_some_iff]
  constructor
  · intro h
    obtain ⟨before, after, split, hb, ha⟩ := exists_trimBlank text.toList
    have amid := SpellsNumber.amid hb h ha
    rwa [← split, String.ofList_toList] at amid
  · rintro ⟨hb, spells, ha⟩
    rwa [String.toList_ofList, trimBlank_amid hb ha spells.solid]

end TagWire
