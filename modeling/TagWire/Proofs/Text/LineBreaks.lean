import Mathlib.Data.List.Basic
import TagWire.Record.Listing

/-!
Texts that stay on one line. Numbers are written in digits, and strings and bytes are quoted, so
whatever a scalar holds, its text has no line break in it.
-/

namespace TagWire

/-- A text has no line break in it. -/
def Unbroken (text : String) : Prop := '\n' ∉ text.toList

instance (text : String) : Decidable (Unbroken text) := inferInstanceAs (Decidable (¬ _))

-----------------------------------------------------------------------------------------
-- Texts put together
-----------------------------------------------------------------------------------------

theorem Unbroken.append {left right : String} (hl : Unbroken left) (hr : Unbroken right)
    : Unbroken (left ++ right) := by
  rw [Unbroken, String.toList_append, List.mem_append, not_or]
  exact ⟨hl, hr⟩

theorem unbroken_ofList {chars : List Char}
    : Unbroken (String.ofList chars) ↔ '\n' ∉ chars := by
  simp [Unbroken]

theorem unbroken_join {texts : List String} (h : ∀ text ∈ texts, Unbroken text)
    : Unbroken (String.join texts) := by
  simpa [Unbroken, String.toList_join] using h

/-- Lines without breaks, each of them ended by one, are told apart again. -/
theorem splitOn_flatMap_newline {lines : List (List Char)} (h : ∀ line ∈ lines, '\n' ∉ line)
    : (lines.flatMap (· ++ ['\n'])).splitOn '\n' = lines ++ [[]] := by
  induction lines with
  | nil => rfl
  | cons line rest ih =>
      have own : ∀ c ∈ line, (c == '\n') = false := by
        intro c hc
        refine beq_eq_false_iff_ne.mpr ?_
        rintro rfl
        exact h line (by simp) hc
      have others := ih (fun other ho => h other (by simp [ho]))
      rw [List.flatMap_cons, List.append_assoc, List.singleton_append]
      rw [List.splitOn] at others ⊢
      rw [List.splitOnP_append_cons_of_forall_mem own _ (by simp), others]
      rfl

-----------------------------------------------------------------------------------------
-- Numbers
-----------------------------------------------------------------------------------------

theorem digitChar_ne_newline (n : Nat) : Nat.digitChar n ≠ '\n' := by
  have digits : ∀ n < 16, Nat.digitChar n ≠ '\n' := by decide
  by_cases hn : n < 16
  · exact digits n hn
  · have other : Nat.digitChar n = '*' := by
      unfold Nat.digitChar
      repeat rw [if_neg (by omega)]
    rw [other]
    decide

/-- Digits are no line breaks, by induction on the number without its last digit. -/
theorem newline_notMem_toDigits {base : Nat} (hb : 1 < base) (n : Nat)
    : '\n' ∉ Nat.toDigits base n := by
  induction n using Nat.strongRecOn with
  | ind n ih =>
      rw [Nat.toDigits_eq_if hb]
      split
      · exact fun h => digitChar_ne_newline n (List.mem_singleton.mp h).symm
      · next hn =>
          have smaller : n / base < n := Nat.div_lt_self (by omega) hb
          rw [List.mem_append, List.mem_singleton, not_or]
          exact ⟨ih _ smaller, (digitChar_ne_newline _).symm⟩

@[simp] theorem unbroken_repr_nat (n : Nat) : Unbroken n.repr := by
  rw [Unbroken, Nat.toList_repr]
  exact newline_notMem_toDigits (by decide) n

@[simp] theorem unbroken_repr_int (n : Int) : Unbroken n.repr := by
  cases n with
  | ofNat n => exact unbroken_repr_nat n
  | negSucc n => exact .append (by decide) (unbroken_repr_nat (n + 1))

theorem Decimal.unbroken_text (decimal : Decimal) : Unbroken decimal.text := by
  have digits := newline_notMem_toDigits (by decide : 1 < 10) decimal.digits
  have zeros (count : Nat) : '\n' ∉ List.replicate count '0' := by simp
  rw [text]
  split
  · next count _ =>
      rw [unbroken_ofList, List.mem_append, not_or]
      exact ⟨digits, zeros count⟩
  · next places _ =>
      have padded (count : Nat)
          : '\n' ∉ List.replicate count '0' ++ Nat.toDigits 10 decimal.digits := by
        rw [List.mem_append, not_or]
        exact ⟨zeros count, digits⟩
      simp only [unbroken_ofList, List.mem_append, List.mem_cons, not_or]
      exact ⟨fun h => padded _ (List.mem_of_mem_take h), by decide,
        fun h => padded _ (List.mem_of_mem_drop h)⟩

theorem FloatFormat.unbroken_text (format : FloatFormat) (bits : Nat)
    : Unbroken (format.text bits) := by
  have sign (negative : Bool) : Unbroken (if negative then "-" else "") := by
    cases negative <;> decide
  rw [text]
  split
  · decide
  · exact (sign _).append (by decide)
  · refine (sign _).append ?_
    split
    · decide
    · exact Decimal.unbroken_text _

-----------------------------------------------------------------------------------------
-- Quotations
-----------------------------------------------------------------------------------------

namespace Quoted

theorem unbroken_escape (c : Char) : Unbroken (escape c) := by
  rw [escape]
  split_ifs with _ _ _ newline
  all_goals try decide
  · have digits : Unbroken (Hex.number c.toNat) :=
      unbroken_ofList.mpr (newline_notMem_toDigits (by decide) _)
    exact .append (.append (by decide) digits) (by decide)
  · simpa [Unbroken] using Ne.symm newline

theorem unbroken_text (s : String) : Unbroken (text s) := by
  have inside : Unbroken (String.join (s.toList.map escape)) :=
    unbroken_join (by simpa using fun c _ => unbroken_escape c)
  exact .append (.append (by decide) inside) (by decide)

theorem unbroken_escapeByte (b : UInt8) : Unbroken (escapeByte b) := by
  simp only [escapeByte]
  split_ifs with _ _ newline
  all_goals try decide
  · simpa [Unbroken] using Ne.symm newline
  · have digits : Unbroken (Hex.byte b) := by
      rw [Hex.byte, unbroken_ofList]
      simp [(digitChar_ne_newline _).symm]
    exact .append (by decide) digits

theorem unbroken_bytes (content : Bytes) : Unbroken (bytes content) := by
  have inside : Unbroken (String.join (content.map escapeByte)) :=
    unbroken_join (by simpa using fun b _ => unbroken_escapeByte b)
  exact .append (.append (by decide) inside) (by decide)

end Quoted

-----------------------------------------------------------------------------------------
-- Lines of a listing
-----------------------------------------------------------------------------------------

/-- The names that a kind's enumeration gives to its numbers, if the kind is of one. -/
def Schema.valueNames (schema : Schema) : Kind → List String
  | .enum type => ((schema.enum? type).map (fun type => type.values.map Prod.fst)).getD []
  | _ => []

theorem Schema.mem_valueNames {schema : Schema} {type name : String} {number : Int32}
    (h : (schema.enum? type).bind (fun type => type.nameOf? number) = some name)
    : name ∈ schema.valueNames (.enum type) := by
  obtain ⟨enum, he, hn⟩ := Option.bind_eq_some_iff.mp h
  obtain ⟨value, hv, rfl⟩ := Option.map_eq_some_iff.mp hn
  rw [valueNames, he]
  exact List.mem_map_of_mem (List.mem_of_find?_eq_some hv)

/-- A name that a kind gives to a number is one of a value of an enumeration of the schema. -/
theorem Schema.exists_of_mem_valueNames {schema : Schema} {kind : Kind} {name : String}
    (h : name ∈ schema.valueNames kind)
    : ∃ enum ∈ schema.enums, ∃ value ∈ enum.values, value.1 = name := by
  cases kind with
  | enum type =>
      cases he : schema.enum? type with
      | none => simp [valueNames, he] at h
      | some enum =>
          rw [valueNames, he] at h
          exact ⟨enum, List.mem_of_find?_eq_some he, List.mem_map.mp h⟩
  | _ => simp [valueNames] at h

/-- A scalar is on one line if the names are that its number may be written by. -/
theorem Scalar.unbroken_text {schema : Schema} {kind : Kind} (value : Scalar)
    (names : ∀ name ∈ schema.valueNames kind, Unbroken name)
    : Unbroken (value.text schema kind) := by
  cases value with
  | bool b => cases b <;> simp only [text] <;> decide
  | enum number =>
      cases kind with
      | enum type =>
          simp only [text]
          cases hname : (schema.enum? type).bind (fun type => type.nameOf? number) with
          | none => exact unbroken_repr_int _
          | some name => exact names name (Schema.mem_valueNames hname)
      | _ => exact unbroken_repr_int _
  | float bits => exact FloatFormat.unbroken_text _ _
  | double bits => exact FloatFormat.unbroken_text _ _
  | string text => exact Quoted.unbroken_text text
  | bytes content => exact Quoted.unbroken_bytes content
  | _ => simp [text]

theorem WireKind.unbroken_name (kind : WireKind) : Unbroken kind.name := by
  cases kind <;> decide

theorem RawUnit.unbroken_line (unit : RawUnit) (depth : Nat)
    : Unbroken (unit.line depth).text := by
  have wire : Unbroken (toString unit.wire.name) := unit.wire.unbroken_name
  have tag : Unbroken (toString unit.tag) := unbroken_repr_nat _
  have size : Unbroken (toString unit.bytes.length) := unbroken_repr_nat _
  have kind := (tag.append (by decide : Unbroken ": <unknown ")).append wire
  exact ((kind.append (by decide : Unbroken ", ")).append size).append (by decide)

/-- A line is written as its indentation, its text and the break that ends it. -/
theorem Line.toList_render (line : Line)
    : line.render.toList
      = List.replicate (2 * line.depth) ' ' ++ line.text.toList ++ ['\n'] := by
  have indentation (depth : Nat)
      : (List.replicate depth "  ").flatMap String.toList = List.replicate (2 * depth) ' ' := by
    induction depth with
    | zero => rfl
    | succ depth ih =>
        rw [List.replicate_succ, List.flatMap_cons, ih, Nat.mul_succ, Nat.add_comm,
          List.replicate_add]
        rfl
  rw [render, String.toList_append, String.toList_append, String.toList_join, indentation]
  rfl

end TagWire
