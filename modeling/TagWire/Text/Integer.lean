/-!
Reading a signed decimal number: a sign or none, and at least one ASCII digit.
-/

namespace TagWire

/-- The number that a row of digits spells; none if there is no digit, or anything else. -/
def digits? (text : List Char) : Option Nat :=
  if text.isEmpty || text.any (fun c => !c.isDigit) then none
  else some (text.foldl (fun n c => 10 * n + (c.toNat - '0'.toNat)) 0)

/-- The number that a text spells, with or without a sign. -/
def integer? : List Char → Option Int
  | '-' :: digits => (digits? digits).map (fun n : Nat => -(n : Int))
  | '+' :: digits => (digits? digits).map (fun n : Nat => (n : Int))
  | digits => (digits? digits).map (fun n : Nat => (n : Int))

/-- The 32-bit number that a text spells; none if it is too large or too small. -/
def int32? (text : List Char) : Option Int32 :=
  match integer? text with
  | some n =>
      if Int32.minValue.toInt ≤ n ∧ n ≤ Int32.maxValue.toInt then some (Int32.ofInt n) else none
  | none => none

end TagWire
