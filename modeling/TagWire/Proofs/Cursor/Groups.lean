import TagWire.Proofs.Cursor.TokenReads

/-!
Reading the groups of a number, in full: what it gives or fails with, and where it leaves the
cursor. Bytes go on as long as they have the high bit; then one ends the number, or is too wide for
the last place, or there are no more bytes.
-/

namespace TagWire

namespace Varint

/-- Bytes that each announce another one. -/
def AllHigh (bytes : Bytes) : Prop := ∀ byte ∈ bytes, 128 ≤ byte

theorem allHigh_nil : AllHigh [] := fun _ h => absurd h List.not_mem_nil

theorem allHigh_cons {byte : UInt8} {rest : Bytes}
    : AllHigh (byte :: rest) ↔ 128 ≤ byte ∧ AllHigh rest :=
  List.forall_mem_cons

/-- If a number ends only where bytes are missing, each of the bytes before announces another one;
by induction on them.
-/
theorem allHigh_of_cut? {front missing : Bytes} (hne : missing ≠ [])
    (alone : cut? (front ++ missing) = some (front ++ missing, []))
    : AllHigh front := by
  induction front with
  | nil => exact allHigh_nil
  | cons byte rest ih =>
      rw [List.cons_append] at alone
      have hhigh : ¬ byte < 128 := by
        intro hlow
        rw [cut?, if_pos hlow] at alone
        simp [hne] at alone
      have hrest : cut? (rest ++ missing) = some (rest ++ missing, []) := by
        simpa [cut?, hhigh, Prod.ext_iff] using alone
      exact allHigh_cons.mpr ⟨UInt8.not_lt.mp hhigh, ih hrest⟩

/-- How the bytes begin that at most `room + 1` groups are read from. -/
inductive Opens (room : Nat) : Bytes → Prop
  | ends {front : Bytes} {last : UInt8} {more : Bytes} (high : AllHigh front) (low : last < 128)
    (length : front.length ≤ room) (narrow : front.length = room → last ≤ 1)
    : Opens room (front ++ last :: more)
  | wide {front : Bytes} {last : UInt8} {more : Bytes} (high : AllHigh front)
    (length : front.length = room) (wide : 1 < last)
    : Opens room (front ++ last :: more)
  | stops {bytes : Bytes} (high : AllHigh bytes) (length : bytes.length ≤ room) : Opens room bytes

theorem Opens.singleton (room : Nat) (byte : UInt8) (rest : Bytes)
    (h : byte < 128 ∧ (room = 0 → byte ≤ 1) ∨ room = 0 ∧ 1 < byte)
    : Opens room (byte :: rest) := by
  rcases h with ⟨low, narrow⟩ | ⟨rfl, large⟩
  · exact @ends room [] byte rest allHigh_nil low (Nat.zero_le room) (fun h => narrow h.symm)
  · exact @wide 0 [] byte rest allHigh_nil rfl large

theorem Opens.cons {room : Nat} {byte : UInt8} {rest : Bytes} (hhigh : 128 ≤ byte)
    (h : Opens room rest)
    : Opens (room + 1) (byte :: rest) := by
  cases h with
  | @ends front last more high low length narrow =>
      have front_high : AllHigh (byte :: front) := allHigh_cons.mpr ⟨hhigh, high⟩
      exact .ends front_high low (Nat.succ_le_succ length) (fun h => narrow (Nat.succ.inj h))
  | @wide front last more high length wide =>
      have front_high : AllHigh (byte :: front) := allHigh_cons.mpr ⟨hhigh, high⟩
      exact .wide front_high (congrArg Nat.succ length) wide
  | stops high length =>
      exact .stops (allHigh_cons.mpr ⟨hhigh, high⟩) (Nat.succ_le_succ length)

/-- Bytes begin in one of the three ways, by induction on the bytes. -/
theorem opens (room : Nat) (bytes : Bytes) : Opens room bytes := by
  induction bytes generalizing room with
  | nil => exact .stops allHigh_nil (Nat.zero_le room)
  | cons byte rest ih =>
      cases room with
      | zero =>
          apply Opens.singleton
          by_cases wide : 1 < byte
          · exact .inr ⟨rfl, wide⟩
          · have narrow : byte ≤ 1 := UInt8.not_lt.mp wide
            exact .inl ⟨UInt8.lt_of_le_of_lt narrow (by decide), fun _ => narrow⟩
      | succ room =>
          by_cases low : byte < 128
          · exact .singleton _ _ _ (.inl ⟨low, fun h => absurd h (Nat.succ_ne_zero room)⟩)
          · exact .cons (UInt8.not_lt.mp low) (ih room)

/-- A number that ends within its room is no wider than that, by induction on the bytes before the
last.
-/
theorem within_of_ends {room : Nat} {front : Bytes} {last : UInt8} (high : AllHigh front)
    (low : last < 128) (length : front.length ≤ room) (narrow : front.length = room → last ≤ 1)
    : Within (room + 1) (front ++ [last]) := by
  induction front generalizing room with
  | nil =>
      apply (within_singleton low).mpr
      rintro ⟨rfl, wide⟩
      exact UInt8.not_lt.mpr (narrow rfl) wide
  | cons byte front ih =>
      obtain ⟨hhigh, hrest⟩ := allHigh_cons.mp high
      cases room with
      | zero => simp at length
      | succ room =>
          have nonempty : front ++ [last] ≠ [] :=
            List.append_ne_nil_of_right_ne_nil _ (List.cons_ne_nil last [])
          apply (within_cons (UInt8.not_lt.mpr hhigh) nonempty).mpr
          exact ih hrest (Nat.le_of_succ_le_succ length) (fun h => narrow (congrArg Nat.succ h))

theorem value_cons_of_high {byte : UInt8} (hhigh : 128 ≤ byte) (rest : Bytes)
    : value (byte :: rest) = byte.toNat - 128 + 128 * value rest := by
  have hle : 128 ≤ byte.toNat := UInt8.le_iff_toNat_le.mp hhigh
  have hlt := byte.toNat_lt
  rw [value]
  omega

theorem value_of_low {byte : UInt8} (hlow : byte < 128) : value [byte] = byte.toNat :=
  Nat.mod_eq_of_lt (UInt8.lt_iff_toNat_lt.mp hlow)

end Varint

namespace Cursor

variable {cursor : Cursor} {room : Nat}

theorem takeGroups_nil (seen : Bytes) (hb : cursor.Bounded) (hv : cursor.view = [])
    : takeGroups (room + 1) seen cursor = .error (.token (.unterminated seen)) cursor := by
  obtain ⟨cause, hbyte⟩ := takeByte_of_nil hb hv
  simp only [takeGroups, hbyte]

section Cons

variable {byte : UInt8} {rest : Bytes} (hb : cursor.Bounded) (hv : cursor.view = byte :: rest)

include hb hv

theorem takeGroups_cons_wide (seen : Bytes) (wide : 1 < byte)
    : takeGroups 1 seen cursor = .error (.token .tooWide) (cursor.leave rest) := by
  simp only [takeGroups, takeByte_of_cons hb hv, true_and, if_pos wide]

theorem takeGroups_cons_low (seen : Bytes) (low : byte < 128) (narrow : room = 0 → byte ≤ 1)
    : takeGroups (room + 1) seen cursor = .ok byte.toNat (cursor.leave rest) := by
  have hnot : ¬ (room = 0 ∧ 1 < byte) := fun h => UInt8.not_lt.mpr (narrow h.1) h.2
  simp only [takeGroups, takeByte_of_cons hb hv, if_neg hnot, if_pos low]

theorem takeGroups_cons_high (seen : Bytes) (high : 128 ≤ byte)
    : takeGroups (room + 2) seen cursor
      = match takeGroups (room + 1) (seen ++ [byte]) (cursor.leave rest) with
        | .error cause left => .error cause left
        | .ok value left => .ok (byte.toNat - 128 + 128 * value) left := by
  have hnot : ¬ (room + 1 = 0 ∧ 1 < byte) := fun h => Nat.succ_ne_zero room h.1
  rw [takeGroups]
  cases hrest : takeGroups (room + 1) (seen ++ [byte]) (cursor.leave rest) with
  | ok value left =>
      simp only [takeByte_of_cons hb hv, if_neg hnot, if_neg (UInt8.not_lt.mpr high), hrest]
  | error cause left =>
      simp only [takeByte_of_cons hb hv, if_neg hnot, if_neg (UInt8.not_lt.mpr high), hrest]

end Cons

/-- A number that ends within its room is read, by induction on the bytes before the last. -/
theorem takeGroups_of_ends {front : Bytes} {last : UInt8} {more : Bytes} (seen : Bytes)
    (hb : cursor.Bounded) (hv : cursor.view = front ++ last :: more) (high : Varint.AllHigh front)
    (low : last < 128) (length : front.length ≤ room) (narrow : front.length = room → last ≤ 1)
    : takeGroups (room + 1) seen cursor
      = .ok (Varint.value (front ++ [last])) (cursor.leave more) := by
  induction front generalizing cursor room seen with
  | nil =>
      rw [List.nil_append, Varint.value_of_low low]
      exact takeGroups_cons_low hb hv seen low (fun h => narrow h.symm)
  | cons byte front ih =>
      obtain ⟨hhigh, hrest⟩ := Varint.allHigh_cons.mp high
      cases room with
      | zero => simp at length
      | succ room =>
          have hcons : cursor.view = byte :: (front ++ last :: more) := hv
          have hview : (cursor.leave (front ++ last :: more)).view = front ++ last :: more :=
            hb.view_leave (show cursor.view = [byte] ++ _ from hcons)
          rw [takeGroups_cons_high hb hcons seen hhigh,
            ih (seen ++ [byte]) (hb.leave _) hview hrest (Nat.le_of_succ_le_succ length)
              (fun h => narrow (congrArg Nat.succ h)),
            List.cons_append, Varint.value_cons_of_high hhigh]
          rfl

/-- A number with more bits than fit is refused behind its last byte, by the same induction. -/
theorem takeGroups_of_wide {front : Bytes} {last : UInt8} {more : Bytes} (seen : Bytes)
    (hb : cursor.Bounded) (hv : cursor.view = front ++ last :: more) (high : Varint.AllHigh front)
    (length : front.length = room) (wide : 1 < last)
    : takeGroups (room + 1) seen cursor = .error (.token .tooWide) (cursor.leave more) := by
  induction front generalizing cursor room seen with
  | nil =>
      obtain rfl : 0 = room := length
      exact takeGroups_cons_wide hb hv seen wide
  | cons byte front ih =>
      obtain ⟨hhigh, hrest⟩ := Varint.allHigh_cons.mp high
      obtain rfl : front.length + 1 = room := length
      have hcons : cursor.view = byte :: (front ++ last :: more) := hv
      have hview : (cursor.leave (front ++ last :: more)).view = front ++ last :: more :=
        hb.view_leave (show cursor.view = [byte] ++ _ from hcons)
      rw [takeGroups_cons_high hb hcons seen hhigh,
        ih (seen ++ [byte]) (hb.leave _) hview hrest rfl]
      rfl

/-- A number that does not end is refused where the bytes do, by induction on the bytes. -/
theorem takeGroups_of_stops {bytes : Bytes} (seen : Bytes) (hb : cursor.Bounded)
    (hv : cursor.view = bytes) (high : Varint.AllHigh bytes) (length : bytes.length ≤ room)
    : takeGroups (room + 1) seen cursor
      = .error (.token (.unterminated (seen ++ bytes))) (cursor.leave []) := by
  induction bytes generalizing cursor room seen with
  | nil =>
      rw [takeGroups_nil seen hb hv, List.append_nil, ← hv, hb.leave_view]
  | cons byte bytes ih =>
      obtain ⟨hhigh, hrest⟩ := Varint.allHigh_cons.mp high
      cases room with
      | zero => simp at length
      | succ room =>
          have hview : (cursor.leave bytes).view = bytes :=
            hb.view_leave (show cursor.view = [byte] ++ _ from hv)
          rw [takeGroups_cons_high hb hv seen hhigh,
            ih (seen ++ [byte]) (hb.leave bytes) hview hrest (Nat.le_of_succ_le_succ length),
            List.append_assoc]
          rfl

end Cursor

end TagWire
