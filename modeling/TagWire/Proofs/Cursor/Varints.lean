import TagWire.Encoding.Output
import TagWire.Proofs.Cursor.Refusals

/-!
Numbers written and read. What is written of a number is the shortest form of it and is read back;
and what is read is settled by the bytes up to the limit of the cursor, whatever they are.
-/

namespace TagWire

namespace Varint

-----------------------------------------------------------------------------------------
-- The number that bytes spell
-----------------------------------------------------------------------------------------

/-- The groups of bytes put together in a word of 64 bits, each shifted to its place. -/
def gathered : (place : Nat) → (word : UInt64) → Bytes → UInt64
  | _, word, [] => word
  | place, word, byte :: rest =>
      gathered (place + 1) (word ||| ((byte &&& 0x7F).toUInt64 <<< UInt64.ofNat (7 * place))) rest

/-- Bytes spell a number of 64 bits: it is the sum of their groups, and no bit of a group is lost
where they are put together in a word.
-/
structure Spells (token : Bytes) (n : Nat) : Prop where
  sum
    : n = token.zipIdx.foldr (fun group total => group.1.toNat % 128 * 2 ^ (7 * group.2) + total) 0
  lt : n < 2 ^ 64
  word : (gathered 0 0 token).toNat = n

/-- Each group counts by its place, by induction on the bytes. -/
theorem value_mul_eq_sum (token : Bytes) (place : Nat)
    : value token * 2 ^ (7 * place)
      = (token.zipIdx place).foldr
          (fun group total => group.1.toNat % 128 * 2 ^ (7 * group.2) + total) 0 := by
  induction token generalizing place with
  | nil => simp [value]
  | cons byte rest ih =>
      have hplace : 2 ^ (7 * (place + 1)) = 128 * 2 ^ (7 * place) := by
        rw [Nat.mul_add, Nat.pow_add, Nat.mul_comm]
      rw [List.zipIdx_cons, List.foldr_cons, ← ih (place + 1), value, hplace,
        Nat.add_mul, Nat.mul_comm 128 (value rest), Nat.mul_assoc]

/-- One more group in a word has all its bits above those that were there. -/
theorem toNat_or_group {word : UInt64} {byte : UInt8} {place : Nat} (hplace : 7 * place < 64)
    (hword : word.toNat < 2 ^ (7 * place)) (hfits : 2 ^ (7 * place) * (byte.toNat % 128) < 2 ^ 64)
    : (word ||| ((byte &&& 0x7F).toUInt64 <<< UInt64.ofNat (7 * place))).toNat
      = word.toNat + 2 ^ (7 * place) * (byte.toNat % 128) := by
  have hgroup : (byte &&& 0x7F).toNat = byte.toNat % 128 :=
    Nat.and_two_pow_sub_one_eq_mod byte.toNat 7
  have hshift : (UInt64.ofNat (7 * place)).toNat % 64 = 7 * place := by
    rw [UInt64.toNat_ofNat']
    omega
  rw [UInt64.toNat_or, UInt64.toNat_shiftLeft, UInt8.toNat_toUInt64, hgroup, hshift,
    Nat.shiftLeft_eq, Nat.mul_comm, Nat.mod_eq_of_lt hfits, Nat.or_comm,
    ← Nat.two_pow_add_eq_or_of_lt hword, Nat.add_comm]

/-- What a word holds once all groups are in it, by induction on the bytes. -/
theorem toNat_gathered {token : Bytes} {place : Nat} {word : UInt64}
    (hlen : place + token.length ≤ maxLength) (hword : word.toNat < 2 ^ (7 * place))
    (hfits : word.toNat + 2 ^ (7 * place) * value token < 2 ^ 64)
    : (gathered place word token).toNat = word.toNat + 2 ^ (7 * place) * value token := by
  induction token generalizing place word with
  | nil => rw [gathered, value, Nat.mul_zero, Nat.add_zero]
  | cons byte rest ih =>
      have hplace : 2 ^ (7 * (place + 1)) = 2 ^ (7 * place) * 128 := by
        rw [Nat.mul_add, Nat.pow_add]
      have hvalue : 2 ^ (7 * place) * value (byte :: rest)
          = 2 ^ (7 * place) * (byte.toNat % 128) + 2 ^ (7 * (place + 1)) * value rest := by
        rw [value, hplace, Nat.mul_add, Nat.mul_assoc]
      have hroom : 7 * place < 64 := by
        simp only [maxLength, List.length_cons] at hlen
        omega
      have hgroup : 2 ^ (7 * place) * (byte.toNat % 128) < 2 ^ 64 := by omega
      have hnext := toNat_or_group hroom hword hgroup
      have hbyte : byte.toNat % 128 ≤ 127 := by omega
      have hbound : word.toNat + 2 ^ (7 * place) * (byte.toNat % 128) < 2 ^ (7 * (place + 1)) := by
        have hmul := Nat.mul_le_mul_left (2 ^ (7 * place)) hbyte
        omega
      rw [gathered, ih (by rw [List.length_cons] at hlen; omega) (hnext ▸ hbound)
        (by rw [hnext]; omega), hnext, hvalue]
      omega

theorem Fits.spells {token : Bytes} (h : Fits token) : Spells token (value token) where
  sum := by simpa using value_mul_eq_sum token 0
  lt := h.2
  word := by
    have hgathered : (gathered 0 0 token).toNat = (0 : UInt64).toNat + 2 ^ (7 * 0) * value token :=
      toNat_gathered (by simpa using h.1) (by decide) (by simpa using h.2)
    simpa using hgathered

/-- No number has a shorter form than the one that is written. -/
theorem length_le_of_value {token : Bytes} (hne : token ≠ [])
    : length (value token) ≤ token.length := by
  have hlt : value token < 128 ^ token.length := by
    clear hne
    induction token with
    | nil => simp [value]
    | cons byte rest ih =>
        rw [value, List.length_cons, Nat.pow_succ]
        omega
  rw [length_eq_length_encode]
  exact length_encode_le (List.length_pos_iff.mpr hne) hlt

-----------------------------------------------------------------------------------------
-- Reading
-----------------------------------------------------------------------------------------

/-- What a number that is read from bytes comes to, and how many of them are taken. Of the bytes
that a number may have, all but the last have seven bits of it and the last has one.
-/
inductive Begins (bytes : Bytes) : (count : Nat) → Except TokenError Nat → Prop
  | ends {front : Bytes} {last : UInt8} {more : Bytes} (split : bytes = front ++ last :: more)
    (high : AllHigh front)
    (fits : front.length < 9 ∧ last < 128 ∨ front.length = 9 ∧ last ≤ 1)
    : Begins bytes (front.length + 1) (.ok (value (front ++ [last])))
  | tooWide (overflows : Overflows bytes) : Begins bytes maxLength (.error .tooWide)
  | unterminated (unfinished : Unfinished bytes)
    : Begins bytes bytes.length (.error (.unterminated bytes))

theorem exists_begins (bytes : Bytes) : ∃ count outcome, Begins bytes count outcome := by
  cases opens 9 bytes with
  | @ends front last more high low length narrow =>
      have fits : front.length < 9 ∧ last < 128 ∨ front.length = 9 ∧ last ≤ 1 :=
        (Nat.lt_or_eq_of_le length).imp (fun h => ⟨h, low⟩) (fun h => ⟨h, narrow h⟩)
      exact ⟨_, _, .ends rfl high fits⟩
  | @wide front last more high length wide =>
      exact ⟨_, _, .tooWide ⟨front, last, more, rfl, congrArg Nat.succ length, high, wide⟩⟩
  | stops high length => exact ⟨_, _, .unterminated ⟨Nat.lt_succ_of_le length, high⟩⟩

theorem ends_of_fits {front : Bytes} {last : UInt8}
    (fits : front.length < 9 ∧ last < 128 ∨ front.length = 9 ∧ last ≤ 1)
    : last < 128 ∧ front.length ≤ 9 ∧ (front.length = 9 → last ≤ 1) := by
  rcases fits with ⟨length, low⟩ | ⟨length, narrow⟩
  · exact ⟨low, Nat.le_of_lt length, fun h => absurd h (Nat.ne_of_lt length)⟩
  · exact ⟨UInt8.lt_of_le_of_lt narrow (by decide), Nat.le_of_eq length, fun _ => narrow⟩

/-- The bytes that a number is read from spell it. -/
theorem Begins.spells {bytes : Bytes} {count n : Nat} (h : Begins bytes count (.ok n))
    : Spells (bytes.take count) n := by
  cases h with
  | @ends front last more split high fits =>
      obtain ⟨low, length, narrow⟩ := ends_of_fits fits
      have within : Within maxLength (front ++ [last]) := within_of_ends high low length narrow
      have taken : bytes.take (front.length + 1) = front ++ [last] := by
        rw [split, List.append_cons, List.take_left' (by simp)]
      rw [taken]
      exact ((within_maxLength _).mp within).spells

theorem Begins.count_le {bytes : Bytes} {count : Nat} {outcome : Except TokenError Nat}
    (h : Begins bytes count outcome)
    : count ≤ bytes.length := by
  cases h with
  | @ends front last more split high fits =>
      rw [split, List.length_append, List.length_cons]
      omega
  | tooWide overflows =>
      obtain ⟨front, last, more, split, length, _⟩ := overflows
      rw [split, List.length_append, List.length_cons]
      omega
  | unterminated => exact Nat.le_refl _

end Varint

namespace Cursor

variable {cursor moved : Cursor}

/-- The result of reading a number that takes some bytes. -/
def numberRead (cursor : Cursor) (count : Nat)
    : Except TokenError Nat → EStateM.Result CursorError Cursor Nat
  | .ok n => .ok n { cursor with offset := cursor.offset + count }
  | .error cause => .error (.token cause) { cursor with offset := cursor.offset + count }

theorem Bounded.leave_eq (hb : cursor.Bounded) {token rest : Bytes}
    (hv : cursor.view = token ++ rest)
    : cursor.leave rest = { cursor with offset := cursor.offset + token.length } := by
  rw [← hb.offset_leave hv]
  rfl

/-- What reading a number comes to, and where it leaves the cursor, is settled by the bytes. -/
theorem takeVarint_of_begins (hb : cursor.Bounded) {count : Nat} {outcome : Except TokenError Nat}
    (h : Varint.Begins cursor.view count outcome)
    : takeVarint cursor = cursor.numberRead count outcome := by
  cases h with
  | @ends front last more split high fits =>
      obtain ⟨low, length, narrow⟩ := Varint.ends_of_fits fits
      have read : takeVarint cursor = .ok (Varint.value (front ++ [last])) (cursor.leave more) :=
        takeGroups_of_ends [] hb split high low length narrow
      rw [read, numberRead, hb.leave_eq (split.trans (List.append_cons front last more)),
        List.length_append, List.length_singleton]
  | tooWide overflows =>
      obtain ⟨front, last, more, split, length, high, wide⟩ := overflows
      have read : takeVarint cursor = .error (.token .tooWide) (cursor.leave more) :=
        takeGroups_of_wide [] hb split high (Nat.succ.inj length) wide
      rw [read, numberRead, hb.leave_eq (split.trans (List.append_cons front last more)),
        List.length_append, List.length_singleton, length]
  | unterminated unfinished =>
      obtain ⟨short, high⟩ := unfinished
      have read : takeVarint cursor
          = .error (.token (.unterminated cursor.view)) (cursor.leave []) :=
        takeGroups_of_stops [] hb rfl high (Nat.le_of_lt_succ short)
      rw [read, numberRead, hb.leave_eq (List.append_nil cursor.view).symm]

theorem takeVarint_encode (hb : cursor.Bounded) {n : Nat} (h : n < 2 ^ 64) {more : Bytes}
    (hv : cursor.view = Varint.encode n ++ more)
    : takeVarint cursor
      = .ok n { cursor with offset := cursor.offset + Varint.length n } := by
  have hread := outcome?_takeVarint hb
  rw [hv, Varint.take?_encode_append h, Option.map_some, Varint.value_encode, hb.leave_eq hv,
    ← Varint.length_eq_length_encode] at hread
  rw [Read.outcome?] at hread
  split at hread
  · next value left htake =>
      obtain ⟨rfl, rfl⟩ := Prod.mk.inj (Option.some.inj hread)
      exact htake
  · cases hread

/-- A number takes no fewer bytes than its shortest form. -/
theorem length_le_of_takeVarint (hb : cursor.Bounded) {n : Nat}
    (h : takeVarint cursor = .ok n moved)
    : cursor.offset + Varint.length n ≤ moved.offset := by
  have hread : takeVarint.outcome? cursor = some (n, moved) := by rw [Read.outcome?, h]
  obtain ⟨token, after, htake, rfl, rfl⟩ := takeVarint_split hb hread
  have hne : token ≠ [] := Varint.take?_cuts.nonempty htake
  have hle := Varint.length_le_of_value hne
  rw [hb.offset_leave (Varint.take?_cuts.divides htake)]
  exact Nat.add_le_add_left hle cursor.offset

end Cursor

namespace Varint

-----------------------------------------------------------------------------------------
-- Both directions
-----------------------------------------------------------------------------------------

/-- What is written of a number: its shortest form, which is read back. A counter counts what a
buffer gets.
-/
structure Written (n : Nat) : Prop where
  length_le : length n ≤ maxLength
  buffered
    : ∀ output : Output Buffer,
        (output.putVarint n).target.toList = output.target.toList ++ encode n
        ∧ (output.putVarint n).written = output.written + length n
        ∧ (encode n).length = length n
  counted
    : ∀ output : Output ByteCount,
        (output.putVarint n).target.count = output.target.count + length n
        ∧ (output.putVarint n).written = output.written + length n
  read
    : ∀ (cursor : Cursor) (more : Bytes),
        cursor.Bounded
        → cursor.view = encode n ++ more
        → Cursor.takeVarint cursor
          = .ok n { cursor with offset := cursor.offset + length n }
  shortest
    : ∀ cursor moved : Cursor,
        cursor.Bounded
        → Cursor.takeVarint cursor = .ok n moved
        → cursor.offset + length n ≤ moved.offset

theorem written {n : Nat} (h : n < 2 ^ 64) : Written n where
  length_le := by
    rw [length_eq_length_encode]
    exact (fits_encode h).1
  buffered output := by
    refine ⟨?_, ?_, (length_eq_length_encode n).symm⟩
    · simp [Output.putVarint, Output.put, Target.push]
    · rw [length_eq_length_encode]
      rfl
  counted output := by
    rw [length_eq_length_encode]
    exact ⟨rfl, rfl⟩
  read _ _ hb hv := Cursor.takeVarint_encode hb h hv
  shortest _ _ hb hread := Cursor.length_le_of_takeVarint hb hread

/-- Numbers of 64 bits are written in their shortest form and read back, and what is read from any
bytes is settled by how they begin: the number that they spell, or what is wrong with them, and the
bytes that are taken. A key is read back as the tag and the wire kind that it was written for.
-/
theorem codec_exact
    : (∀ n : UInt64, Written n.toNat)
      ∧ (∀ bytes, ∃ count outcome, Begins bytes count outcome)
      ∧ (∀ (cursor : Cursor) (count : Nat) (outcome : Except TokenError Nat),
          cursor.Bounded
          → Begins cursor.view count outcome
          → Cursor.takeVarint cursor = cursor.numberRead count outcome)
      ∧ (∀ (bytes : Bytes) (count n : Nat),
          Begins bytes count (.ok n) → Spells (bytes.take count) n)
      ∧ ∀ (tag : UInt32) (kind : WireKind) (cursor : Cursor) (more : Bytes),
          cursor.Bounded
          → cursor.view
            = ((Output.start (#[] : Buffer) []).putKey tag.toNat kind).target.toList ++ more
          → ∃ key moved,
              Cursor.takeVarint cursor = .ok key moved
              ∧ moved.view = more
              ∧ Key.split key = (tag.toNat, kind.code)
              ∧ WireKind.ofCode? kind.code = some kind := by
  refine ⟨fun n => written n.toNat_lt, exists_begins,
    fun _ _ _ hb h => Cursor.takeVarint_of_begins hb h, fun _ _ _ h => h.spells, ?_⟩
  intro tag kind cursor more hb hv
  have hkey : Key.pack tag.toNat kind < 2 ^ 64 := by
    have htag := tag.toNat_lt
    have hcode := kind.code_lt
    simp only [Key.pack]
    omega
  have hwritten : ((Output.start (#[] : Buffer) []).putKey tag.toNat kind).target.toList
      = encode (Key.pack tag.toNat kind) := by
    simp [Output.start, Output.putKey, Output.putVarint, Output.put, Target.push]
  rw [hwritten] at hv
  refine ⟨_, _, Cursor.takeVarint_encode hb hkey hv, ?_, Key.split_pack _ _,
    kind.ofCode?_code⟩
  rw [length_eq_length_encode, ← hb.leave_eq hv, hb.view_leave hv]

/-- A window that holds a number of ten bytes, one more than needed, with a byte before and one
behind it.
-/
def paddedCursor : Cursor :=
  ⟨#[0x07, 0xD2, 0x89, 0x80, 0x80, 0x80, 0x80, 0x80, 0x80, 0x80, 0x00, 0xFF], 1, [11]⟩

/-- The number is read to the end of the window, a shorter number is written for it, and the key of
the largest tag there is space for is read back.
-/
theorem codec_exact_padded
    : Cursor.takeVarint paddedCursor = .ok 1234 { paddedCursor with offset := 11 }
      ∧ Spells (paddedCursor.view.take 10) 1234
      ∧ (Output.start (#[] : Buffer) []).putVarint 1234 = ⟨#[0xD2, 0x09], 2, []⟩
      ∧ Cursor.takeVarint (Cursor.ofBytes [0xD2, 0x09, 0x80])
        = .ok 1234 ⟨#[0xD2, 0x09, 0x80], 2, []⟩
      ∧ ∃ key moved,
          Cursor.takeVarint (Cursor.ofBytes [0xFA, 0xFF, 0xFF, 0xFF, 0x7F, 0x01]) = .ok key moved
          ∧ moved.view = [0x01]
          ∧ Key.split key = (4294967295, 2) := by
  obtain ⟨hwritten, _, hread, hspells, hkey⟩ := codec_exact
  have bounded : paddedCursor.Bounded := ⟨by decide, by decide⟩
  have begins : Begins paddedCursor.view 10 (.ok 1234) :=
    @Begins.ends _ [0xD2, 0x89, 0x80, 0x80, 0x80, 0x80, 0x80, 0x80, 0x80] 0x00 [] (by decide)
      (by simp only [allHigh_cons, allHigh_nil]; decide) (.inr ⟨rfl, by decide⟩)
  have written : Written 1234 := hwritten 1234
  have encoded : encode 1234 = [0xD2, 0x09] := by simp [encode]
  obtain ⟨key, moved, read, view, split, _⟩ :=
    hkey 4294967295 .lengthDelimited (.ofBytes [0xFA, 0xFF, 0xFF, 0xFF, 0x7F, 0x01]) [0x01]
      (Cursor.ofBytes_bounded _)
      (by simp [Output.start, Output.putKey, Output.putVarint, Output.put, Target.push, Key.pack,
        WireKind.code, encode])
  refine ⟨hread paddedCursor 10 _ bounded begins, hspells _ 10 1234 begins, ?_, ?_,
    key, moved, read, view, split⟩
  · simp [Output.start, Output.putVarint, Output.put, Target.push, encoded]
  · have hview : (Cursor.ofBytes [0xD2, 0x09, 0x80]).view = encode 1234 ++ [0x80] := by
      rw [Cursor.view_ofBytes, encoded]
      rfl
    exact written.read _ [0x80] (Cursor.ofBytes_bounded _) hview

end Varint

end TagWire
