import TagWire.Proofs.Records.Completeness
import TagWire.Store.Basic
import TagWire.Store.Directory

/-!
What media owe to those who keep records in them. Contents are replaced as a whole or not at all:
what was written is what is read next, and a write that fails leaves what was there.
-/

namespace TagWire

/-- A medium whose contents are replaced as a whole or not at all. -/
class Store.Faithful (σ : Type) [Source σ] [Sink σ] : Prop where
  written
    : ∀ {medium next : σ} {bytes : Bytes},
        Sink.write medium bytes = (.ok (), next) → Source.read next = some bytes
  refused
    : ∀ {medium next : σ} {bytes : Bytes} {cause : IoError},
        Sink.write medium bytes = (.error cause, next) → next = medium

instance : Store.Faithful Bytes where
  written h := congrArg some (Prod.mk.inj h).2.symm
  refused h := nomatch (Prod.mk.inj h).1

-----------------------------------------------------------------------------------------
-- Files of a directory
-----------------------------------------------------------------------------------------

namespace Directory

variable {directory other : Directory} {path name : String} {bytes : Bytes}

theorem lookup_filter_ne {files : List (String × Bytes)} {wanted : String} (hne : wanted ≠ name)
    : (files.filter (fun file => file.1 != name)).lookup wanted = files.lookup wanted := by
  induction files with
  | nil => rfl
  | cons file rest ih =>
      by_cases hf : file.1 = name
      · have apart : (wanted == file.1) = false := by simpa [hf] using hne
        rw [List.filter_cons_of_neg (by simp [hf]), ih, List.lookup_cons, apart]
      · rw [List.filter_cons_of_pos (by simp [hf]), List.lookup_cons, List.lookup_cons, ih]

/-- What a file holds after a write, and what the others hold. -/
theorem contents?_put (directory : Directory) (name : String) (bytes : Bytes) (wanted : String)
    : (directory.put name bytes).contents? wanted
      = if wanted = name then some bytes else directory.contents? wanted := by
  rw [put, contents?, List.lookup_cons]
  by_cases hw : wanted = name
  · simp [hw]
  · simp only [beq_false_of_ne hw, if_neg hw, contents?]
    exact lookup_filter_ne hw

/-- Whether there are files on the way only decides why a path leads nowhere, so a path that leads
to a file leads there in every directory. By induction on the parts of the path.
-/
theorem follow_eq_ok {way : String} {parts : List String}
    (h : directory.follow way parts = .ok name)
    : other.follow way parts = .ok name := by
  induction parts generalizing way with
  | nil => simp [follow] at h
  | cons part rest ih =>
      by_cases hstay : part = "" ∨ part = "."
      · rw [follow, if_pos hstay] at h ⊢
        exact ih h
      · by_cases hup : part = ".."
        · rw [follow, if_neg hstay, if_pos hup] at h ⊢
          exact ih h
        · rw [follow, if_neg hstay, if_neg hup] at h ⊢
          split_ifs at h ⊢
          exact h

theorem locate_eq_ok (h : directory.locate path = .ok name) : other.locate path = .ok name := by
  rw [locate] at h ⊢
  split at h
  · simp at h
  · next hempty =>
      rw [if_neg hempty]
      split at h
      · simp at h
      · next hlong => rw [if_neg hlong]; exact follow_eq_ok h

/-- The name of a file in the directory itself, no longer than a part of a path may be. -/
structure PlainName (name : String) : Prop where
  nonempty : name ≠ ""
  notHere : name ≠ "."
  notAbove : name ≠ ".."
  inside : '/' ∉ name.toList
  short : name.utf8ByteSize ≤ maxPart

/-- A plain name leads to the file of that name. -/
theorem locate_plain (h : PlainName name) (directory : Directory)
    : directory.locate name = .ok name := by
  have hparts : parts name = [name] := by
    have hsplit : name.toList.splitOn '/' = [name.toList] :=
      List.splitOnP_eq_singleton (fun letter hl => by
        simp only [beq_eq_false_iff_ne]
        rintro rfl
        exact h.inside hl)
    rw [parts, hsplit, List.map_singleton, String.ofList_toList]
  have hhead : name.toList.head? ≠ some '/' := fun he => h.inside (List.mem_of_mem_head? he)
  have hpath : ¬ maxPath < name.utf8ByteSize :=
    Nat.not_lt.mpr (Nat.le_trans h.short (by decide))
  rw [locate, if_neg h.nonempty, if_neg hpath, if_neg hhead, hparts, follow]
  simp [h.nonempty, h.notHere, h.notAbove, Nat.not_lt.mpr h.short]

theorem read_plain (h : PlainName name) (directory : Directory)
    : directory.read name = directory.contents? name := by
  rw [read, locate_plain h]

/-- A file with a plain name can always be written. -/
theorem write_plain (h : PlainName name) (directory : Directory) (bytes : Bytes)
    : directory.write name bytes = (.ok (), directory.put name bytes) := by
  rw [write, locate_plain h]

/-- What is written to a path is read there. -/
theorem read_put (h : directory.locate path = .ok name)
    : (directory.put name bytes).read path = some bytes := by
  rw [read, locate_eq_ok h]
  simp [contents?_put]

end Directory

instance : Store.Faithful File where
  written {file next bytes} h := by
    simp only [Sink.write, Directory.write] at h
    split at h
    · next name hl =>
        obtain ⟨_, rfl⟩ := Prod.mk.inj h
        exact Directory.read_put hl
    · exact nomatch (Prod.mk.inj h).1
  refused {file next bytes cause} h := by
    simp only [Sink.write, Directory.write] at h
    split at h
    · exact nomatch (Prod.mk.inj h).1
    · exact (Prod.mk.inj h).2.symm

/-- A file with a plain name can always be written, and holds what is written. -/
theorem File.write_plain (directory : Directory) {name : String} (h : Directory.PlainName name)
    (bytes : Bytes)
    : Sink.write (⟨directory, name⟩ : File) bytes = (.ok (), ⟨directory.put name bytes, name⟩) := by
  simp only [Sink.write, Directory.write_plain h]

-----------------------------------------------------------------------------------------
-- Loading and saving
-----------------------------------------------------------------------------------------

namespace Store

variable {σ : Type} {record : Record} {medium next : σ}

/-- What is loaded depends on what is read only. -/
theorem load_congr [Source σ] {other : σ} (h : Source.read medium = Source.read other)
    (schema : Schema) (name : String) (options : DecodeOptions)
    : load medium schema name options = load other schema name options := by
  rw [load, load, h]

theorem load_of_read [Source σ] {bytes : Bytes} (h : Source.read medium = some bytes)
    {schema : Schema} {name : String} {options : DecodeOptions}
    (hd : Record.decode schema name bytes options = .ok record)
    : load medium schema name options = .ok (some record) := by
  rw [load, h]
  simp only [hd]

/-- A record that is not complete is refused, and nothing is touched. -/
theorem saveWith_incomplete (h : record.isComplete = false)
    (write : Bytes → StateM σ (Except IoError Unit)) (medium : σ)
    : saveWith write record medium
      = (.error (.encode (.missingRequired record.type.name record.missingPaths)), medium) := by
  rw [saveWith, Record.encode_incomplete h]
  rfl

/-- A complete record is written as its bytes, and the answer is that of the writing. -/
theorem saveWith_complete (h : record.isComplete = true)
    {write : Bytes → StateM σ (Except IoError Unit)} {outcome : Except IoError Unit}
    (hw : write record.bytes medium = (outcome, next))
    : saveWith write record medium
      = ((outcome.mapError .io).map (fun _ => record.bytes.length), next) := by
  rw [saveWith, Record.encode_complete h]
  simp only [bind, StateT.bind, hw]
  cases outcome <;> rfl

/-- A record that is not complete is refused, and the medium is not touched. -/
theorem save_incomplete [Sink σ] (h : record.isComplete = false) (medium : σ)
    : save record medium
      = (.error (.encode (.missingRequired record.type.name record.missingPaths)), medium) :=
  saveWith_incomplete h _ medium

/-- A complete record is written as its bytes, and the answer is that of the medium. -/
theorem save_complete [Sink σ] (h : record.isComplete = true) {outcome : Except IoError Unit}
    (hw : Sink.write medium record.bytes = (outcome, next))
    : save record medium
      = ((outcome.mapError .io).map (fun _ => record.bytes.length), next) :=
  saveWith_complete h hw

variable [Source σ] [Sink σ] [Faithful σ]

/-- A record that is saved is complete, and its bytes are what the medium holds. -/
theorem of_save_eq_ok {length : Nat} (h : save record medium = (.ok length, next))
    : record.isComplete = true
      ∧ Source.read next = some record.bytes
      ∧ length = record.bytes.length := by
  cases hc : record.isComplete with
  | false => simp [save_incomplete hc] at h
  | true =>
      rcases hw : Sink.write medium record.bytes with ⟨outcome, after⟩
      rw [save_complete hc hw] at h
      cases outcome with
      | error cause => exact nomatch (Prod.mk.inj h).1
      | ok =>
          obtain ⟨hlength, rfl⟩ := Prod.mk.inj h
          exact ⟨rfl, Faithful.written hw, (Except.ok.inj hlength).symm⟩

/-- A record that is not saved leaves the medium as it was. -/
theorem of_save_eq_error {cause : StoreError} (h : save record medium = (.error cause, next))
    : next = medium := by
  cases hc : record.isComplete with
  | false =>
      rw [save_incomplete hc] at h
      exact (Prod.mk.inj h).2.symm
  | true =>
      rcases hw : Sink.write medium record.bytes with ⟨outcome, after⟩
      rw [save_complete hc hw] at h
      cases outcome with
      | ok => exact nomatch (Prod.mk.inj h).1
      | error cause =>
          obtain ⟨_, rfl⟩ := Prod.mk.inj h
          exact Faithful.refused hw

end Store

end TagWire
