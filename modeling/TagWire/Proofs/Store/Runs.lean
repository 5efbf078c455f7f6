import Mathlib.Data.List.TakeDrop
import TagWire.Proofs.Encoding.RoundTrip
import TagWire.Proofs.Store.Media

/-!
Runs of saves and loads on one medium. However they follow each other, and whichever of them fail, a
load gives the record that was saved last, or what the medium held at first if none was.
-/

namespace TagWire

/-- A record that may be kept under the name of its type: a program can come by it, and its bytes
are no more than a byte string may have.
-/
structure Record.Storable (schema : Schema) (name : String) (record : Record) : Prop where
  reachable : record.Reachable schema
  named : record.type.name = name
  short : record.bytes.length < 2 ^ 63

namespace Store

/-- What is done with a medium. -/
inductive Step where
  | save (record : Record)
  | load (options : DecodeOptions)
  | loadOrCreate (options : DecodeOptions)

/-- What comes of a step. -/
inductive Answer where
  | saved (outcome : Except StoreError Nat)
  | loaded (outcome : Except StoreError (Option Record))
  | created (outcome : Except StoreError Record)

/-- A step on a medium, with its answer and the medium after it. -/
structure Event (σ : Type) where
  before : σ
  step : Step
  answer : Answer
  after : σ

section Runs

variable {σ : Type} [Source σ]

/-- Do one step with records of a type. -/
def perform [Sink σ] (schema : Schema) (name : String) (medium : σ) (step : Step) : Event σ :=
  match step with
  | .save record =>
      let (outcome, after) := save record medium
      ⟨medium, step, .saved outcome, after⟩
  | .load options => ⟨medium, step, .loaded (load medium schema name options), medium⟩
  | .loadOrCreate options =>
      ⟨medium, step, .created (loadOrCreate medium schema name options), medium⟩

/-- Do one step after the other. -/
def run [Sink σ] (schema : Schema) (name : String) (medium : σ) : List Step → List (Event σ)
  | [] => []
  | step :: rest =>
      let event := perform schema name medium step
      event :: run schema name event.after rest

/-- The record that an event saves, if the save succeeds. -/
def Event.stored? (event : Event σ) : Option Record :=
  match event.step, event.answer with
  | .save record, .saved (.ok _) => some record
  | _, _ => none

/-- The record that is saved last in a row of events; one from before it if none is. -/
def lastStored? (earlier? : Option Record) (events : List (Event σ)) : Option Record :=
  events.foldl (fun last? event => event.stored?.or last?) earlier?

/-- What an event has to be like, if a medium held something at first and a record, if any, was
saved last since then.
-/
def Event.Expected (schema : Schema) (name : String) (first : σ) (last? : Option Record)
    (event : Event σ)
    : Prop :=
  match event.step with
  | .save record =>
      ∃ outcome,
        event.answer = .saved outcome
        ∧ (record.missing ≠ []
            → outcome
                = .error (.encode (.missingRequired record.type.name record.missingPaths))
              ∧ event.after = event.before)
        ∧ ∀ length,
            outcome = .ok length
            → ∃ contents, Source.read event.after = some contents ∧ contents.length = length
  | .load options =>
      event.after = event.before
      ∧ match last? with
        | none => event.answer = .loaded (load first schema name options)
        | some record =>
            record.depth ≤ options.recursionLimit → event.answer = .loaded (.ok (some record))
  | .loadOrCreate options =>
      event.after = event.before
      ∧ match last? with
        | none => event.answer = .created (loadOrCreate first schema name options)
        | some record =>
            record.depth ≤ options.recursionLimit → event.answer = .created (.ok record)

/-- What a medium holds: the record that was saved last, or what it held at first. -/
structure Holding (schema : Schema) (name : String) (first : σ) (last? : Option Record)
    (medium : σ)
    : Prop where
  contents
    : Source.read medium
      = match last? with
        | none => Source.read first
        | some record => some record.bytes
  storable : ∀ {record}, last? = some record → record.Storable schema name
  complete : ∀ {record}, last? = some record → record.isComplete = true

namespace Holding

variable {schema : Schema} {name : String} {first medium : σ} {last? : Option Record}

theorem start (schema : Schema) (name : String) (first : σ)
    : Holding schema name first none first :=
  ⟨rfl, nofun, nofun⟩

/-- The record that was saved last is loaded, with or without a demand for required fields. -/
theorem load_last (built : schema.Built) {record : Record}
    (h : Holding schema name first (some record) medium) {options : DecodeOptions}
    (hdepth : record.depth ≤ options.recursionLimit)
    : load medium schema name options = .ok (some record) := by
  have stored := h.storable rfl
  have hd := stored.reachable.conforms.decode_bytes built hdepth
    (Nat.lt_trans stored.short (by decide))
  rw [stored.named] at hd
  exact load_of_read h.contents
    (Record.decode_eq_ok_iff_unchecked.mpr ⟨hd, fun _ => h.complete rfl⟩)

/-- As long as nothing was saved, what the medium held at first is loaded. -/
theorem load_first (h : Holding schema name first none medium) (options : DecodeOptions)
    : load medium schema name options = load first schema name options :=
  load_congr h.contents schema name options

/-- Every step is as expected. -/
theorem expected [Sink σ] [Faithful σ] (built : schema.Built)
    (h : Holding schema name first last? medium) (step : Step)
    : (perform schema name medium step).Expected schema name first last? := by
  cases step with
  | save record =>
      refine ⟨(save record medium).1, rfl, fun hmissing => ?_, fun length hok => ?_⟩
      · have hsave := save_incomplete (Record.isComplete_eq_false_iff.mpr hmissing) medium
        exact ⟨congrArg Prod.fst hsave, congrArg Prod.snd hsave⟩
      · have hsave : save record medium = (.ok length, (save record medium).2) := Prod.ext hok rfl
        obtain ⟨_, hread, rfl⟩ := of_save_eq_ok hsave
        exact ⟨_, hread, rfl⟩
  | load options =>
      refine ⟨rfl, ?_⟩
      cases last? with
      | none => exact congrArg _ (h.load_first options)
      | some record => exact fun hdepth => congrArg _ (h.load_last built hdepth)
  | loadOrCreate options =>
      refine ⟨rfl, ?_⟩
      cases last? with
      | none => simp only [perform, loadOrCreate, h.load_first options]
      | some record =>
          intro hdepth
          simp only [perform, loadOrCreate, h.load_last built hdepth]

/-- Every step leaves the medium with the record that was saved last. -/
theorem perform [Sink σ] [Faithful σ] (h : Holding schema name first last? medium) {step : Step}
    (storable : ∀ record, step = .save record → record.Storable schema name)
    : Holding schema name first ((Store.perform schema name medium step).stored?.or last?)
        (Store.perform schema name medium step).after := by
  cases step with
  | load options => exact h
  | loadOrCreate options => exact h
  | save record =>
      rcases hs : save record medium with ⟨outcome, next⟩
      cases outcome with
      | error cause =>
          obtain rfl := of_save_eq_error hs
          simpa only [Store.perform, hs, Event.stored?, Option.none_or] using h
      | ok length =>
          obtain ⟨complete, hread, _⟩ := of_save_eq_ok hs
          simp only [Store.perform, hs, Event.stored?, Option.some_or]
          refine ⟨hread, ?_, ?_⟩
          · rintro _ ⟨⟩
            exact storable record rfl
          · rintro _ ⟨⟩
            exact complete

end Holding

/-- Every event of a run is as expected after those before it, by induction on the steps. -/
theorem run_expected [Sink σ] [Faithful σ] {schema : Schema} (built : schema.Built) {name : String}
    {first medium : σ} {last? : Option Record} (h : Holding schema name first last? medium)
    {steps : List Step}
    (storable : ∀ record, .save record ∈ steps → record.Storable schema name)
    {earlier later : List (Event σ)} {event : Event σ}
    (split : run schema name medium steps = earlier ++ event :: later)
    : event.Expected schema name first (lastStored? last? earlier) := by
  induction steps generalizing medium last? earlier with
  | nil => simp [run] at split
  | cons step rest ih =>
      cases earlier with
      | nil =>
          obtain ⟨rfl, _⟩ := List.cons.inj split
          exact h.expected built step
      | cons head earlier =>
          obtain ⟨rfl, hrest⟩ := List.cons.inj split
          exact ih (h.perform (fun record he => storable record (he ▸ List.mem_cons_self)))
            (fun record hm => storable record (List.mem_cons_of_mem _ hm)) hrest

end Runs

-----------------------------------------------------------------------------------------
-- Writers
-----------------------------------------------------------------------------------------

/-- A writer takes what there is room for. -/
theorem taken_write (writer : Writer) (bytes : Bytes)
    : (Sink.write writer bytes).2.taken = writer.taken ++ bytes.take writer.room := by
  simp only [Sink.write]
  split
  · rfl
  · split <;> rfl

/-- A write succeeds exactly if there is room for all bytes and they can be passed on. -/
theorem write_eq_ok_iff (writer : Writer) (bytes : Bytes)
    : (Sink.write writer bytes).1 = .ok ()
      ↔ bytes.take writer.room = bytes ∧ writer.stuck = none := by
  rw [List.take_eq_self_iff]
  simp only [Sink.write]
  split
  · next hfull => simp [Nat.not_le.mpr hfull]
  · next hroom =>
      split
      · next failure hstuck => simp [hstuck]
      · next hfree => simp [hfree, Nat.not_lt.mp hroom]

/-- What a save to a writer has to be like: a record that is not complete is refused before anything
is written, and otherwise a front of the encoding stands after what was taken before. The save
succeeds exactly if the record is complete, all of the encoding was taken and it could be passed on.
-/
structure WriterExpected (record : Record) (writer : Writer) : Prop where
  refused
    : record.missing ≠ []
      → save record writer
        = (.error (.encode (.missingRequired record.type.name record.missingPaths)), writer)
  front
    : ∃ front,
        front <+: record.bytes
        ∧ (save record writer).2.taken = writer.taken ++ front
        ∧ ∀ length,
            (save record writer).1 = .ok length
            ↔ record.missing = []
              ∧ front = record.bytes
              ∧ writer.stuck = none
              ∧ length = record.bytes.length

theorem writer_expected (record : Record) (writer : Writer) : WriterExpected record writer := by
  refine ⟨fun hm => save_incomplete (Record.isComplete_eq_false_iff.mpr hm) writer, ?_⟩
  cases hc : record.isComplete with
  | false =>
      refine ⟨[], List.nil_prefix, ?_, fun length => ?_⟩
      · simp [save_incomplete hc]
      · simp [save_incomplete hc, Record.isComplete_eq_false_iff.mp hc]
  | true =>
      have htaken := taken_write writer record.bytes
      have hwrite := write_eq_ok_iff writer record.bytes
      rcases hw : Sink.write writer record.bytes with ⟨outcome, next⟩
      rw [hw] at htaken hwrite
      rw [save_complete hc hw]
      refine ⟨record.bytes.take writer.room, List.take_prefix _ _, htaken, fun length => ?_⟩
      rw [← and_assoc (a := record.bytes.take writer.room = record.bytes), ← hwrite]
      cases outcome with
      | error cause => simp [Except.mapError, Except.map]
      | ok => simp [Except.mapError, Except.map, Record.isComplete_iff.mp hc, eq_comm]

/-- Whatever is saved and loaded on a file or a byte string, and whatever of it fails: a load gives
the record that was saved last, or what the medium held at first; a record that is not complete is
refused and changes nothing; and the answer to a save is the length of the contents. A writer with
little room is left with a front of the encoding.
-/
theorem run_answers {schema : Schema} (built : schema.Built) {name : String} {steps : List Step}
    (storable : ∀ record, .save record ∈ steps → record.Storable schema name)
    : (∀ (first : File) earlier event later,
        run schema name first steps = earlier ++ event :: later
        → event.Expected schema name first (lastStored? none earlier))
      ∧ (∀ (first : Bytes) earlier event later,
          run schema name first steps = earlier ++ event :: later
          → event.Expected schema name first (lastStored? none earlier))
      ∧ ∀ record writer, WriterExpected record writer :=
  ⟨fun first _ _ _ split => run_expected built (.start schema name first) storable split,
    fun first _ _ _ split => run_expected built (.start schema name first) storable split,
    writer_expected⟩

end Store

namespace AddressBook

/-- A book with a field from elsewhere. -/
def strangeBook : Record := ⟨schema, book, [], [(2, [⟨2, .varint, [0x10, 0x05]⟩])]⟩

/-- A book with a person of whom nothing is known. -/
def crowdedBook : Record :=
  ⟨schema, book, [(1, .repeated [.message (.empty schema person)])], []⟩

/-- A book is saved to a new file, another one cannot be, and the first one is loaded again. -/
theorem run_answers_books
    : strangeBook.Storable schema book.name
      ∧ crowdedBook.Storable schema book.name
      ∧ ((Store.run schema book.name (⟨.empty, "people"⟩ : File)
            [.save strangeBook, .save crowdedBook, .load ⟨0, true⟩])[2]?).map Store.Event.answer
        = some (.loaded (.ok (some strangeBook))) := by
  have read : Record.decode schema book.name [0x10, 0x05] {} = .ok strangeBook := rfl
  have made : Record.make schema book.name = .ok (.empty schema book) := rfl
  have added : ((Record.empty schema book).editAt (.addMessage 1) []).Reachable schema :=
    .edited [] (.made made) nofun
  have strange : strangeBook.Storable schema book.name :=
    ⟨.decoded read, rfl, by decide +kernel⟩
  have crowded : crowdedBook.Storable schema book.name := ⟨added, rfl, by decide +kernel⟩
  refine ⟨strange, crowded, ?_⟩
  let kept := Store.perform schema book.name (⟨.empty, "people"⟩ : File) (.save strangeBook)
  let refused := Store.perform schema book.name kept.after (.save crowdedBook)
  let loaded := Store.perform schema book.name refused.after (.load ⟨0, true⟩)
  have storable : ∀ record, Store.Step.save record
      ∈ [.save strangeBook, .save crowdedBook, .load ⟨0, true⟩]
      → record.Storable schema book.name := by
    intro record hm
    simp only [List.mem_cons, Store.Step.save.injEq, reduceCtorEq, List.not_mem_nil, or_false] at hm
    rcases hm with rfl | rfl
    · exact strange
    · exact crowded
  have plain : Directory.PlainName "people" := by constructor <;> decide
  have saved := Store.save_complete (by decide +kernel : strangeBook.isComplete = true)
    (File.write_plain .empty plain strangeBook.bytes)
  have incomplete : crowdedBook.isComplete = false := by decide +kernel
  have last : Store.lastStored? none [kept, refused] = some strangeBook := by
    simp only [kept, refused, Store.perform, saved, Store.save_incomplete incomplete,
      Store.lastStored?, List.foldl_cons, List.foldl_nil, Store.Event.stored?, Option.none_or]
    rfl
  have expected :=
    (Store.run_answers schema_built storable).1 ⟨.empty, "people"⟩ [kept, refused] loaded [] rfl
  rw [last] at expected
  exact congrArg some (expected.2 (by decide))

end AddressBook

end TagWire
