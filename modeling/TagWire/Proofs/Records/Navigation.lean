import TagWire.Proofs.Decoding.Repacking
import TagWire.Proofs.Records.FieldCalls

/-!
Going along a path and acting at its end. The record at the end is replaced, and so is, on the way
back, what each hop led to; all that is beside the path stays. What a hop sets, because it was
unset, stays set if a later hop is refused, and nothing else has changed then.
-/

namespace TagWire

-----------------------------------------------------------------------------------------
-- Hops
-----------------------------------------------------------------------------------------

namespace Hop

/-- The tag of the field that a hop goes through. -/
def tag : Hop → Nat
  | field tag => tag
  | element tag _ => tag

/-- A field is of the cardinality that a hop asks for. -/
def SuitsCardinality (field : Field) : Hop → Prop
  | .field _ => field.isRepeated = false
  | .element _ _ => field.isRepeated = true

/-- A hop asks for an element that is there. -/
def InRange (record : Record) : Hop → Prop
  | field _ => True
  | element tag index => index < (record.elements tag).length

/-- A hop can be taken from a record: its tag is declared, with records of the cardinality that the
hop asks for, and the element is there.
-/
def Fits (record : Record) (hop : Hop) : Prop :=
  ∃ field name,
    record.type.field? hop.tag = some field
    ∧ hop.SuitsCardinality field
    ∧ field.kind = .message name
    ∧ hop.InRange record

/-- The error that a hop deserves, in the order in which it is looked for. -/
inductive Refused (record : Record) : Hop → RecordError → Prop
  | undeclared {hop : Hop} (h : record.type.field? hop.tag = none)
    : Refused record hop (.unknownField record.type.name hop.tag)
  | repeated {tag : Nat} {field : Field} (hf : record.type.field? tag = some field)
    (h : field.isRepeated = true)
    : Refused record (.field tag)
        (.cardinality record.type.name field.name field.cardinality .addMessage)
  | singular {tag index : Nat} {field : Field} (hf : record.type.field? tag = some field)
    (h : field.isRepeated = false)
    : Refused record (.element tag index)
        (.cardinality record.type.name field.name field.cardinality .messageAt)
  | kind {hop : Hop} {field : Field} (hf : record.type.field? hop.tag = some field)
    (suits : hop.SuitsCardinality field) (h : field.kind.message? = none)
    : Refused record hop (.mismatch record.type.name field.name field.kind (.kind "message"))
  | outOfRange {tag index : Nat} {field : Field} {name : String}
    (hf : record.type.field? tag = some field) (repeated : field.isRepeated = true)
    (hk : field.kind = .message name) (h : (record.elements tag).length ≤ index)
    : Refused record (.element tag index)
        (.indexOutOfRange record.type.name field.name index (record.elements tag).length)

/-- A record is held where a hop leads. -/
inductive Finds (record : Record) : Hop → Record → Prop
  | field {tag : Nat} {nested : Record}
    (h : record.slot? tag = some (.single (.message nested)))
    : Finds record (.field tag) nested
  | element {tag index : Nat} {nested : Record}
    (h : (record.elements tag)[index]? = some (.message nested))
    : Finds record (.element tag index) nested

/-- A hop leads to the record that is held there, or to a new one if its field is unset. -/
inductive LeadsTo (record : Record) : Hop → Record → Prop
  | found {hop : Hop} {nested : Record} (h : hop.Finds record nested)
    : LeadsTo record hop nested
  | made {tag : Nat} {nested : Record} (unset : record.slot? tag = none)
    (fresh : record.Fresh tag nested)
    : LeadsTo record (.field tag) nested

/-- The slot at a hop's tag once a record is put where the hop leads. -/
def slotWith (record : Record) (nested : Record) : Hop → Slot
  | .field _ => .single (.message nested)
  | .element tag index => .repeated ((record.elements tag).set index (.message nested))

/-- A record that differs from another in nothing but the record where a hop leads. -/
structure Puts (hop : Hop) (nested : Record) (record changed : Record) : Prop where
  same : record.SameBut hop.tag changed
  slot : changed.slot? hop.tag = some (hop.slotWith record nested)

variable {record nested next : Record} {hop : Hop}

theorem not_fits_of_refused {error : RecordError} (h : hop.Refused record error)
    : ¬ hop.Fits record := by
  intro fits
  obtain ⟨held, name, hf, suits, hk, inRange⟩ := fits
  cases h with
  | undeclared missing => simp [missing] at hf
  | repeated declared h | singular declared h =>
      obtain rfl := Option.some.inj (declared.symm.trans hf)
      simp [SuitsCardinality, h] at suits
  | kind declared _ h =>
      obtain rfl := Option.some.inj (declared.symm.trans hf)
      simp [hk, Kind.message?] at h
  | outOfRange _ _ _ h => exact absurd inRange (Nat.not_lt.mpr h)

theorem LeadsTo.unique {other : Record} (h : hop.LeadsTo record nested)
    (h' : hop.LeadsTo record other)
    : nested = other := by
  cases h with
  | found h =>
      cases h with
      | field h =>
          cases h' with
          | found h' => cases h' with | field h' => simpa [h] using h'
          | made unset _ => simp [unset] at h
      | element h => cases h' with | found h' => cases h' with | element h' => simpa [h] using h'
  | made unset fresh =>
      cases h' with
      | found h' => cases h' with | field h' => simp [unset] at h'
      | made _ fresh' =>
          obtain ⟨field, type, hf, hk, ht, rfl⟩ := fresh
          obtain ⟨_, _, hf', hk', ht', rfl⟩ := fresh'
          obtain rfl := Option.some.inj (hf.symm.trans hf')
          have same := Kind.message.inj (hk.symm.trans hk')
          obtain rfl := Option.some.inj (ht.symm.trans (same ▸ ht'))
          rfl

end Hop

namespace Record

variable {schema : Schema} {record nested next : Record} {hop : Hop}

theorem slot?_of_element {tag index : Nat} {value : Value}
    (h : (record.elements tag)[index]? = some value)
    : record.slot? tag = some (.repeated (record.elements tag)) := by
  rw [elements] at h ⊢
  split at h
  · next hs => simp only [hs]
  · simp at h

/-- To put a record where a hop leads changes nothing else. -/
theorem puts_replace (h : hop.LeadsTo record nested) (next : Record)
    : hop.Puts next record (record.replace hop next) := by
  have put (tag : Nat) (slot : Slot)
      : record.SameBut tag (record.putSlot tag slot)
        ∧ (record.putSlot tag slot).slot? tag = some slot :=
    ⟨sameBut_assign tag (some slot), slot?_assign_self tag (some slot)⟩
  cases hop with
  | field tag => exact ⟨(put tag _).1, (put tag _).2⟩
  | element tag index =>
      cases h with
      | found h =>
          cases h with
          | element h =>
              simp only [replace, slot?_of_element h]
              exact ⟨(put tag _).1, (put tag _).2⟩

/-- A singular field of records leads to a conforming one: the one that is set, or a new one. -/
theorem reach_field (built : schema.Built) (hc : record.Conforms schema) {tag : Nat}
    {field : Field} {name : String} (hf : record.type.field? tag = some field)
    (singular : field.isRepeated = false) (hk : field.kind = .message name)
    : ∃ nested,
        record.reach (.field tag) = .ok nested
        ∧ (Hop.field tag).LeadsTo record nested
        ∧ nested.Conforms schema := by
  cases hs : record.slot? tag with
  | none =>
      obtain ⟨type, ht⟩ := built.exists_message hc.here.typed hf hk
      obtain rfl := Schema.name_of_message? ht
      have made : make record.schema type.name = .ok (.empty schema type) := by
        rw [hc.here.ofSchema, make_eq_ok ht]
      have fresh := fresh_of_type hc.here.ofSchema hf hk ht
      exact ⟨.empty schema type, reach_unset hf singular hk hs made, .made hs fresh,
        empty_conforms ht⟩
  | some slot =>
      have hslot := hc.slot_of_field hs hf
      obtain ⟨value, rfl⟩ := hslot.exists_single singular
      have fits := hk ▸ (hslot.value (List.mem_singleton_self value)).fits
      obtain ⟨nested, rfl, _⟩ := fits.exists_record
      exact ⟨nested, reach_held hf singular hk hs, .found (.field hs),
        hc.inner (holds_of_slot? hs List.mem_cons_self)⟩

/-- An element of a repeated field of records is a conforming record. -/
theorem reach_element (hc : record.Conforms schema) {tag index : Nat} {field : Field}
    {name : String} (hf : record.type.field? tag = some field)
    (repeated : field.isRepeated = true) (hk : field.kind = .message name)
    (inRange : index < (record.elements tag).length)
    : ∃ nested,
        record.reach (.element tag index) = .ok nested
        ∧ (Hop.element tag index).LeadsTo record nested
        ∧ nested.Conforms schema := by
  have passed : ¬ (!field.isRepeated) = true := by simpa using repeated
  have here := List.getElem?_eq_getElem inRange
  have hs := slot?_of_element here
  have hm : (record.elements tag)[index] ∈ (Slot.repeated (record.elements tag)).values :=
    List.getElem_mem inRange
  obtain ⟨nested, he, _⟩ := (hk ▸ ((hc.slot_of_field hs hf).value hm).fits).exists_record
  rw [he] at here hm
  refine ⟨nested, ?_, .found (.element here), hc.inner (holds_of_slot? hs hm)⟩
  refine (access_passed hf passed _ _).trans
    ((bind_of_ok (messageKind_eq_ok hk) _).trans ?_)
  rw [here]
  rfl

/-- A hop that deserves an error is refused with it. -/
theorem reach_of_refused {error : RecordError} (h : hop.Refused record error)
    : record.reach hop = .error error := by
  cases h with
  | undeclared missing =>
      have unknown
          : record.fieldAt hop.tag = .error (.unknownField record.type.name hop.tag) := by
        simp only [fieldAt, missing]
      cases hop <;> exact bind_of_error unknown _
  | repeated hf repeated => exact access_refused hf repeated _ _
  | singular hf singular =>
      exact access_refused hf ((Bool.not_eq_true' _).mpr singular) _ _
  | @kind hop field hf suits h =>
      cases hop with
      | field tag =>
          exact (access_passed hf (Bool.eq_false_iff.mp suits) _ _).trans
            (bind_of_error (messageKind_eq_error h) _)
      | element tag index =>
          have passed : ¬ (!field.isRepeated) = true := by
            simpa [Hop.SuitsCardinality] using suits
          exact (access_passed hf passed _ _).trans (bind_of_error (messageKind_eq_error h) _)
  | @outOfRange tag index field name hf repeated hk beyond =>
      have passed : ¬ (!field.isRepeated) = true := by simpa using repeated
      refine (access_passed hf passed _ _).trans
        ((bind_of_ok (messageKind_eq_ok hk) _).trans ?_)
      rw [List.getElem?_eq_none beyond]
      rfl

/-- A hop fits, or it deserves an error. -/
theorem fits_or_refused (record : Record) (hop : Hop)
    : hop.Fits record ∨ ∃ error, hop.Refused record error := by
  cases hf : record.type.field? hop.tag with
  | none => exact .inr ⟨_, .undeclared hf⟩
  | some field =>
      cases hop with
      | field tag =>
          cases hrep : field.isRepeated with
          | true => exact .inr ⟨_, .repeated hf hrep⟩
          | false =>
              cases hm : field.kind.message? with
              | none => exact .inr ⟨_, .kind hf hrep hm⟩
              | some name =>
                  exact .inl ⟨field, name, hf, hrep, Kind.eq_message_of_message? hm, trivial⟩
      | element tag index =>
          cases hrep : field.isRepeated with
          | false => exact .inr ⟨_, .singular hf hrep⟩
          | true =>
              cases hm : field.kind.message? with
              | none => exact .inr ⟨_, .kind hf hrep hm⟩
              | some name =>
                  have hk := Kind.eq_message_of_message? hm
                  by_cases inRange : index < (record.elements tag).length
                  · exact .inl ⟨field, name, hf, hrep, hk, inRange⟩
                  · exact .inr ⟨_, .outOfRange hf hrep hk (Nat.not_lt.mp inRange)⟩

/-- A hop that fits leads somewhere, and another one is refused with the error that it deserves. -/
theorem reach_exact (built : schema.Built) (hc : record.Conforms schema) (hop : Hop)
    : (hop.Fits record
        ∧ ∃ nested,
            record.reach hop = .ok nested
            ∧ hop.LeadsTo record nested
            ∧ nested.Conforms schema)
      ∨ ∃ error, hop.Refused record error ∧ record.reach hop = .error error := by
  obtain fits | ⟨error, refused⟩ := record.fits_or_refused hop
  · refine .inl ⟨fits, ?_⟩
    obtain ⟨field, name, hf, suits, hk, inRange⟩ := fits
    cases hop with
    | field tag => exact reach_field built hc hf suits hk
    | element tag index => exact reach_element hc hf suits hk inRange
  · exact .inr ⟨error, refused, reach_of_refused refused⟩

-----------------------------------------------------------------------------------------
-- Paths
-----------------------------------------------------------------------------------------

/-- Every hop of a path can be taken from the record that the hops before it lead to. -/
inductive FitsPath : List Hop → Record → Prop
  | nil {record : Record} : FitsPath [] record
  | cons {hop : Hop} {rest : List Hop} {record nested : Record} (fits : hop.Fits record)
    (leads : hop.LeadsTo record nested) (below : FitsPath rest nested)
    : FitsPath (hop :: rest) record

/-- A path leads from a record, through records that are held, to another one. -/
inductive FindsAlong : List Hop → Record → Record → Prop
  | nil {record : Record} : FindsAlong [] record record
  | cons {hop : Hop} {rest : List Hop} {record nested target : Record}
    (finds : hop.Finds record nested) (below : FindsAlong rest nested target)
    : FindsAlong (hop :: rest) record target

/-- A path leads from a record to a target. Another record differs from this one in nothing but that
it has something else in the target's place, and that the hops to it are set.
-/
inductive Replaced (target next : Record) : List Hop → Record → Record → Prop
  | here : Replaced target next [] target next
  | hop {hop : Hop} {rest : List Hop} {record nested nested' changed : Record}
    (leads : hop.LeadsTo record nested) (below : Replaced target next rest nested nested')
    (puts : hop.Puts nested' record changed)
    : Replaced target next (hop :: rest) record changed

variable {α : Type} {path : List Hop}

/-- What is put where a hop leads is found there. -/
theorem finds_of_puts {changed : Record} (leads : hop.LeadsTo record nested)
    (puts : hop.Puts next record changed)
    : hop.Finds changed next := by
  have hs := puts.slot
  cases hop with
  | field tag => exact .field hs
  | element tag index =>
      cases leads with
      | found h =>
          cases h with
          | element h =>
              obtain ⟨inRange, _⟩ := List.getElem?_eq_some_iff.mp h
              simp only [Hop.tag, Hop.slotWith] at hs
              have listed
                  : changed.elements tag = (record.elements tag).set index (.message next) := by
                rw [elements, hs]
              exact .element (by simp [listed, inRange])

/-- The path to a record that has been replaced leads to what is in its place. -/
theorem Replaced.findsAlong {target changed : Record} (h : Replaced target next path record changed)
    : FindsAlong path changed next := by
  induction h with
  | here => exact .nil
  | hop leads _ puts ih => exact .cons (finds_of_puts leads puts) ih

/-- To put back what is held where a hop leads changes nothing. -/
theorem replace_of_finds (ascending : TagMap.Ascending record.slots)
    (finds : hop.Finds record nested)
    : record.replace hop nested = record := by
  have back {tag : Nat} {slot : Slot} (hs : record.slot? tag = some slot)
      : record.putSlot tag slot = record := by
    have same := assign_slot? ascending tag
    rwa [hs] at same
  cases finds with
  | field h => exact back h
  | element h =>
      obtain ⟨inRange, he⟩ := List.getElem?_eq_some_iff.mp h
      have hs := slot?_of_element h
      simp only [replace, hs, ← he, List.set_getElem_self]
      exact back hs

/-- A path whose hops fit leads to a record, which is acted on and replaced. -/
theorem actAt_of_fitsPath (built : schema.Built) (hc : record.Conforms schema)
    (fits : FitsPath path record) (act : Record → α × Record)
    : ∃ target,
        (actAt act path record).1 = .ok (act target).1
        ∧ Replaced target (act target).2 path record (actAt act path record).2 := by
  induction fits with
  | nil => exact ⟨_, rfl, .here⟩
  | @cons hop rest record nested fits leads below ih =>
      obtain ⟨_, reached, hr, leads', hn⟩ | ⟨error, refused, _⟩ := reach_exact built hc hop
      · obtain rfl := leads.unique leads'
        obtain ⟨target, answer, replaced⟩ := ih hn
        simp only [actAt, hr]
        exact ⟨target, answer, .hop leads replaced (puts_replace leads _)⟩
      · exact absurd fits (Hop.not_fits_of_refused refused)

/-- Along a path whose hops do not all fit, the first one that does not is refused. -/
theorem actAt_of_not_fitsPath (built : schema.Built) (hc : record.Conforms schema)
    (unfit : ¬ FitsPath path record) (act : Record → α × Record)
    : ∃ front hop back target error,
        path = front ++ hop :: back
        ∧ hop.Refused target error
        ∧ (actAt act path record).1 = .error error
        ∧ Replaced target target front record (actAt act path record).2
        ∧ (FindsAlong front record target → (actAt act path record).2 = record) := by
  induction path generalizing record with
  | nil => exact absurd .nil unfit
  | cons hop rest ih =>
      obtain ⟨fits, nested, hr, leads, hn⟩ | ⟨error, refused, hr⟩ := reach_exact built hc hop
      · obtain ⟨front, last, back, target, error, rfl, refused, answer, replaced, same⟩ :=
          ih hn (fun below => unfit (.cons fits leads below))
        simp only [actAt, hr]
        refine ⟨hop :: front, last, back, target, error, rfl, refused, answer,
          .hop leads replaced (puts_replace leads _), fun finds => ?_⟩
        cases finds with
        | cons found below =>
            obtain rfl := leads.unique (.found found)
            rw [same below, replace_of_finds hc.here.ascending found]
      · have stopped : actAt act (hop :: rest) record = (.error error, record) := by
          simp only [actAt, hr]
        rw [stopped]
        exact ⟨[], hop, rest, record, error, rfl, refused, rfl, .here, fun _ => rfl⟩

/-- On a record that a program can come by, a path can be followed exactly if each of its hops fits.
Then the record at its end is acted on and replaced, nothing else is changed but that the hops are
set, and the path leads to what has been put there. Otherwise the first hop that does not fit is
refused, and nothing has changed but that the hops before it are set.
-/
theorem actAt_exact (built : schema.Built) (h : record.Reachable schema)
    (act : Record → α × Record) (path : List Hop)
    : ((∃ answer, (actAt act path record).1 = .ok answer) ↔ FitsPath path record)
      ∧ (∀ answer,
          (actAt act path record).1 = .ok answer
          → ∃ target,
              answer = (act target).1
              ∧ Replaced target (act target).2 path record (actAt act path record).2
              ∧ FindsAlong path (actAt act path record).2 (act target).2)
      ∧ ∀ error,
          (actAt act path record).1 = .error error
          → ∃ front hop back target,
              path = front ++ hop :: back
              ∧ hop.Refused target error
              ∧ ¬ hop.Fits target
              ∧ Replaced target target front record (actAt act path record).2
              ∧ (FindsAlong front record target → (actAt act path record).2 = record) := by
  by_cases fits : FitsPath path record
  · obtain ⟨target, answer, replaced⟩ := actAt_of_fitsPath built h.conforms fits act
    rw [answer]
    refine ⟨⟨fun _ => fits, fun _ => ⟨_, rfl⟩⟩, fun found same => ?_, nofun⟩
    exact ⟨target, (Except.ok.inj same).symm, replaced, replaced.findsAlong⟩
  · obtain ⟨front, hop, back, target, error, split, refused, answer, replaced, same⟩ :=
      actAt_of_not_fitsPath built h.conforms fits act
    rw [answer]
    refine ⟨⟨nofun, fun fits' => absurd fits' fits⟩, nofun, fun error' he => ?_⟩
    obtain rfl := Except.error.inj he
    exact ⟨front, hop, back, target, split, refused, Hop.not_fits_of_refused refused, replaced,
      same⟩

end Record

namespace AddressBook

/-- Whether nothing is set in a record. -/
def look (record : Record) : Bool × Record := (record.isEmpty, record)

/-- A look at the household beyond the one next door sets it, and nothing is set in it. From there a
hop into its sorts, which are not records, is refused.
-/
theorem actAt_exact_neighbours
    : neighbours.Reachable (street true)
      ∧ Record.FitsPath [.field 2, .field 2] neighbours
      ∧ (∃ beyond : Record,
          true = beyond.isEmpty
          ∧ Record.FindsAlong [.field 2, .field 2]
              (neighbours.actAt look [.field 2, .field 2]).2 beyond)
      ∧ ∃ (front back : List Hop) (hop : Hop) (beyond : Record),
          [.field 2, .field 2, .element 1 0] = front ++ hop :: back
          ∧ hop.Refused beyond (.mismatch (household true).name "types"
              (.enum phoneType.name) (.kind "message")) := by
  obtain ⟨fits, replaced, _⟩ := Record.actAt_exact (street_built true) reachable_neighbours look
    [.field 2, .field 2]
  obtain ⟨_, _, refused⟩ := Record.actAt_exact (street_built true) reachable_neighbours look
    [.field 2, .field 2, .element 1 0]
  obtain ⟨beyond, empty, _, found⟩ := replaced true rfl
  obtain ⟨front, hop, back, last, split, deserved, _⟩ := refused _ rfl
  exact ⟨reachable_neighbours, fits.mp ⟨true, rfl⟩, ⟨beyond, empty, found⟩, front, back, hop, last,
    split, deserved⟩

end AddressBook

end TagWire
