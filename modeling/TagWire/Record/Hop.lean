import TagWire.Record.Access

/-!
Going into nested records and acting there. A hop leads from a record to one nested in it. Going
through an unset message field sets it, to an empty record, and it stays set whatever happens
further on.
-/

namespace TagWire

/-- A step from a record into a nested one. -/
inductive Hop where
  /-- Into the record of a singular field. -/
  | field (tag : Nat)
  /-- Into an element of a repeated field. -/
  | element (tag : Nat) (index : Nat)
  deriving DecidableEq, Repr

namespace Record

/-- The record that a hop leads to; an empty one if a singular field is unset. -/
def reach (record : Record) : Hop → Except RecordError Record
  | .field tag => do
      let field ← record.fieldAt tag
      if field.isRepeated then throw (record.wrongCardinality field .addMessage)
      let type ← record.messageKind field
      match record.slot? tag with
      | none => make record.schema type
      | some (.single (.message nested)) => return nested
      | some _ => throw (record.wrongKind field (.kind "message"))
  | .element tag index => do
      let field ← record.fieldAt tag
      if !field.isRepeated then throw (record.wrongCardinality field .messageAt)
      let _ ← record.messageKind field
      match (record.elements tag)[index]? with
      | some (.message nested) => return nested
      | _ =>
          throw (.indexOutOfRange record.type.name field.name index (record.elements tag).length)

/-- Put a record where a hop leads. -/
def replace (record : Record) (hop : Hop) (nested : Record) : Record :=
  match hop with
  | .field tag => record.putSlot tag (.single (.message nested))
  | .element tag index =>
      match record.slot? tag with
      | some (.repeated values) =>
          record.putSlot tag (.repeated (values.set index (.message nested)))
      | _ => record

/-- Act on the record at the end of a path, and put back what becomes of it. The answer is an
error if a hop fails; the hops before that one have been taken. -/
def actAt {α : Type} (act : Record → α × Record)
    : List Hop → Record → Except RecordError α × Record
  | [], record =>
      let (answer, record) := act record
      (.ok answer, record)
  | hop :: rest, record =>
      match record.reach hop with
      | .error cause => (.error cause, record)
      | .ok nested =>
          let (answer, nested) := actAt act rest nested
          (answer, record.replace hop nested)

/-- An operation that may refuse, as an action that then leaves the record alone. -/
def attempt {ε : Type} (operation : Record → Except ε Record) (record : Record)
    : Except ε Unit × Record :=
  match operation record with
  | .ok changed => (.ok (), changed)
  | .error cause => (.error cause, record)

end Record

end TagWire
