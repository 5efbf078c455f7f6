import TagWire.Record.Basic

/-!
Required fields that are unset, here and in nested records. A missing field is reported by the
path that leads to it; nothing is reported below a field that is unset.
-/

namespace TagWire

/-- One part of a path: a field, or an element of a repeated field. -/
inductive PathStep where
  | field (name : String)
  | index (index : Nat)
  deriving DecidableEq, Repr

/-- Where something stands in a tree of records, from the outermost record inwards. -/
abbrev Position := List PathStep

/-- A path as text: names joined by dots, indices in brackets. There is no dot before a name while
the text is still empty. -/
def Position.text (position : Position) : String :=
  position.foldl (fun text step =>
    match step with
    | .field name => if text.isEmpty then name else text ++ "." ++ name
    | .index index => text ++ s!"[{index}]") ""

mutual

/-- What is missing in the record that a value may be. -/
def Value.missing : Value → List Position
  | .scalar _ => []
  | .message record => record.missing

/-- What is missing in the records of a slot, by element if it is repeated. -/
def Slot.missing : Slot → List Position
  | .single value => value.missing
  | .repeated values => missingFrom 0 values

/-- What is missing in the records of a list whose first index is given. -/
def missingFrom (index : Nat) : List Value → List Position
  | [] => []
  | value :: rest =>
      value.missing.map (fun position => .index index :: position) ++ missingFrom (index + 1) rest

/-- What is missing in the records of each slot. -/
def missingSlots : List (Nat × Slot) → List (Nat × List Position)
  | [] => []
  | (tag, slot) :: rest => (tag, slot.missing) :: missingSlots rest

/-- The positions of the required fields that are unset, in declaration order. -/
def Record.missing : Record → List Position
  | ⟨_, type, slots, _⟩ =>
      let nested := missingSlots slots
      type.fields.flatMap (fun field =>
        match TagMap.find? slots field.tag with
        | none => if field.isRequired then [[.field field.name]] else []
        | some (.repeated _) =>
            if field.kind.isMessage then
              ((TagMap.find? nested field.tag).getD []).map (.field field.name :: ·)
            else []
        | some (.single _) =>
            ((TagMap.find? nested field.tag).getD []).map (.field field.name :: ·))

end

/-- Put a text into an ascending list, unless it is there already. -/
def insertText (text : String) : List String → List String
  | [] => [text]
  | other :: rest =>
      if text = other then other :: rest
      else if text < other then text :: other :: rest
      else other :: insertText text rest

namespace Record

/-- The paths of the required fields that are unset, each once, in ascending order. -/
def missingPaths (record : Record) : List String :=
  (record.missing.map Position.text).foldr insertText []

/-- Whether no required field is unset. -/
def isComplete (record : Record) : Bool := record.missingPaths.isEmpty

end Record

end TagWire
