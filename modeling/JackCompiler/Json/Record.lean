import JackCompiler.Json.Value
/-!
# Lists and records in JSON

Items and fields have commas between them, and none behind the last. A record gives its fields by
name in any order, each at most once, with any others between; or it is a list of all its fields in
their order.
-/

namespace JackCompiler.Json

namespace Reading

/-- Whether a list goes on with an item. The bracket that closes it is not taken. -/
def hasItem (first : Bool) : Reading Bool := do
  let c ← front
  if c = ']' then return false
  else if first then return true
  else
    expect ','
    if (← front) = ']' then throw .malformed else return true

/-- Takes items up to the bracket that closes their list. They stand last first. -/
def itemsWithin {α : Type} (item : Reading α) : List Char → Bool → List α → Reading (List α)
  | [], _, _ => throw .truncated
  | _ :: bound, first, done => do
    if ← hasItem first then
      let a ← item
      itemsWithin item bound false (a :: done)
    else return done

/-- Takes a list. Every item takes at least one character, so the text bounds their number. -/
def list {α : Type} (item : Reading α) : Reading (List α) := do
  if (← front) = '[' then
    expect '['
    let items ← itemsWithin item (← get) true []
    expect ']'
    return items.reverse
  else refuse

/-- Takes the name of the next field, if a record goes on. The bracket that closes it is not
taken. -/
def name? (first : Bool) : Reading (Option String) := do
  let c ← front
  if c = '}' then return none
  else
    if !first then expect ','
    if (← front) = '"' then return some (← quotation) else throw .malformed

end Reading

/-- A field of a record that is read into a draft. -/
structure FieldReading (δ : Type) where
  name : String
  /-- Whether the draft has the field. -/
  isGiven : δ → Bool
  /-- Puts the field into the draft. -/
  read : δ → Reading δ

namespace Reading

variable {δ : Type}

/-- Takes fields by their names. -/
def namedFields (fields : List (FieldReading δ)) : List Char → Bool → δ → Reading δ
  | [], _, _ => throw .truncated
  | _ :: bound, first, draft => do
    match ← name? first with
    | none => return draft
    | some name =>
      match fields.find? (·.name = name) with
      | none =>
        expect ':'
        skip
        namedFields fields bound false draft
      | some field =>
        if field.isGiven draft then throw .mismatch
        else
          expect ':'
          namedFields fields bound false (← field.read draft)

/-- Takes all fields in their order. -/
def orderedFields : List (FieldReading δ) → Bool → δ → Reading δ
  | [], _, draft => return draft
  | field :: fields, first, draft => do
    if ← hasItem first then orderedFields fields false (← field.read draft)
    else throw .mismatch

/-- Takes a record. Every field takes at least one character, so the text bounds their number. A
draft that lacks a field is refused in front of the bracket that closes it. -/
def record {α : Type} (fields : List (FieldReading δ)) (blank : δ) (finish : δ → Option α) :
    Reading α := do
  let c ← front
  if c = '[' then
    expect '['
    let draft ← orderedFields fields true blank
    expect ']'
    match finish draft with
    | some a => return a
    | none => throw .mismatch
  else if c = '{' then
    expect '{'
    match finish (← namedFields fields (← get) true blank) with
    | some a =>
      expect '}'
      return a
    | none => throw .mismatch
  else refuse

end Reading

end JackCompiler.Json
