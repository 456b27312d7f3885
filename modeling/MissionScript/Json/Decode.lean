import MissionScript.Json.Document

/-!
# MissionScript.Json.Decode

Typed reading of JSON. A decoder takes the value that a document holds, or reports the first fault
that a reader meets that goes through the text from left to right.

Records are read by a list of `Field`s. A record may be given as an object, whose members stand in
any order and among which unknown keys are skipped, or as a list of the values of its fields in the
order in which they are declared.
-/

namespace MissionScript

/-! ### Ends of lists and objects -/

/-- What a reader meets that wants a list or object to go on. -/
def Ending.check : Ending → Except JsonFault Unit
  | .closed => .ok ()
  | .broken _ wanted _ => .error wanted

/-- What a reader meets that wants a list or object to be closed here: a comma is as wrong as any
other character. -/
def Ending.checkClosed : Ending → Except JsonFault Unit
  | .closed => .ok ()
  | .broken true _ _ => .error .malformed
  | .broken false wanted _ => .error wanted

namespace Document

/-! ### Scalars -/

/-- The value that `pick` finds, or the fault that a reader meets instead. -/
def want (pick : Document → Option α) : Document → Except JsonFault α
  | .misspelt wanted _ | .broken wanted _ => .error wanted
  | d => match pick d with
    | some a => .ok a
    | none => .error .mismatch

/-- Decodes an integer from `least` to `greatest`. -/
def toInt (least greatest : Int) : Document → Except JsonFault Int :=
  want fun
    | .int n => if least ≤ n ∧ n ≤ greatest then some n else none
    | _ => none

/-- Decodes a natural number below `bound`. -/
def toNat (bound : Nat) : Document → Except JsonFault Nat :=
  want fun
    | .int n => if 0 ≤ n ∧ n < bound then some n.toNat else none
    | _ => none

/-- Decodes a truth value. -/
def toBool : Document → Except JsonFault Bool :=
  want fun
    | .bool b => some b
    | _ => none

/-- Decodes a text. -/
def toText : Document → Except JsonFault String :=
  want fun
    | .text s => some s
    | _ => none

/-- Decodes a value that may be given as `null`. -/
def toOption (decode : Document → Except JsonFault α) : Document → Except JsonFault (Option α)
  | .null => .ok none
  | d => (decode d).map some

/-! ### Lists -/

/-- Decodes a list. -/
def toList (decode : Document → Except JsonFault α) : Document → Except JsonFault (List α)
  | .array items ending => do
    let as ← items.mapM decode
    ending.check
    return as
  | .misspelt wanted _ | .broken wanted _ => .error wanted
  | _ => .error .mismatch

/-! ### Alternatives -/

/-- Decodes a value that is given as an object with a single member, whose key selects the
decoder of the value. -/
def toTagged (select : String → Option (Document → Except JsonFault α)) :
    Document → Except JsonFault α
  | .object ((some key, value) :: members) ending =>
    match select key with
    | none => .error .mismatch
    | some decode => do
      let a ← decode value
      if members.isEmpty then
        ending.checkClosed
        return a
      else .error .malformed
  | .object ((none, _) :: _) _ | .object [] .closed => .error .malformed
  | .object [] (.broken _ wanted _) => .error wanted
  | .text _ => .error .mismatch
  | .broken wanted _ => .error wanted
  | _ => .error .malformed

/-- Decodes one of a fixed set of names, given as a text or as an object with the name as its only
key and `null` as its value. -/
def toName (named : String → Option α) : Document → Except JsonFault α
  | .text s => match named s with
    | some a => .ok a
    | none => .error .mismatch
  | d => toTagged (fun key => (named key).map fun a =>
      want fun
        | .null => some a
        | _ => none) d

/-! ### Records -/

/-- A field of a record under construction: its key, whether it has been given, and how its value
is read. -/
structure Field (σ : Type) where
  key : String
  given : σ → Bool
  read : Document → σ → Except JsonFault σ

/-- Reads the members of an object into a record. A known key may be given once; the value of an
unknown key is skipped. -/
def readFields (fields : List (Field σ)) :
    List (Option String × Document) → σ → Except JsonFault σ
  | [], record => .ok record
  | (none, _) :: _, _ => .error .malformed
  | (some key, value) :: members, record =>
    match fields.find? (·.key == key) with
    | none =>
      match value.skipFault? with
      | some fault => .error fault
      | none => readFields fields members record
    | some field =>
      if field.given record then .error .mismatch
      else do readFields fields members (← field.read value record)

/-- Reads the items of a list into the fields of a record, in order. Fields at the end may be left
out, but there may be no item too many. -/
def readPositions : List (Field σ) → List Document → Ending → σ → Except JsonFault σ
  | [], [], ending, record => do ending.checkClosed; return record
  | [], _ :: _, _, _ => .error .malformed
  | _ :: _, [], ending, record => do ending.check; return record
  | field :: fields, item :: items, ending, record => do
    readPositions fields items ending (← field.read item record)

/-- Decodes a record: starts with `blank`, reads the fields that are given, and lets `finish` fill
in what is left out. -/
def toRecord (fields : List (Field σ)) (blank : σ) (finish : σ → Option α) :
    Document → Except JsonFault α
  | .object members ending => do
    let record ← readFields fields members blank
    ending.check
    match finish record with
    | some a => return a
    | none => .error .mismatch
  | .array items ending => do
    let record ← readPositions fields items ending blank
    match finish record with
    | some a => return a
    | none => .error .mismatch
  | .misspelt wanted _ | .broken wanted _ => .error wanted
  | _ => .error .mismatch

/-! ### Whole texts -/

/-- Decodes the value that a text holds. Nothing but blanks may follow it. -/
def decodeText (decode : Document → Except JsonFault α) (s : String) : Except JsonFault α := do
  let (document, rest) := read s
  let a ← decode document
  if (skipSpace rest).isEmpty then return a else .error .malformed

end Document

end MissionScript
