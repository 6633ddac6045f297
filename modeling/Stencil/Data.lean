/-
Structured data as a source of variables.

A `Data` is a tree of the kinds that data formats know: scalars, optional values, sequences,
records, variants of enumerations, and maps, which are given as the calls that build them, keys and
values one by one. Variables come from a map or a record whose keys are texts and whose values are
scalars; everything else is refused with the reason, a `Data.Fault`.
-/
import Stencil.Error
import Stencil.Variables

namespace Stencil

/-- What a part of a map is given as. -/
inductive Role where
  | key
  | value
  deriving Repr, DecidableEq

inductive Data where
  | bool (b : Bool)
  | signed (n : Int64)
  | unsigned (n : UInt64)
  /-- An integer of 128 bits, with or without a sign. -/
  | wide (isSigned : Bool)
  | float (x : Float)
  | char (c : Char)
  | text (s : String)
  | bytes (content : List UInt8)
  | none
  | some (inner : Data)
  | unit
  | emptyRecord (name : String)
  | plainVariant (enumeration variant : String)
  /-- A type of its own around another value. -/
  | wrapper (name : String) (inner : Data)
  | wrappedVariant (enumeration variant : String) (inner : Data)
  | sequence (items : List Data)
  | tuple (items : List Data)
  | positionalRecord (name : String) (items : List Data)
  | positionalVariant (enumeration variant : String) (items : List Data)
  | map (calls : List (Role × Data))
  | record (name : String) (fields : List (String × Data))
  | recordVariant (enumeration variant : String) (fields : List (String × Data))

namespace Data

/-- Data that is no scalar. -/
inductive Compound where
  | bytes
  | variant
  | sequence
  | tuple
  | positionalRecord
  | map
  | record
  deriving Repr, DecidableEq

def Compound.name : Compound → String
  | .bytes => "bytes"
  | .variant => "enum variant"
  | .sequence => "sequence"
  | .tuple => "tuple"
  | .positionalRecord => "tuple struct"
  | .map => "map"
  | .record => "struct"

/-- Why data gives no variables. -/
inductive Fault where
  | notAMap
  | keyIsNoText
  | notScalar (found : Compound)
  | outOfRange
  | unsupported (isSigned : Bool)
  | valueWithoutKey
  deriving Repr, DecidableEq

def Fault.message : Fault → String
  | .notAMap => "variables must be serialized from a struct or map"
  | .keyIsNoText => "map key must be a string"
  | .notScalar found => "variable value must be a scalar, found " ++ found.name
  | .outOfRange => "out of range integral type conversion attempted"
  | .unsupported isSigned => (if isSigned then "i128" else "u128") ++ " is not supported"
  | .valueWithoutKey => "serialize_value called before serialize_key"

/-- The text of a key: of a text, a character, an integer or a variant without content, also within
wrappers, but not of an optional one. -/
def key : Data → Except Fault String
  | .text s => .ok s
  | .char c => .ok c.toString
  | .signed n => .ok (toString n.toInt)
  | .unsigned n => .ok (toString n.toNat)
  | .plainVariant _ variant => .ok variant
  | .wrapper _ inner => inner.key
  | .wide isSigned => .error (.unsupported isSigned)
  | _ => .error .keyIsNoText

/-- The value of a scalar, also within wrappers and optional ones. What has no content is an empty
preformatted text. -/
def value : Data → Except Fault Value
  | .bool b => .ok (.bool b)
  | .signed n => .ok (.integer n)
  | .unsigned n =>
    match narrow? n.toNat with
    | .some n => .ok (.integer n)
    | .none => .error .outOfRange
  | .wide isSigned => .error (.unsupported isSigned)
  | .float x => .ok (.float x)
  | .char c => .ok (.string c.toString)
  | .text s => .ok (.string s)
  | .none | .unit | .emptyRecord _ => .ok (.formatted "")
  | .plainVariant _ variant => .ok (.string variant)
  | .some inner => inner.value
  | .wrapper _ inner => inner.value
  | .bytes _ => .error (.notScalar .bytes)
  | .wrappedVariant .. | .positionalVariant .. | .recordVariant .. => .error (.notScalar .variant)
  | .sequence _ => .error (.notScalar .sequence)
  | .tuple _ => .error (.notScalar .tuple)
  | .positionalRecord .. => .error (.notScalar .positionalRecord)
  | .map _ => .error (.notScalar .map)
  | .record .. => .error (.notScalar .record)

/-- A map as far as it is built: its variables, and the key that waits for a value. -/
structure Pairing where
  vars : Variables := default
  pending? : Option String := .none

/-- A key replaces one that still waits; a value uses the key up. -/
def Pairing.call (p : Pairing) : Role × Data → Except Fault Pairing
  | (.key, d) => do
    let name ← d.key
    return { p with pending? := .some name }
  | (.value, d) =>
    match p.pending? with
    | .none => throw .valueWithoutKey
    | .some name => do
      let v ← d.value
      return ⟨p.vars.insert name v, .none⟩

/-- The variables that the calls build. A key that waits at the end is dropped. -/
def build (calls : List (Role × Data)) : Except Fault Variables := do
  let p ← calls.foldlM Pairing.call {}
  return p.vars

/-- The calls for one field of a record. -/
def fieldCalls (field : String × Data) : List (Role × Data) :=
  [(.key, .text field.1), (.value, field.2)]

/-- The variables of a map or a record, also within wrappers and optional ones. -/
def toVariables : Data → Except Fault Variables
  | .map calls => build calls
  | .record _ fields => build (fields.flatMap fieldCalls)
  | .some inner => inner.toVariables
  | .wrapper _ inner => inner.toVariables
  | .wide isSigned => .error (.unsupported isSigned)
  | _ => .error .notAMap

/-- A value as data. A preformatted text is a text. -/
def ofValue : Value → Data
  | .bool b => .bool b
  | .integer n => .signed n
  | .float x => .float x
  | .string s | .formatted s => .text s

/-- Variables as a map. -/
def ofVariables (vars : Variables) : Data :=
  .map (vars.entries.flatMap fun e => fieldCalls (e.1, ofValue e.2))

end Data

/-- The variables that data holds. -/
def Variables.ofData (d : Data) : Except Error Variables :=
  d.toVariables.mapError fun fault => .other fault.message

end Stencil
