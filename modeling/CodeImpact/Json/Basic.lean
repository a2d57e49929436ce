import CodeImpact.Text.Number

/-!
# JSON values

The values of the interchange format. A number is an integer if it is written without fraction and
exponent and fits in 64 bits; any other number is kept as written. Objects keep the order and the
repetitions of their fields.
-/

namespace CodeImpact

/-- A JSON value. -/
inductive Json
  | null
  | bool (b : Bool)
  | int (n : Int)
  /-- A number that is no 64-bit integer. -/
  | real (text : String)
  | str (s : String)
  | arr (items : List Json)
  | obj (fields : List (String × Json))
  deriving Repr, Inhabited

namespace Json

def nat (n : Nat) : Json :=
  .int n

def texts (l : List String) : Json :=
  .arr (l.map .str)

/-- The value, or null. -/
def orNull (v : Option Json) : Json :=
  v.getD .null

/-- A field that is left out if it has no value. -/
def optionalField (name : String) (v : Option Json) : List (String × Json) :=
  (v.map fun v => (name, v)).toList

/-- The value of a field; the last one counts if the field is repeated. -/
def field? (name : String) : Json → Option Json
  | .obj fields => (fields.reverse.find? fun f => f.1 = name).map (·.2)
  | _ => none

def asText? : Json → Option String
  | .str s => some s
  | _ => none

def asBool? : Json → Option Bool
  | .bool b => some b
  | _ => none

/-- A number of 64 bits without sign. -/
def asNat? : Json → Option Nat
  | .int n => if 0 ≤ n ∧ n < Text.wordBound then some n.toNat else none
  | _ => none

def asList? : Json → Option (List Json)
  | .arr items => some items
  | _ => none

/-- A list of values that all decode. -/
def listOf? {α : Type} (decode : Json → Option α) (v : Json) : Option (List α) :=
  v.asList?.bind fun items => items.mapM decode

/-- The value of a field that has to be there. -/
def required? {α : Type} (name : String) (decode : Json → Option α) (v : Json) : Option α :=
  (v.field? name).bind decode

/-- The value of a field that may be absent or null. -/
def optional? {α : Type} (name : String) (decode : Json → Option α) (v : Json) :
    Option (Option α) :=
  match v.field? name with
  | none | some .null => some none
  | some value => (decode value).map some

end Json

end CodeImpact
