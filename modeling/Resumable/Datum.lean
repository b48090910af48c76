/-!
# Plain data

The shape of structured data that comes from outside: a configuration, or a stored
diagnostic. The readers return `none` for data of another shape.
-/

namespace Resumable

/-- A value of plain data. A number is `mantissa / 10 ^ decimals`, as it was written. -/
inductive Datum where
  | null
  | bool (value : Bool)
  | number (mantissa : Int) (decimals : Nat)
  | text (value : String)
  | list (items : List Datum)
  | record (fields : List (String × Datum))
  deriving Inhabited

namespace Datum

def asText? : Datum → Option String
  | .text value => some value
  | _ => none

def asBool? : Datum → Option Bool
  | .bool value => some value
  | _ => none

/-- A natural number of 32 bits, written without decimals. -/
def asWord? : Datum → Option Nat
  | .number (.ofNat value) 0 => if value < UInt32.size then some value else none
  | _ => none

/-- The parts of a structured value. A record names them itself; a list gives them in the order
of `names`, of which it may leave out the last ones but go beyond none. -/
def fields? (names : List String) : Datum → Option (List (String × Datum))
  | .record fields => some fields
  | .list items => if items.length ≤ names.length then some (names.zip items) else none
  | _ => none

/-- Reads a field that has to be there. -/
def required (fields : List (String × Datum)) (name : String) (read : Datum → Option α) :
    Option α :=
  fields.lookup name >>= read

/-- Reads a field that has a default; a field of another shape is still refused. -/
def optional (fields : List (String × Datum)) (name : String) (read : Datum → Option α)
    (default : α) : Option α :=
  match fields.lookup name with
  | some value => read value
  | none => some default

end Datum

end Resumable
