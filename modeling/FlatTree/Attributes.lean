import FlatTree.Number.Scalar

/-!
The file attributes a request may carry. A set of flags says which fields were sent; only the size
is ever acted on, and all values are kept as they were given. Attributes are built from named values
in two ways: `Attributes.ofValues` raises the flag of each field given, `Attributes.ofFields` takes
the flags as one more field.
-/

namespace FlatTree

structure Attributes where
  flags : Nat := 0
  size : Quantity := some (.whole 0)
  uid : Quantity := some (.whole 0)
  gid : Quantity := some (.whole 0)
  permissions : Quantity := some (.whole 0)
  atime : Quantity := some (.whole 0)
  mtime : Quantity := some (.whole 0)
  deriving DecidableEq, Inhabited

/-- Why attributes cannot be built from named values. -/
inductive AttributeFault where
  /-- There is no field of this name. -/
  | unknownField (name : String)
  /-- The flags are given although the fields decide them. -/
  | flagsGiven
  /-- The number given for the flags stands for no set of flags. -/
  | notFlags (value : Quantity)
  deriving DecidableEq

namespace Attributes

/-- The fields that values can be given for. -/
inductive Field where
  | size
  | uid
  | gid
  | permissions
  | atime
  | mtime
  deriving DecidableEq

namespace Field

def ofName? : String → Option Field
  | "size" => some .size
  | "uid" => some .uid
  | "gid" => some .gid
  | "permissions" => some .permissions
  | "atime" => some .atime
  | "mtime" => some .mtime
  | _ => none

/-- The flag that announces the field. Owner and group share one, and so do the two times. -/
def flag : Field → Nat
  | .size => 1
  | .uid | .gid => 2
  | .permissions => 4
  | .atime | .mtime => 8

end Field

def set (field : Field) (value : Quantity) (attributes : Attributes) : Attributes :=
  match field with
  | .size => { attributes with size := value }
  | .uid => { attributes with uid := value }
  | .gid => { attributes with gid := value }
  | .permissions => { attributes with permissions := value }
  | .atime => { attributes with atime := value }
  | .mtime => { attributes with mtime := value }

/-- Whether a size was sent: the lowest flag. -/
def hasSize (attributes : Attributes) : Bool :=
  attributes.flags.testBit 0

/-- How many bits the flags with a meaning take. -/
def flagBits : Nat := 4

/-- The flags that a number stands for. Unknown bits are kept. A negative number counts back from
the power of two above the known flags or, where it reaches below that, above its own bits. -/
def flagsOfInt (n : Int) : Nat :=
  let known : Int := power 2 flagBits
  if 0 ≤ n then n.toNat
  else if -known ≤ n then (known + n).toNat
  else
    let own : Int := power 2 (Nat.log2 n.natAbs + 1)
    (max known own + n).toNat

/-- The flags that a quantity stands for. A floating number stands for a flag that it equals, or for
none if it is zero, but for no set of several. -/
def flagsOf : Quantity → Except AttributeFault Nat
  | some (.whole n) => .ok (flagsOfInt n)
  | value =>
      match [0, 1, 2, 4, 8].find? fun flag => value.any (·.eq (.whole (Int.ofNat flag))) with
      | some flag => .ok flag
      | none => .error (.notFlags value)

/-- Attributes with the flag of every given field raised. The last of several values of one field
counts. -/
def ofValues (values : List (String × Quantity)) : Except AttributeFault Attributes :=
  if values.any (·.1 == "flags") then .error .flagsGiven
  else
    values.foldlM
      (fun attributes (name, value) =>
        match Field.ofName? name with
        | none => .error (.unknownField name)
        | some field =>
            .ok { set field value attributes with flags := attributes.flags ||| field.flag })
      ({} : Attributes)

/-- Attributes with the fields as given, the flags among them. -/
def ofFields (fields : List (String × Quantity)) : Except AttributeFault Attributes := do
  let flags ← match fields.reverse.lookup "flags" with
    | some value => flagsOf value
    | none => pure 0
  (fields.filter (·.1 != "flags")).foldlM
    (fun attributes (name, value) =>
      match Field.ofName? name with
      | none => .error (.unknownField name)
      | some field => .ok (set field value attributes))
    ({ flags } : Attributes)

end Attributes

end FlatTree
