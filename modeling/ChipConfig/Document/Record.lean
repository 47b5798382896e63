import ChipConfig.Json.Value

/-!
# Records in documents

A record has members of fixed names.  A document writes it as an object, in any order and perhaps
with members nobody knows, or as a list of the members in their order, from which the last ones may
be missing.  A member that is known must not occur twice.
-/

namespace ChipConfig.Document

/-- How deep lists and objects of a document may nest, as far as anybody looks at them. -/
def maxDepth : Nat := 127

/-- The value of the only member of a name, or nothing if there is no such member. -/
def member? (members : List (String × Json)) (name : String) : Option (Option Json) :=
  match members.filter fun member ↦ member.1 = name with
  | [] => some none
  | [member] => some (some member.2)
  | _ => none

def keyed? (members : List (Json.Written × Json)) : Option (List (String × Json)) :=
  members.mapM fun member ↦ member.1.text?.map fun key ↦ (key, member.2)

/-- The members of a record in the order of their names. -/
def record? (names : List String) : Json → Option (List (Option Json))
  | .object members => do
    let members ← keyed? members
    names.mapM (member? members)
  | .list items =>
    if items.length ≤ names.length then
      some (items.map some ++ List.replicate (names.length - items.length) none)
    else
      none
  | _ => none

def text? : Json → Option String
  | .text written => written.text?
  | _ => none

/-- The text of a member that may be missing or null. -/
def optionalText? : Option Json → Option (Option String)
  | none => some none
  | some .null => some none
  | some json => (text? json).map some

def items? : Json → Option (List Json)
  | .list items => some items
  | _ => none

def natural? (bound : Nat) : Json → Option Nat
  | .number number => number.natural? bound
  | _ => none

def ofText (text : String) : Json :=
  .text (Json.Written.ofText text)

def ofOptionalText : Option String → Json
  | none => .null
  | some text => ofText text

def ofNat (n : Nat) : Json :=
  .number (Json.Number.ofNat n)

def ofRecord (members : List (String × Json)) : Json :=
  .object (members.map fun member ↦ (Json.Written.ofText member.1, member.2))

end ChipConfig.Document
