import DecoderForge.Json.Number

/-!
# DecoderForge — equality of values under validation

Values are compared by what they mean: `1` and `1.0` are the same number.  Objects are the same only
with their members in the same order.

* `Json.sameValue` — equality of values.
* `Json.allDistinct` — whether no value occurs twice in a list.
-/

namespace DecoderForge.Json

mutual

/-- Whether two values are the same. -/
def sameValue : Json → Json → Bool
  | .null, .null => true
  | .bool a, .bool b => a == b
  | .num m, .num n => Number.compare m n == .eq
  | .str s, .str t => s == t
  | .arr as, .arr bs => sameItems as bs
  | .obj as, .obj bs => sameMembers as bs
  | _, _ => false

/-- Whether two lists hold the same values. -/
def sameItems : List Json → List Json → Bool
  | [], [] => true
  | a :: as, b :: bs => sameValue a b && sameItems as bs
  | _, _ => false

/-- Whether two lists hold the same members in the same order. -/
def sameMembers : List (String × Json) → List (String × Json) → Bool
  | [], [] => true
  | (k, a) :: as, (l, b) :: bs => k == l && sameValue a b && sameMembers as bs
  | _, _ => false

end

/-! ## Constants -/

/-- Whether two numbers, taken as floats, are closer than one unit in the last place of one. -/
def Number.isNear (m n : Number) : Bool :=
  match m.toBinary64.sub n.toBinary64 with
  | some d => d.abs.compare Binary64.epsilon == .lt
  | none => false

/-- Whether a value equals a constant.  A constant that is a number has a tolerance. -/
def equalsConstant (constant value : Json) : Bool :=
  match constant, value with
  | .num m, .num n => m.isNear n
  | _, _ => sameValue constant value

/-! ## Distinctness -/

/-- Members inserted by name. -/
def insertSorted (m : String × Json) : List (String × Json) → List (String × Json)
  | [] => [m]
  | n :: rest => if m.1 < n.1 then m :: n :: rest else n :: insertSorted m rest

mutual

/-- The value with the members of all objects in the order of their names. -/
def sorted : Json → Json
  | .arr items => .arr (sortedItems items)
  | .obj members => .obj (sortedMembers members)
  | v => v

/-- Items with the members of all objects in order. -/
def sortedItems : List Json → List Json
  | [] => []
  | v :: rest => sorted v :: sortedItems rest

/-- Members in order. -/
def sortedMembers : List (String × Json) → List (String × Json)
  | [] => []
  | (k, v) :: rest => insertSorted (k, sorted v) (sortedMembers rest)

end

/-- The length up to which a list is compared value by value. -/
def comparedByValue : Nat := 15

/-- Whether no two values of a list are the same. -/
def pairwiseDistinct (same : Json → Json → Bool) : List Json → Bool
  | [] => true
  | v :: rest => !rest.any (same v) && pairwiseDistinct same rest

/-- Whether no value occurs twice.  In a long list numbers have to be spelled alike to count as the
same, and the order of members does not matter. -/
def allDistinct (items : List Json) : Bool :=
  if items.length ≤ comparedByValue then pairwiseDistinct sameValue items
  else pairwiseDistinct (fun a b => a == b) (items.map sorted)

end DecoderForge.Json
