import DecoderForge.Binary64.Shortest

/-!
# DecoderForge — JSON values

Schemas and the values they describe are JSON.  Object members keep the order in which they were
first written; a name occurs once.  Numbers are exact: a literal that fits 64 bits is an integer, any
other is a 64-bit float.

* `Json.get?` — member of an object by name.
* `Json.insert` — writes a member: in place when the name is present, at the end otherwise.
-/

namespace DecoderForge

/-- A JSON number: an integer between `-2 ^ 63` and `2 ^ 64 - 1`, or a float. -/
inductive Json.Number where
  | int (n : Int)
  | float (x : Binary64)
deriving DecidableEq, Repr

/-- A JSON value. -/
inductive Json where
  | null
  | bool (b : Bool)
  | num (n : Json.Number)
  | str (s : String)
  | arr (items : List Json)
  | obj (members : List (String × Json))
deriving Repr, Inhabited

namespace Json

/-- Named members of an object, in order. -/
abbrev Members := List (String × Json)

/-! ## Equality -/

mutual

/-- Structural equality; members are compared in order. -/
def decEq : (a b : Json) → Decidable (a = b)
  | .null, .null => isTrue rfl
  | .bool a, .bool b =>
    if h : a = b then isTrue (by rw [h]) else isFalse (by simpa using h)
  | .num a, .num b =>
    if h : a = b then isTrue (by rw [h]) else isFalse (by simpa using h)
  | .str a, .str b =>
    if h : a = b then isTrue (by rw [h]) else isFalse (by simpa using h)
  | .arr a, .arr b =>
    match decEqItems a b with
    | isTrue h => isTrue (by rw [h])
    | isFalse h => isFalse (by simpa using h)
  | .obj a, .obj b =>
    match decEqMembers a b with
    | isTrue h => isTrue (by rw [h])
    | isFalse h => isFalse (by simpa using h)
  | .null, .bool _ | .null, .num _ | .null, .str _ | .null, .arr _ | .null, .obj _
  | .bool _, .null | .bool _, .num _ | .bool _, .str _ | .bool _, .arr _ | .bool _, .obj _
  | .num _, .null | .num _, .bool _ | .num _, .str _ | .num _, .arr _ | .num _, .obj _
  | .str _, .null | .str _, .bool _ | .str _, .num _ | .str _, .arr _ | .str _, .obj _
  | .arr _, .null | .arr _, .bool _ | .arr _, .num _ | .arr _, .str _ | .arr _, .obj _
  | .obj _, .null | .obj _, .bool _ | .obj _, .num _ | .obj _, .str _ | .obj _, .arr _ =>
    isFalse (by simp)

/-- Equality of item lists. -/
def decEqItems : (a b : List Json) → Decidable (a = b)
  | [], [] => isTrue rfl
  | [], _ :: _ | _ :: _, [] => isFalse (by simp)
  | a :: as, b :: bs =>
    match decEq a b, decEqItems as bs with
    | isTrue h, isTrue hs => isTrue (by rw [h, hs])
    | isFalse h, _ => isFalse (by simp [h])
    | _, isFalse hs => isFalse (by simp [hs])

/-- Equality of member lists. -/
def decEqMembers : (a b : List (String × Json)) → Decidable (a = b)
  | [], [] => isTrue rfl
  | [], _ :: _ | _ :: _, [] => isFalse (by simp)
  | (k, a) :: as, (l, b) :: bs =>
    if hk : k = l then
      match decEq a b, decEqMembers as bs with
      | isTrue h, isTrue hs => isTrue (by rw [hk, h, hs])
      | isFalse h, _ => isFalse (by simp [h])
      | _, isFalse hs => isFalse (by simp [hs])
    else isFalse (by simp [hk])

end

instance : DecidableEq Json := decEq

/-! ## Members -/

/-- The value of the first member called `name`. -/
def Members.get? (members : Members) (name : String) : Option Json := members.lookup name

/-- Whether a member is called `name`. -/
def Members.contains (members : Members) (name : String) : Bool :=
  members.any (fun m => m.1 == name)

/-- Writes a member: over the one of that name, or behind all others. -/
def Members.insert (members : Members) (name : String) (value : Json) : Members :=
  match members with
  | [] => [(name, value)]
  | (k, v) :: rest =>
    if k == name then (k, value) :: rest else (k, v) :: Members.insert rest name value

/-- The member of an object called `name`; other values have no members. -/
def get? : Json → String → Option Json
  | .obj members, name => Members.get? members name
  | _, _ => none

def asString? : Json → Option String
  | .str s => some s
  | _ => none

def asItems? : Json → Option (List Json)
  | .arr items => some items
  | _ => none

def asMembers? : Json → Option Members
  | .obj members => some members
  | _ => none

/-- The string under `name`, if there is one. -/
def getString? (j : Json) (name : String) : Option String := (j.get? name).bind asString?

/-- A natural number written as an integer. -/
def asNat? : Json → Option Nat
  | .num (.int n) => if 0 ≤ n then some n.toNat else none
  | _ => none

def ofInt (n : Int) : Json := .num (.int n)

/-! ## Kinds -/

/-- The six kinds of JSON value. -/
inductive Kind where
  | null | boolean | number | string | array | object
deriving DecidableEq, Repr

def kind : Json → Kind
  | .null => .null
  | .bool _ => .boolean
  | .num _ => .number
  | .str _ => .string
  | .arr _ => .array
  | .obj _ => .object

end Json

/-! ## Height -/

/-- The height of a value as a tree. -/
def Json.height : Json → Nat
  | .arr items => heightItems items + 1
  | .obj members => heightMembers members + 1
  | _ => 0
where
  /-- The greatest height of an item. -/
  heightItems : List Json → Nat
    | [] => 0
    | v :: rest => max v.height (heightItems rest)
  /-- The greatest height of a member. -/
  heightMembers : List (String × Json) → Nat
    | [] => 0
    | (_, v) :: rest => max v.height (heightMembers rest)

/-! ## Size -/

/-- The number of values that a value consists of, itself included. -/
def Json.size : Json → Nat
  | .arr items => sizeItems items + 1
  | .obj members => sizeMembers members + 1
  | _ => 1
where
  /-- The sizes of items together. -/
  sizeItems : List Json → Nat
    | [] => 0
    | v :: rest => v.size + sizeItems rest
  /-- The sizes of members together. -/
  sizeMembers : List (String × Json) → Nat
    | [] => 0
    | (_, v) :: rest => v.size + sizeMembers rest

end DecoderForge
