import DecoderForge.Json.Basic

/-!
# DecoderForge — TOML values

* `Toml` — a value; tables keep the order in which they were made.
* `Toml.toJson` — a value as JSON.
* `Toml.ofJson` — JSON as a value; there is no null, and integers have 64 bits with a sign.
-/

namespace DecoderForge

/-- A float, which need not be a number. -/
inductive TomlFloat where
  | finite (x : Binary64)
  | infinite (negative : Bool)
  | nan
deriving DecidableEq, Repr

/-- A value of a configuration file. -/
inductive Toml where
  | str (s : String)
  | int (n : Int)
  | float (x : TomlFloat)
  | bool (b : Bool)
  /-- A date, a time, or both, as text. -/
  | datetime (text : String)
  | arr (items : List Toml)
  | table (members : List (String × Toml))
deriving Repr, Inhabited

namespace Toml

/-- Members of a table. -/
abbrev Members := List (String × Toml)

/-! ## Equality -/

mutual

/-- Structural equality; members are compared in order. -/
def decEq : (a b : Toml) → Decidable (a = b)
  | .str a, .str b =>
    if h : a = b then isTrue (by rw [h]) else isFalse (by simpa using h)
  | .int a, .int b =>
    if h : a = b then isTrue (by rw [h]) else isFalse (by simpa using h)
  | .float a, .float b =>
    if h : a = b then isTrue (by rw [h]) else isFalse (by simpa using h)
  | .bool a, .bool b =>
    if h : a = b then isTrue (by rw [h]) else isFalse (by simpa using h)
  | .datetime a, .datetime b =>
    if h : a = b then isTrue (by rw [h]) else isFalse (by simpa using h)
  | .arr a, .arr b =>
    match decEqItems a b with
    | isTrue h => isTrue (by rw [h])
    | isFalse h => isFalse (by simpa using h)
  | .table a, .table b =>
    match decEqMembers a b with
    | isTrue h => isTrue (by rw [h])
    | isFalse h => isFalse (by simpa using h)
  | .str _, .int _ | .str _, .float _ | .str _, .bool _
  | .str _, .datetime _ | .str _, .arr _ | .str _, .table _
  | .int _, .str _ | .int _, .float _ | .int _, .bool _
  | .int _, .datetime _ | .int _, .arr _ | .int _, .table _
  | .float _, .str _ | .float _, .int _ | .float _, .bool _
  | .float _, .datetime _ | .float _, .arr _ | .float _, .table _
  | .bool _, .str _ | .bool _, .int _ | .bool _, .float _
  | .bool _, .datetime _ | .bool _, .arr _ | .bool _, .table _
  | .datetime _, .str _ | .datetime _, .int _ | .datetime _, .float _
  | .datetime _, .bool _ | .datetime _, .arr _ | .datetime _, .table _
  | .arr _, .str _ | .arr _, .int _ | .arr _, .float _
  | .arr _, .bool _ | .arr _, .datetime _ | .arr _, .table _
  | .table _, .str _ | .table _, .int _ | .table _, .float _
  | .table _, .bool _ | .table _, .datetime _ | .table _, .arr _ =>
    isFalse (by simp)

/-- Equality of item lists. -/
def decEqItems : (a b : List Toml) → Decidable (a = b)
  | [], [] => isTrue rfl
  | [], _ :: _ | _ :: _, [] => isFalse (by simp)
  | a :: as, b :: bs =>
    match decEq a b, decEqItems as bs with
    | isTrue h, isTrue hs => isTrue (by rw [h, hs])
    | isFalse h, _ => isFalse (by simp [h])
    | _, isFalse hs => isFalse (by simp [hs])

/-- Equality of member lists. -/
def decEqMembers : (a b : List (String × Toml)) → Decidable (a = b)
  | [], [] => isTrue rfl
  | [], _ :: _ | _ :: _, [] => isFalse (by simp)
  | (k, a) :: as, (l, b) :: bs =>
    if hk : k = l then
      match decEq a b, decEqMembers as bs with
      | isTrue h, isTrue hs => isTrue (by rw [hk, h, hs])
      | isFalse h, _ => isFalse (by simp [h])
      | _, isFalse hs => isFalse (by simp [hs])
    else isFalse (by simp [hk])

end

instance : DecidableEq Toml := decEq

/-! ## Members -/

/-- The member of a table; other values have none. -/
def get? : Toml → String → Option Toml
  | .table members, name => members.lookup name
  | _, _ => none

/-- The name under which JSON knows a date. -/
def datetimeKey : String := "$__toml_private_datetime"

def floatToJson : TomlFloat → Json
  | .finite x => .num (.float x)
  | _ => .null

mutual

/-- A value as JSON; `datetime` says what stands for a date. -/
def toJsonWith (datetime : String → Json) : Toml → Json
  | .str s => .str s
  | .int n => .ofInt n
  | .float x => floatToJson x
  | .bool b => .bool b
  | .datetime text => datetime text
  | .arr items => .arr (itemsToJson datetime items)
  | .table members => .obj (membersToJson datetime members)

/-- Items as JSON. -/
def itemsToJson (datetime : String → Json) : List Toml → List Json
  | [] => []
  | v :: rest => toJsonWith datetime v :: itemsToJson datetime rest

/-- Members as JSON. -/
def membersToJson (datetime : String → Json) : List (String × Toml) → List (String × Json)
  | [] => []
  | (k, v) :: rest => (k, toJsonWith datetime v) :: membersToJson datetime rest

end

/-- A value as JSON; a date is an object with its text. -/
def toJson : Toml → Json := toJsonWith fun text => .obj [(datetimeKey, .str text)]

/-- Why JSON is no value. -/
inductive Fault where
  | null
  | outOfRange
deriving DecidableEq, Repr

/-- The wording of a fault. -/
def Fault.message : Fault → String
  | .null => "unsupported unit type"
  | .outOfRange => "out-of-range value for u64 type"

mutual

/-- JSON as a value. -/
def ofJson : Json → Except Fault Toml
  | .null => .error .null
  | .bool b => .ok (.bool b)
  | .num (.int n) => if n ≤ Int64.maxValue.toInt then .ok (.int n) else .error .outOfRange
  | .num (.float x) => .ok (.float (.finite x))
  | .str s => .ok (.str s)
  | .arr items => (itemsOfJson items).map .arr
  | .obj members => (membersOfJson members).map .table

/-- Items as values. -/
def itemsOfJson : List Json → Except Fault (List Toml)
  | [] => .ok []
  | v :: rest => do
    let first ← ofJson v
    let more ← itemsOfJson rest
    return first :: more

/-- Members as values. -/
def membersOfJson : List (String × Json) → Except Fault (List (String × Toml))
  | [] => .ok []
  | (k, v) :: rest => do
    let first ← ofJson v
    let more ← membersOfJson rest
    return (k, first) :: more

end

end Toml

end DecoderForge
