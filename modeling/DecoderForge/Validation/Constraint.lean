import DecoderForge.Validation.Assertion
import DecoderForge.Validation.Issue

/-!
# DecoderForge — constraints on values

A schema is read as a constraint: assertions, and constraints on the values inside a value.  A reference
is a constraint that stands elsewhere; what it finds is a parameter here.

* `Constraint.issues` — everything that a constraint finds wrong, in order.
-/

namespace DecoderForge

/-- A constraint on a value. -/
inductive Constraint where
  /-- Allows nothing. -/
  | never
  | assert (a : Assertion)
  | all (parts : List Constraint)
  /-- The schema under a URL. -/
  | reference (url : Url)
  | anyOf (parts : List Constraint)
  | oneOf (parts : List Constraint)
  /-- Not what a schema allows, which reads as a constraint. -/
  | not (schema : Json) (part : Constraint)
  | cond (test yes no : Constraint)
  /-- Every item. -/
  | items (part : Constraint)
  /-- The first items in turn. -/
  | tuple (parts : List Constraint)
  /-- Every item but the first `count`. -/
  | itemsBeyond (count : Nat) (part : Constraint)
  /-- Some item. -/
  | contains (part : Constraint)
  /-- The properties with given names. -/
  | properties (known : List (String × Constraint))
  /-- The properties whose names match patterns. -/
  | patterns (patterned : List (Pattern.Node × Constraint))
  /-- Properties by name and by pattern, and no others. -/
  | onlyProperties (known : List (String × Constraint)) (patterned : List (Pattern.Node × Constraint))
  /-- Properties by name and by pattern, and all others. -/
  | allProperties (known : List (String × Constraint)) (patterned : List (Pattern.Node × Constraint))
      (others : Constraint)
  /-- The names of properties. -/
  | propertyNames (part : Constraint)
  /-- The whole value where it has given properties. -/
  | dependencies (known : List (String × Constraint))

namespace Constraint

/-- Allows everything. -/
def any : Constraint := .all []

/-- Finds what is wrong with a value, of which the place is given. -/
abbrev Finder := (value : Json) → (path : String) → List Issue

/-! ## Wording -/

/-- The wording for a value without the item that it should contain. -/
def containsFault (v : Json) : String := "None of " ++ v.compact ++ " are valid under the given schema"

def anyOfFault (v : Json) : String :=
  v.compact ++ " is not valid under any of the schemas listed in the 'anyOf' keyword"

def oneOfFault (v : Json) : String :=
  v.compact ++ " is not valid under any of the schemas listed in the 'oneOf' keyword"

def oneOfManyFault (v : Json) : String :=
  v.compact ++ " is valid under more than one of the schemas listed in the 'oneOf' keyword"

def notFault (schema v : Json) : String := schema.compact ++ " is not allowed for " ++ v.compact

def additionalPropertiesFault (names : List String) : String :=
  Assertion.unexpectedFault "properties" (names.map fun n => "'" ++ n ++ "'")

/-! ## Properties -/

/-- Whether a name is among known ones. -/
def isKnown (known : List (String × Constraint)) (name : String) : Bool :=
  known.any fun k => k.1 == name

/-- Whether a name matches some pattern. -/
def isPatterned (patterned : List (Pattern.Node × Constraint)) (name : String) : Bool :=
  patterned.any fun p => p.1.isFoundIn name

/-- Whether a name is neither known nor matches a pattern. -/
def isOther (known : List (String × Constraint)) (patterned : List (Pattern.Node × Constraint))
    (name : String) : Bool :=
  !isKnown known name && !isPatterned patterned name

/-! ## Issues -/

mutual

/-- Everything that a constraint finds wrong with the value at a place; `follow` finds it for
references. -/
def issues (follow : Url → Finder) : Constraint → Finder
  | .never, v, path => [⟨path, Assertion.neverFault v⟩]
  | .assert a, v, path => (a.faults v).map fun f => ⟨if a.isPlaceless v then "" else path, f⟩
  | .all parts, v, path => issuesOfAll follow parts v path
  | .reference url, v, path => follow url v path
  | .anyOf parts, v, path =>
    if countAllowing follow parts v path == 0 then [⟨path, anyOfFault v⟩] else []
  | .oneOf parts, v, path =>
    match countAllowing follow parts v path with
    | 0 => [⟨path, oneOfFault v⟩]
    | 1 => []
    | _ => [⟨path, oneOfManyFault v⟩]
  | .not schema part, v, path =>
    if (issues follow part v path).isEmpty then [⟨path, notFault schema v⟩] else []
  | .cond test yes no, v, path =>
    if (issues follow test v path).isEmpty then issues follow yes v path else issues follow no v path
  | .items part, .arr vs, path =>
    vs.zipIdx.flatMap fun (v, i) => issues follow part v (Issue.belowIndex path i)
  | .tuple parts, .arr vs, path => issuesInTurn follow parts 0 vs path
  | .itemsBeyond count part, .arr vs, path =>
    (vs.zipIdx.drop count).flatMap fun (v, i) => issues follow part v (Issue.belowIndex path i)
  | .contains part, .arr vs, path =>
    if vs.any fun v => (issues follow part v path).isEmpty then [] else [⟨path, containsFault (.arr vs)⟩]
  | .properties known, .obj members, path => issuesOfProperties follow known members path
  | .patterns patterned, .obj members, path => issuesOfPatterns follow patterned members path
  | .onlyProperties known patterned, .obj members, path =>
    let others := (members.map Prod.fst).filter (isOther known patterned)
    members.flatMap (fun m =>
        issuesOfProperties follow known [m] path ++ issuesOfPatterns follow patterned [m] path)
      ++ if others.isEmpty then [] else [⟨path, additionalPropertiesFault others⟩]
  | .allProperties known patterned part, .obj members, path =>
    members.flatMap fun m =>
      issuesOfProperties follow known [m] path ++ issuesOfPatterns follow patterned [m] path
        ++ if isOther known patterned m.1 then issues follow part m.2 (Issue.below path m.1) else []
  | .propertyNames part, .obj members, path =>
    members.flatMap fun m => (issues follow part (.str m.1) path).map fun i => ⟨path, i.message⟩
  | .dependencies known, .obj members, path => issuesOfDependencies follow known members path
  | _, _, _ => []

/-- What all of some constraints find. -/
def issuesOfAll (follow : Url → Finder) : List Constraint → Finder
  | [], _, _ => []
  | c :: rest, v, path => issues follow c v path ++ issuesOfAll follow rest v path

/-- How many of some constraints allow a value. -/
def countAllowing (follow : Url → Finder) : List Constraint → Json → String → Nat
  | [], _, _ => 0
  | c :: rest, v, path =>
    (if (issues follow c v path).isEmpty then 1 else 0) + countAllowing follow rest v path

/-- What constraints find each for its item, the first of which has the index `i`. -/
def issuesInTurn (follow : Url → Finder) : List Constraint → Nat → List Json → String → List Issue
  | c :: rest, i, v :: vs, path =>
    issues follow c v (Issue.belowIndex path i) ++ issuesInTurn follow rest (i + 1) vs path
  | _, _, _, _ => []

/-- What constraints find each for the member of its name. -/
def issuesOfProperties (follow : Url → Finder) :
    List (String × Constraint) → Json.Members → String → List Issue
  | [], _, _ => []
  | (name, c) :: rest, members, path =>
    (match members.get? name with
      | some v => issues follow c v (Issue.below path name)
      | none => []) ++ issuesOfProperties follow rest members path

/-- What constraints find each for the members whose names match its pattern. -/
def issuesOfPatterns (follow : Url → Finder) :
    List (Pattern.Node × Constraint) → Json.Members → String → List Issue
  | [], _, _ => []
  | (p, c) :: rest, members, path =>
    members.flatMap (fun m =>
        if p.isFoundIn m.1 then issues follow c m.2 (Issue.below path m.1) else [])
      ++ issuesOfPatterns follow rest members path

/-- What constraints find each for the whole value, if it has a member of its name. -/
def issuesOfDependencies (follow : Url → Finder) :
    List (String × Constraint) → Json.Members → String → List Issue
  | [], _, _ => []
  | (name, c) :: rest, members, path =>
    (if members.contains name then issues follow c (.obj members) path else [])
      ++ issuesOfDependencies follow rest members path

end

end Constraint

end DecoderForge
