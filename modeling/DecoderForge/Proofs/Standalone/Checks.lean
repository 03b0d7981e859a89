import DecoderForge.Proofs.Json.Compact
import DecoderForge.Proofs.Layout.Rendering
import DecoderForge.Standalone.Keyword
import DecoderForge.Validation.Assertion

/-!
# DecoderForge — the checks that a function body is made of

The body of a validator function is a row of checks, each with the values and the function numbers that it uses.
Its lines show which check begins, and what it uses, so that the row can be read off the body.

## The architecture

* **`Check`** — a check, with **`Check.calls`**, its lines.
* **`Check.Fits`** — a check whose values stand in the constants of the module.
* **`Check.Lead`** — how the lines of a check begin; no lead begins another.
* **`Check.calls_append_inj`** — a check is read off its lines.
* **`Check.flatMap_calls_inj`** — a row of checks is.
-/

namespace DecoderForge.Standalone

open Layout (Call)

/-! ## Checks -/

/-- The kinds of values that groups of checks are for. -/
inductive Guard where
  | number | string | array | object
deriving DecidableEq

/-- The line that a group begins with. -/
def Guard.head : Guard → String
  | .number => "if (typeof data === \"number\") \x7b"
  | .string => "if (typeof data === \"string\") \x7b"
  | .array => "if (Array.isArray(data)) \x7b"
  | .object => "if (isObject(data)) \x7b"

/-- What is counted in a value. -/
inductive Counted where
  | items | properties
deriving DecidableEq

/-- A count, and the word for what is counted. -/
def Counted.size : Counted → String
  | .items => "data.length"
  | .properties => "Object.keys(data).length"

def Counted.things : Counted → String
  | .items => "items"
  | .properties => "properties"

/-- A pattern of properties: the number and the text of its constant, and the function for what it matches. -/
structure PatternCheck where
  constant : Nat
  pattern : String
  function : Nat

/-- What is done about properties that are neither known, as the constant says, nor match a pattern. -/
inductive Others where
  | allowed
  | forbidden (constant : Nat) (known : List String)
  | checked (constant : Nat) (known : List String) (function : Nat)

/-- What a function body does at a time, with the numbers of the constants and functions that it uses. -/
inductive Check where
  /-- A group of checks for values of one kind begins. -/
  | enter (guard : Guard)
  /-- A group ends. -/
  | leave
  | types (names : List TypeName)
  | enum (constant : Nat) (values : Json)
  | const (constant : Nat) (value : Json)
  | limit (upper exclusive : Bool) (limit : Json.Number)
  | multiple (divisor : Json.Number)
  /-- The length of a string is taken. -/
  | measure
  | length (upper : Bool) (limit : Nat)
  | pattern (constant : Nat) (text : String)
  | item (index function : Nat)
  | itemsFrom (start function : Nat)
  | count (of : Counted) (upper : Bool) (limit : Nat)
  | contains (function : Nat)
  | unique
  | required (name : String)
  | property (name : String) (function : Nat)
  | loop (names : Option Nat) (patterns : List PatternCheck) (others : Others)
  /-- A group begins for values with a property. -/
  | dependents (name : String)
  | dependent (other name : String)
  | dependentSchema (name : String) (function : Nat)
  | all (function : Nat)
  | any (functions : List Nat)
  | one (functions : List Nat)
  | not (function : Nat)
  | choose (test : Nat) (yes no : Option Nat)

/-- The lines for a pattern of properties. -/
def PatternCheck.calls (p : PatternCheck) : List Call :=
  [opens ("if (" ++ constantName p.constant ++ ".test(key))"), .line "matched = true;", propertyCall p.function, closes]

def Others.calls : Others → List Call
  | .allowed => []
  | .forbidden c _ => additionalLines c (failLines "should NOT have additional properties")
  | .checked c _ f => additionalLines c [propertyCall f]

/-- The lines for the names of properties. -/
def nameCalls : Option Nat → List Call
  | none => []
  | some f => failWhen ("!" ++ functionName f ++ "(key, path, [])") "should have valid property names"

/-- The lines for a branch of a condition. -/
def branchCalls : Option Nat → List Call
  | none => []
  | some f => [invalidUnless (selfCall f "errors")]

namespace Check

/-- The lines of a check. -/
def calls : Check → List Call
  | .enter guard => [.opening guard.head]
  | .leave => [closes]
  | .types names =>
    failWhen ("!(" ++ String.intercalate " || " ((names.map TypeName.word).map typeCondition) ++ ")")
      ("should be " ++ String.intercalate "," (names.map TypeName.word))
  | .enum c _ =>
    failWhen ("!" ++ constantName c ++ ".some(function (v) \x7b return equal(data, v); \x7d)")
      "should be equal to one of the allowed values"
  | .const c _ => failWhen ("!equal(data, " ++ constantName c ++ ")") "should be equal to constant"
  | .limit false exclusive n => lowerLines exclusive (some n)
  | .limit true exclusive n => upperLines exclusive (some n)
  | .multiple n =>
    failWhen ("!Number.isInteger(data / " ++ n.toText ++ ")") ("should be multiple of " ++ n.toText)
  | .measure => [.line "var length = Array.from(data).length;"]
  | .length false n =>
    failWhen ("length < " ++ toString n) ("should NOT be shorter than " ++ toString n ++ " characters")
  | .length true n =>
    failWhen ("length > " ++ toString n) ("should NOT be longer than " ++ toString n ++ " characters")
  | .pattern c text =>
    failWhen ("!" ++ constantName c ++ ".test(data)") ("should match pattern \"" ++ text ++ "\"")
  | .item i f =>
    [.line ("if (data.length > " ++ toString i ++ " && !" ++ itemCall f (toString i) ("\"[" ++ toString i ++ "]\"")
      ++ ") valid = false;")]
  | .itemsFrom start f => Standalone.itemsFrom start f
  | .count of false n => countLines of.size of.things (some n) none
  | .count of true n => countLines of.size of.things none (some n)
  | .contains f =>
    failWhen ("!data.some(function (item, i) \x7b return " ++ functionName f
        ++ "(item, path + \"[\" + i + \"]\", []); \x7d)")
      "should contain a valid item"
  | .unique => failWhen "!uniqueItems(data)" "should NOT have duplicate items"
  | .required name =>
    failWhen ("!hasOwn(data, " ++ stringLiteral name ++ ")") ("should have required property '" ++ name ++ "'")
  | .property name f =>
    [.line ("if (hasOwn(data, " ++ stringLiteral name ++ ") && !" ++ functionName f ++ "(data["
      ++ stringLiteral name ++ "], path + " ++ propertySegment name ++ ", errors)) valid = false;")]
  | .loop names patterns others =>
    [opens "for (var key in data)", .line "if (!hasOwn(data, key)) continue;"] ++ nameCalls names
      ++ [.line "var matched = false;"] ++ patterns.flatMap PatternCheck.calls ++ others.calls ++ [closes]
  | .dependents name => [opens ("if (hasOwn(data, " ++ stringLiteral name ++ "))")]
  | .dependent other name =>
    failWhen ("!hasOwn(data, " ++ stringLiteral other ++ ")")
      ("should have property " ++ other ++ " when property " ++ name ++ " is present")
  | .dependentSchema name f =>
    [.line ("if (hasOwn(data, " ++ stringLiteral name ++ ") && !" ++ functionName f
      ++ "(data, path, errors)) valid = false;")]
  | .all f => [invalidUnless (selfCall f "errors")]
  | .any fs =>
    [.line "var anyErrors = [];",
      opens ("if (!(" ++ String.intercalate " || " (fs.map fun f => selfCall f "anyErrors") ++ "))"),
      .line "Array.prototype.push.apply(errors, anyErrors);"]
      ++ failLines "should match some schema in anyOf" ++ [closes]
  | .one fs =>
    [.line "var oneErrors = [];", .line "var matches = 0;"]
      ++ fs.map (fun f => .line ("if (" ++ selfCall f "oneErrors" ++ ") matches++;"))
      ++ [opens "if (matches !== 1)",
        .line "if (matches === 0) Array.prototype.push.apply(errors, oneErrors);"]
      ++ failLines "should match exactly one schema in oneOf" ++ [closes]
  | .not f => failWhen (selfCall f "[]") "should NOT be valid"
  | .choose c yes no =>
    opens ("if (" ++ selfCall c "[]" ++ ")") :: branchCalls yes ++ [.reopening "\x7d else \x7b"] ++ branchCalls no
      ++ [closes]

end Check

/-! ## Values -/

/-- The text of the constant for a pattern. -/
def patternText (pattern : String) : String := "new RegExp(" ++ stringLiteral pattern ++ ")"

/-- The text of the constant for known names. -/
def knownText (known : List String) : String := (Json.arr (known.map .str)).compact

/-- Names that the constant lists. -/
def Others.Fits (constants : List String) : Others → Prop
  | .allowed => True
  | .forbidden c known | .checked c known _ => constants[c]? = some (knownText known)

namespace Check

/-- A check whose values stand in the constants, with numbers in the form that every number has. -/
def Fits (constants : List String) : Check → Prop
  | .enum c v | .const c v => constants[c]? = some v.compact ∧ v.HasCanonicalNumbers
  | .limit _ _ n | .multiple n => n.IsCanonical
  | .pattern c text => constants[c]? = some (patternText text)
  | .loop _ patterns others =>
    (∀ p ∈ patterns, constants[p.constant]? = some (patternText p.pattern)) ∧ others.Fits constants
  | _ => True

/-! ## Leads -/

/-- How the lines of checks begin.  Some checks begin alike. -/
inductive Lead where
  | enter (guard : Guard)
  | leave
  | types
  | constant
  | const
  | limit (upper exclusive : Bool)
  | multiple
  | measure
  | length (upper : Bool)
  | item
  | itemsFrom
  | count (of : Counted) (upper : Bool)
  | contains
  | unique
  | missing
  | present
  | loop
  | dependents
  | all
  | any
  | one
  | self
deriving DecidableEq

namespace Lead

/-- The beginning of the first line. -/
def call : Lead → Call
  | .enter guard => .opening guard.head
  | .leave => closes
  | .types => .opening "if (!("
  | .constant => .opening "if (!c"
  | .const => .opening "if (!equal"
  | .limit false false => .opening "if (data < "
  | .limit false true => .opening "if (data <= "
  | .limit true false => .opening "if (data > "
  | .limit true true => .opening "if (data >= "
  | .multiple => .opening "if (!Number"
  | .measure => .line "var length"
  | .length false => .opening "if (length < "
  | .length true => .opening "if (length > "
  | .item => .line "if (data.length"
  | .itemsFrom => .opening "for (var i"
  | .count .items false => .opening "if (data.length < "
  | .count .items true => .opening "if (data.length > "
  | .count .properties false => .opening "if (Object.keys(data).length < "
  | .count .properties true => .opening "if (Object.keys(data).length > "
  | .contains => .opening "if (!data"
  | .unique => .opening "if (!unique"
  | .missing => .opening "if (!hasOwn"
  | .present => .line "if (hasOwn"
  | .loop => .opening "for (var key"
  | .dependents => .opening "if (hasOwn"
  | .all => .line "if (!v"
  | .any => .line "var any"
  | .one => .line "var one"
  | .self => .opening "if (v"

/-- All leads. -/
def leads : List Lead :=
  [.enter .number, .enter .string, .enter .array, .enter .object, .leave, .types, .constant, .const,
    .limit false false, .limit false true, .limit true false, .limit true true, .multiple, .measure,
    .length false, .length true, .item, .itemsFrom, .count .items false, .count .items true,
    .count .properties false, .count .properties true, .contains, .unique, .missing, .present, .loop,
    .dependents, .all, .any, .one, .self]

theorem mem_leads (l : Lead) : l ∈ leads := by
  cases l with
  | enter guard => cases guard <;> decide
  | limit upper exclusive => cases upper <;> cases exclusive <;> decide
  | length upper => cases upper <;> decide
  | count of upper => cases of <;> cases upper <;> decide
  | _ => decide

/-- A line that begins with a lead. -/
def Begins (l : Lead) (c : Call) : Prop := l.call.levels = c.levels ∧ l.call.text <+: c.text

/-- Leads of which neither begins the other. -/
def Apart (l l' : Lead) : Prop :=
  l.call.levels = l'.call.levels → ¬ l.call.text <+: l'.call.text ∧ ¬ l'.call.text <+: l.call.text

instance (l l' : Lead) : Decidable (Apart l l') :=
  inferInstanceAs (Decidable (l.call.levels = l'.call.levels →
    ¬ l.call.text <+: l'.call.text ∧ ¬ l'.call.text <+: l.call.text))

instance : Std.Symm Apart where
  symm _ _ h hlevels := (h hlevels.symm).symm

theorem pairwise_apart : leads.Pairwise Apart := by decide

/-- **A line begins with one lead only.** -/
theorem eq_of_begins {l l' : Lead} {c : Call} (h : l.Begins c) (h' : l'.Begins c) : l = l' := by
  by_contra hne
  obtain ⟨hapart, hapart'⟩ := pairwise_apart.forall (mem_leads l) (mem_leads l') hne (h.1.trans h'.1.symm)
  rcases List.prefix_or_prefix_of_prefix h.2 h'.2 with hprefix | hprefix
  · exact hapart hprefix
  · exact hapart' hprefix

end Lead

/-- How the lines of a check begin. -/
def lead : Check → Lead
  | .enter guard => .enter guard
  | .leave => .leave
  | .types _ => .types
  | .enum _ _ | .pattern _ _ => .constant
  | .const _ _ => .const
  | .limit upper exclusive _ => .limit upper exclusive
  | .multiple _ => .multiple
  | .measure => .measure
  | .length upper _ => .length upper
  | .item _ _ => .item
  | .itemsFrom _ _ => .itemsFrom
  | .count of upper _ => .count of upper
  | .contains _ => .contains
  | .unique => .unique
  | .required _ | .dependent _ _ => .missing
  | .property _ _ | .dependentSchema _ _ => .present
  | .loop _ _ _ => .loop
  | .dependents _ => .dependents
  | .all _ => .all
  | .any _ => .any
  | .one _ => .one
  | .not _ | .choose _ _ _ => .self

theorem begins_lead (a : Check) : ∃ c rest, a.calls = c :: rest ∧ a.lead.Begins c := by
  cases a with
  | limit upper exclusive n =>
      cases upper <;> cases exclusive <;> exact ⟨_, _, rfl, rfl, by simp [lead, Lead.call, Call.text, opens]⟩
  | length upper n => cases upper <;> exact ⟨_, _, rfl, rfl, by simp [lead, Lead.call, Call.text, opens]⟩
  | count of upper n =>
      cases of <;> cases upper <;> exact ⟨_, _, rfl, rfl, by simp [lead, Lead.call, Call.text, opens, Counted.size]⟩
  | _ =>
      exact ⟨_, _, rfl, rfl, by simp [lead, Lead.call, Call.text, opens, closes, constantName, functionName,
        selfCall, invalidUnless]⟩

/-- Checks that begin alike: of one sort, or of two sorts with the same lead. -/
inductive Alike : Check → Check → Prop where
  | enter (guard : Guard) : Alike (.enter guard) (.enter guard)
  | leave : Alike .leave .leave
  | types (names names' : List TypeName) : Alike (.types names) (.types names')
  | enum (c c' : Nat) (v v' : Json) : Alike (.enum c v) (.enum c' v')
  | enumPattern (c c' : Nat) (v : Json) (text : String) : Alike (.enum c v) (.pattern c' text)
  | patternEnum (c c' : Nat) (text : String) (v : Json) : Alike (.pattern c text) (.enum c' v)
  | pattern (c c' : Nat) (text text' : String) : Alike (.pattern c text) (.pattern c' text')
  | const (c c' : Nat) (v v' : Json) : Alike (.const c v) (.const c' v')
  | limit (upper exclusive : Bool) (n n' : Json.Number) : Alike (.limit upper exclusive n) (.limit upper exclusive n')
  | multiple (n n' : Json.Number) : Alike (.multiple n) (.multiple n')
  | measure : Alike .measure .measure
  | length (upper : Bool) (n n' : Nat) : Alike (.length upper n) (.length upper n')
  | item (i i' f f' : Nat) : Alike (.item i f) (.item i' f')
  | itemsFrom (start start' f f' : Nat) : Alike (.itemsFrom start f) (.itemsFrom start' f')
  | count (of : Counted) (upper : Bool) (n n' : Nat) : Alike (.count of upper n) (.count of upper n')
  | contains (f f' : Nat) : Alike (.contains f) (.contains f')
  | unique : Alike .unique .unique
  | required (name name' : String) : Alike (.required name) (.required name')
  | requiredDependent (name other' name' : String) : Alike (.required name) (.dependent other' name')
  | dependentRequired (other name name' : String) : Alike (.dependent other name) (.required name')
  | dependent (other name other' name' : String) : Alike (.dependent other name) (.dependent other' name')
  | property (name name' : String) (f f' : Nat) : Alike (.property name f) (.property name' f')
  | propertySchema (name name' : String) (f f' : Nat) : Alike (.property name f) (.dependentSchema name' f')
  | schemaProperty (name name' : String) (f f' : Nat) : Alike (.dependentSchema name f) (.property name' f')
  | dependentSchema (name name' : String) (f f' : Nat) : Alike (.dependentSchema name f) (.dependentSchema name' f')
  | loop (names names' : Option Nat) (patterns patterns' : List PatternCheck) (others others' : Others) :
      Alike (.loop names patterns others) (.loop names' patterns' others')
  | dependents (name name' : String) : Alike (.dependents name) (.dependents name')
  | all (f f' : Nat) : Alike (.all f) (.all f')
  | any (fs fs' : List Nat) : Alike (.any fs) (.any fs')
  | one (fs fs' : List Nat) : Alike (.one fs) (.one fs')
  | not (f f' : Nat) : Alike (.not f) (.not f')
  | notChoose (f c : Nat) (yes no : Option Nat) : Alike (.not f) (.choose c yes no)
  | chooseNot (f c : Nat) (yes no : Option Nat) : Alike (.choose c yes no) (.not f)
  | choose (c c' : Nat) (yes yes' no no' : Option Nat) : Alike (.choose c yes no) (.choose c' yes' no')

theorem alike_of_lead {a b : Check} (h : a.lead = b.lead) : Alike a b := by
  cases a <;> cases b <;> cases h <;> constructor

end Check

/-! ## What lines use -/

theorem toString_injective {n m : Nat} (h : toString n = toString m) : n = m :=
  (Text.numeral_append_inj (by simp) (by simp) (congrArg (·.toList ++ []) h)).1

theorem stringLiteral_injective {s t : String} (h : stringLiteral s = stringLiteral t) : s = t := by
  have hquote : (Json.Token.quote s).toList ++ [] = (Json.Token.quote t).toList ++ [] := by
    rw [show Json.Token.quote s = Json.Token.quote t from h]
  exact (Text.quote_append_inj hquote).1

theorem functionName_injective {f g : Nat} (h : functionName f = functionName g) : f = g :=
  toString_injective (by simpa [functionName] using h)

theorem constantName_injective {c d : Nat} (h : constantName c = constantName d) : c = d :=
  toString_injective (by simpa [constantName] using h)

theorem failWhen_append_inj {condition condition' message message' : String} {r r' : List Call}
    (h : failWhen condition message ++ r = failWhen condition' message' ++ r') :
    condition = condition' ∧ message = message' ∧ r = r' := by
  obtain ⟨hcondition, hmessage, hr⟩ :
      condition = condition' ∧ stringLiteral message = stringLiteral message' ∧ r = r' := by
    simpa [failWhen, failLines, opens, closes] using h
  exact ⟨hcondition, stringLiteral_injective hmessage, hr⟩

theorem invalidUnless_selfCall_injective {f g : Nat} {errors : String}
    (h : invalidUnless (selfCall f errors) = invalidUnless (selfCall g errors)) : f = g :=
  functionName_injective (by simpa [invalidUnless, selfCall] using h)

namespace Check

variable {constants : List String} {r r' : List Call}

/-- Types are read off the message. -/
theorem word_injective {names names' : List TypeName}
    (h : String.intercalate "," (names.map TypeName.word) = String.intercalate "," (names'.map TypeName.word)) :
    names = names' := by
  have hseparates : Text.Separates "," ']' fun c => c.isAlpha = false :=
    ⟨⟨',', [], rfl, by decide, by decide⟩, by decide⟩
  have hfirst (t : TypeName) : ∃ c rest, t.word.toList = c :: rest ∧ c ≠ ']' := by
    cases t <;> exact ⟨_, _, rfl, by decide⟩
  have halpha (t : TypeName) : ∀ c ∈ t.word.toList, c.isAlpha = true := by
    cases t <;> decide
  have hwords (t u : TypeName) (h : t.word = u.word) : t = u := by
    cases t <;> cases u <;> first | rfl | exact absurd h (by decide)
  have hends : Text.ShowEnds TypeName.word (fun c => c.isAlpha = false) names names' := by
    intro t _ u _ r r' hr hr' heq
    obtain ⟨hword, hrest⟩ := Text.run_append_inj (halpha t) (halpha u) hr hr' heq
    exact ⟨hwords t u (String.toList_inj.mp hword), hrest⟩
  exact (Text.separated_append_inj hseparates hfirst hends (congrArg (·.toList ++ [']']) h)).1

/-- The functions of a list of alternatives are read off its line. -/
theorem alternatives_injective {fs fs' : List Nat}
    (h : String.intercalate " || " (fs.map fun f => selfCall f "anyErrors")
      = String.intercalate " || " (fs'.map fun f => selfCall f "anyErrors")) : fs = fs' := by
  have hseparates : Text.Separates " || " ')' fun _ => True := ⟨⟨' ', _, rfl, by decide, trivial⟩, trivial⟩
  have hfirst (f : Nat) : ∃ c rest, (selfCall f "anyErrors").toList = c :: rest ∧ c ≠ ')' :=
    ⟨'v', (toString f).toList ++ "(data, path, anyErrors)".toList, by simp [selfCall, functionName], by decide⟩
  have hends : Text.ShowEnds (fun f => selfCall f "anyErrors") (fun _ => True) fs fs' := by
    intro f _ g _ r r' _ _ heq
    have hnumeral : (toString f).toList ++ ("(data, path, anyErrors)".toList ++ r)
        = (toString g).toList ++ ("(data, path, anyErrors)".toList ++ r') := by
      simpa [selfCall, functionName] using heq
    obtain ⟨hfg, hrest⟩ := Text.numeral_append_inj (by simp) (by simp) hnumeral
    exact ⟨hfg, List.append_cancel_left hrest⟩
  exact (Text.separated_append_inj hseparates hfirst hends (congrArg (·.toList ++ [')']) h)).1

/-- The constant that a line begins with. -/
theorem constant_append_inj {c d : Nat} {tail tail' : List Char} (htail : ∀ x ∈ tail.head?, x.isDigit = false)
    (htail' : ∀ x ∈ tail'.head?, x.isDigit = false)
    (h : (constantName c).toList ++ tail = (constantName d).toList ++ tail') : c = d ∧ tail = tail' :=
  Text.numeral_append_inj htail htail' (by simpa [constantName] using h)

/-- The property and the function of a line for values with a property. -/
theorem present_append_inj {name name' : String} {f f' : Nat} {tail tail' : List Char}
    (h : (stringLiteral name).toList ++ (") && !v".toList ++ ((toString f).toList ++ '(' :: tail))
      = (stringLiteral name').toList ++ (") && !v".toList ++ ((toString f').toList ++ '(' :: tail'))) :
    name = name' ∧ f = f' ∧ tail = tail' := by
  obtain ⟨rfl, hrest⟩ := Text.quote_append_inj h
  have hfunction := List.append_cancel_left hrest
  obtain ⟨rfl, htail⟩ := Text.numeral_append_inj (by simp) (by simp) hfunction
  exact ⟨rfl, rfl, (List.cons.inj htail).2⟩

theorem property_shape (name : String) (f : Nat) : ("if (hasOwn(data, " ++ stringLiteral name ++ ") && !"
      ++ functionName f ++ "(data[" ++ stringLiteral name ++ "], path + " ++ propertySegment name
      ++ ", errors)) valid = false;").toList
    = "if (hasOwn(data, ".toList ++ ((stringLiteral name).toList ++ (") && !v".toList ++ ((toString f).toList
      ++ '(' :: ("data[" ++ stringLiteral name ++ "], path + " ++ propertySegment name
        ++ ", errors)) valid = false;").toList))) := by
  simp [functionName]

theorem dependentSchema_shape (name : String) (f : Nat) : ("if (hasOwn(data, " ++ stringLiteral name ++ ") && !"
      ++ functionName f ++ "(data, path, errors)) valid = false;").toList
    = "if (hasOwn(data, ".toList ++ ((stringLiteral name).toList ++ (") && !v".toList ++ ((toString f).toList
      ++ '(' :: "data, path, errors)) valid = false;".toList))) := by
  simp [functionName]

theorem item_append_inj {i i' f f' : Nat} (h : (item i f).calls ++ r = (item i' f').calls ++ r') :
    i = i' ∧ f = f' ∧ r = r' := by
  obtain ⟨hline, hr⟩ := List.cons.inj h
  have hshape (i f : Nat) : ("if (data.length > " ++ toString i ++ " && !" ++ itemCall f (toString i)
        ("\"[" ++ toString i ++ "]\"") ++ ") valid = false;").toList
      = "if (data.length > ".toList ++ ((toString i).toList ++ (" && !v".toList ++ ((toString f).toList
        ++ ("(data[" ++ toString i ++ "], path + \"[" ++ toString i ++ "]\", errors)) valid = false;").toList))) := by
    simp [itemCall, functionName]
  have hchars := congrArg String.toList (Call.line.inj hline)
  rw [hshape, hshape] at hchars
  have hindex := List.append_cancel_left hchars
  obtain ⟨rfl, hrest⟩ := Text.numeral_append_inj (by simp) (by simp) hindex
  have hfunction := List.append_cancel_left hrest
  obtain ⟨rfl, -⟩ := Text.numeral_append_inj (by simp) (by simp) hfunction
  exact ⟨rfl, rfl, hr⟩

/-- The lines of alternatives end at the line that opens what follows them. -/
theorem lines_append_inj {α : Type} {line : α → String} (hline : ∀ x y, line x = line y → x = y) {head : String}
    {r r' : List Call} : ∀ {xs ys : List α},
      xs.map (fun x => .line (line x)) ++ opens head :: r = ys.map (fun y => .line (line y)) ++ opens head :: r' →
        xs = ys ∧ r = r'
  | [], [], h => ⟨rfl, (List.cons.inj h).2⟩
  | [], _ :: _, h => by simp [opens] at h
  | _ :: _, [], h => by simp [opens] at h
  | x :: xs, y :: ys, h => by
      obtain ⟨hfirst, hrest⟩ := List.cons.inj h
      obtain rfl := hline x y (Call.line.inj hfirst)
      obtain ⟨rfl, hr⟩ := lines_append_inj hline hrest
      exact ⟨rfl, hr⟩

/-! ## Loops -/

theorem propertyCall_injective {f g : Nat} (h : propertyCall f = propertyCall g) : f = g :=
  functionName_injective (by simpa [propertyCall, invalidUnless] using h)

/-- Calls that do not begin like those for a pattern. -/
def NoPattern (r : List Call) : Prop := ∀ p : PatternCheck, ∀ s, r ≠ p.calls ++ s

theorem noPattern_others (others : Others) (r : List Call) : NoPattern (others.calls ++ closes :: r) := by
  intro p s h
  cases others with
  | allowed => simp [Others.calls, PatternCheck.calls, opens, closes] at h
  | forbidden c known | checked c known f =>
      have hchars := congrArg String.toList (Call.opening.inj (List.cons.inj h).1)
      simp [constantName] at hchars

theorem patterns_append_inj : ∀ {ps qs : List PatternCheck}, NoPattern r → NoPattern r' →
    (∀ p ∈ ps, constants[p.constant]? = some (patternText p.pattern)) →
    (∀ q ∈ qs, constants[q.constant]? = some (patternText q.pattern)) →
    ps.flatMap PatternCheck.calls ++ r = qs.flatMap PatternCheck.calls ++ r' → ps = qs ∧ r = r'
  | [], [], _, _, _, _, h => ⟨rfl, h⟩
  | [], q :: qs, hr, _, _, _, h => absurd (h.trans (by rw [List.flatMap_cons, List.append_assoc])) (hr q _)
  | p :: ps, [], _, hr', _, _, h => absurd (h.symm.trans (by rw [List.flatMap_cons, List.append_assoc])) (hr' p _)
  | p :: ps, q :: qs, hr, hr', hps, hqs, h => by
      obtain ⟨hp, hps'⟩ := List.forall_mem_cons.mp hps
      obtain ⟨hq, hqs'⟩ := List.forall_mem_cons.mp hqs
      obtain ⟨c, text, f⟩ := p
      obtain ⟨d, text', g⟩ := q
      obtain ⟨hhead, hfunction, hrest⟩ : constantName c = constantName d ∧ propertyCall f = propertyCall g
          ∧ ps.flatMap PatternCheck.calls ++ r = qs.flatMap PatternCheck.calls ++ r' := by
        simpa [PatternCheck.calls, opens] using h
      obtain rfl := constantName_injective hhead
      obtain rfl := propertyCall_injective hfunction
      obtain rfl : text = text' := by
        refine stringLiteral_injective ?_
        simpa [patternText] using hp.symm.trans hq
      obtain ⟨rfl, hend⟩ := patterns_append_inj hr hr' hps' hqs' hrest
      exact ⟨rfl, hend⟩

theorem knownText_injective {known known' : List String} (h : knownText known = knownText known') : known = known' := by
  -- there are no numbers in it
  have hitems (n : Json.Number) (known : List String) : .num n ∉ Json.valuesOfItems (known.map .str) := by
    induction known with
    | nil => simp [Json.valuesOfItems]
    | cons name rest ih => simpa [Json.valuesOfItems, Json.values] using ih
  have hstrings (known : List String) : (Json.arr (known.map .str)).HasCanonicalNumbers := by
    intro n hn
    exact absurd hn (by simpa [Json.values] using hitems n known)
  have harr := Json.compact_injective (hstrings known) (hstrings known') h
  exact List.map_injective_iff.mpr (fun _ _ => Json.str.inj) (Json.arr.inj harr)

theorem others_append_inj {others others' : Others} (ho : others.Fits constants) (ho' : others'.Fits constants)
    (h : others.calls ++ closes :: r = others'.calls ++ closes :: r') : others = others' ∧ r = r' := by
  have hknown {c c' : Nat} {known known' : List String} (hc : c = c') (hk : constants[c]? = some (knownText known))
      (hk' : constants[c']? = some (knownText known')) : known = known' := by
    subst hc
    exact knownText_injective (Option.some.inj (hk.symm.trans hk'))
  cases others with
  | allowed => cases others' with
    | allowed => exact ⟨rfl, (List.cons.inj h).2⟩
    | forbidden _ _ | checked _ _ _ => simp [Others.calls, additionalLines, opens, closes] at h
  | forbidden c known => cases others' with
    | forbidden c' known' =>
        obtain ⟨hconstant, hr⟩ : constantName c = constantName c' ∧ r = r' := by
          simpa [Others.calls, additionalLines, opens, failLines] using h
        obtain rfl := constantName_injective hconstant
        exact ⟨congrArg _ (hknown rfl ho ho'), hr⟩
    | allowed | checked _ _ _ =>
        simp [Others.calls, additionalLines, failLines, propertyCall, invalidUnless, opens, closes] at h
  | checked c known f => cases others' with
    | checked c' known' f' =>
        obtain ⟨hconstant, hfunction, hr⟩ :
            constantName c = constantName c' ∧ propertyCall f = propertyCall f' ∧ r = r' := by
          simpa [Others.calls, additionalLines, opens] using h
        obtain rfl := constantName_injective hconstant
        obtain rfl := propertyCall_injective hfunction
        obtain rfl := hknown rfl ho ho'
        exact ⟨rfl, hr⟩
    | allowed | forbidden _ _ =>
        simp [Others.calls, additionalLines, failLines, propertyCall, invalidUnless, opens, closes] at h

theorem names_append_inj {names names' : Option Nat} {line : String}
    (h : nameCalls names ++ .line line :: r = nameCalls names' ++ .line line :: r') : names = names' ∧ r = r' := by
  cases names with
  | none => cases names' with
    | none => exact ⟨rfl, (List.cons.inj h).2⟩
    | some _ => simp [nameCalls, failWhen, opens] at h
  | some f => cases names' with
    | none => simp [nameCalls, failWhen, opens] at h
    | some g =>
        obtain ⟨hcondition, -, hrest⟩ := failWhen_append_inj h
        obtain rfl := functionName_injective (by simpa using hcondition)
        exact ⟨rfl, (List.cons.inj hrest).2⟩

theorem branch_append_inj {branch branch' : Option Nat} {c : Call} (hc : ∀ f, c ≠ invalidUnless (selfCall f "errors"))
    (h : branchCalls branch ++ c :: r = branchCalls branch' ++ c :: r') : branch = branch' ∧ r = r' := by
  cases branch with
  | none => cases branch' with
    | none => exact ⟨rfl, (List.cons.inj h).2⟩
    | some g => exact absurd (List.cons.inj h).1 (hc g)
  | some f => cases branch' with
    | none => exact absurd (List.cons.inj h).1.symm (hc f)
    | some g =>
        obtain ⟨hline, hrest⟩ := List.cons.inj h
        obtain rfl := invalidUnless_selfCall_injective hline
        exact ⟨rfl, (List.cons.inj hrest).2⟩

/-! ## Checks with the same lead -/

theorem enum_append_ne_pattern {c c' : Nat} {v : Json} {text : String} :
    (enum c v).calls ++ r ≠ (pattern c' text).calls ++ r' := by
  intro h
  obtain ⟨hcondition, -, -⟩ := failWhen_append_inj h
  have hchars : (constantName c).toList ++ ".some(function (v) \x7b return equal(data, v); \x7d)".toList
      = (constantName c').toList ++ ".test(data)".toList := by
    simpa using congrArg String.toList hcondition
  exact absurd (constant_append_inj (by simp) (by simp) hchars).2 (by simp)

theorem property_append_ne_schema {name name' : String} {f f' : Nat} :
    (property name f).calls ++ r ≠ (dependentSchema name' f').calls ++ r' := by
  intro h
  have hchars := congrArg String.toList (Call.line.inj (List.cons.inj h).1)
  rw [property_shape, dependentSchema_shape] at hchars
  exact absurd (present_append_inj (List.append_cancel_left hchars)).2.2 (by simp)

theorem not_append_ne_choose {f c : Nat} {yes no : Option Nat} :
    (not f).calls ++ r ≠ (choose c yes no).calls ++ r' := by
  intro h
  have hsecond := (List.cons.inj h).2
  cases yes with
  | none => simp [failLines, branchCalls] at hsecond
  | some g => simp [failLines, branchCalls, invalidUnless] at hsecond

/-- Checks that begin alike are told apart by what follows. -/
theorem eq_of_alike {a b : Check} (halike : Alike a b) (ha : a.Fits constants) (hb : b.Fits constants)
    (h : a.calls ++ r = b.calls ++ r') : a = b ∧ r = r' := by
  -- the condition or the message of a check shows what it uses, or where that stands in the constants
  cases halike with
  | enter _ | leave | measure => exact ⟨rfl, (List.cons.inj h).2⟩
  | types names names' =>
      obtain ⟨-, hmessage, hr⟩ := failWhen_append_inj h
      exact ⟨congrArg types (word_injective (by simpa using hmessage)), hr⟩
  | enum c c' v v' =>
      obtain ⟨hcondition, -, hr⟩ := failWhen_append_inj h
      obtain rfl := constantName_injective (by simpa using hcondition)
      exact ⟨congrArg _ (Json.compact_injective ha.2 hb.2 (Option.some.inj (ha.1.symm.trans hb.1))), hr⟩
  | enumPattern c c' v text => exact absurd h enum_append_ne_pattern
  | patternEnum c c' text v => exact absurd h.symm enum_append_ne_pattern
  | pattern c c' text text' =>
      obtain ⟨hcondition, hmessage, hr⟩ := failWhen_append_inj h
      obtain rfl := constantName_injective (by simpa using hcondition)
      exact ⟨congrArg _ (by simpa using hmessage), hr⟩
  | const c c' v v' =>
      obtain ⟨hcondition, -, hr⟩ := failWhen_append_inj h
      obtain rfl := constantName_injective (by simpa using hcondition)
      exact ⟨congrArg _ (Json.compact_injective ha.2 hb.2 (Option.some.inj (ha.1.symm.trans hb.1))), hr⟩
  | limit upper exclusive n n' =>
      have htext : n.toText = n'.toText ∧ r = r' := by
        cases upper <;> cases exclusive <;>
          · obtain ⟨hcondition, -, hr⟩ := failWhen_append_inj h
            exact ⟨by simpa using hcondition, hr⟩
      exact ⟨congrArg _ (Json.Number.toText_injective ha hb htext.1), htext.2⟩
  | multiple n n' =>
      obtain ⟨hcondition, -, hr⟩ := failWhen_append_inj h
      exact ⟨congrArg _ (Json.Number.toText_injective ha hb (by simpa using hcondition)), hr⟩
  | length upper n n' =>
      cases upper <;>
        · obtain ⟨hcondition, -, hr⟩ := failWhen_append_inj h
          exact ⟨congrArg _ (toString_injective (by simpa using hcondition)), hr⟩
  | item i i' f f' =>
      obtain ⟨rfl, rfl, hr⟩ := item_append_inj h
      exact ⟨rfl, hr⟩
  | itemsFrom start start' f f' =>
      obtain ⟨hstart, hfunction, hr⟩ :
          toString start = toString start' ∧ functionName f = functionName f' ∧ r = r' := by
        simpa [calls, Standalone.itemsFrom, itemCall, invalidUnless, opens] using h
      obtain rfl := toString_injective hstart
      obtain rfl := functionName_injective hfunction
      exact ⟨rfl, hr⟩
  | count of upper n n' =>
      cases upper
      · obtain ⟨hcondition, -, hr⟩ := failWhen_append_inj h
        exact ⟨congrArg _ (toString_injective (by simpa using hcondition)), hr⟩
      · obtain ⟨hcondition, -, hr⟩ := failWhen_append_inj h
        exact ⟨congrArg _ (toString_injective (by simpa using hcondition)), hr⟩
  | contains f f' =>
      obtain ⟨hcondition, -, hr⟩ := failWhen_append_inj h
      exact ⟨congrArg _ (functionName_injective (by simpa using hcondition)), hr⟩
  | unique =>
      obtain ⟨-, -, hr⟩ := failWhen_append_inj h
      exact ⟨rfl, hr⟩
  | required name name' =>
      obtain ⟨hcondition, -, hr⟩ := failWhen_append_inj h
      exact ⟨congrArg _ (stringLiteral_injective (by simpa using hcondition)), hr⟩
  | requiredDependent name other' name' =>
      -- the conditions may be the same, the messages are not
      obtain ⟨-, hmessage, -⟩ := failWhen_append_inj h
      exact absurd (congrArg String.toList hmessage) (by simp)
  | dependentRequired other name name' =>
      obtain ⟨-, hmessage, -⟩ := failWhen_append_inj h
      exact absurd (congrArg String.toList hmessage) (by simp)
  | dependent other name other' name' =>
      obtain ⟨hcondition, hmessage, hr⟩ := failWhen_append_inj h
      obtain rfl := stringLiteral_injective (by simpa using hcondition)
      exact ⟨congrArg _ (by simpa using hmessage), hr⟩
  | property name name' f f' =>
      obtain ⟨hline, hr⟩ := List.cons.inj h
      have hchars := congrArg String.toList (Call.line.inj hline)
      rw [property_shape, property_shape] at hchars
      obtain ⟨rfl, rfl, -⟩ := present_append_inj (List.append_cancel_left hchars)
      exact ⟨rfl, hr⟩
  | propertySchema name name' f f' => exact absurd h property_append_ne_schema
  | schemaProperty name name' f f' => exact absurd h.symm property_append_ne_schema
  | dependentSchema name name' f f' =>
      obtain ⟨hline, hr⟩ := List.cons.inj h
      have hchars := congrArg String.toList (Call.line.inj hline)
      rw [dependentSchema_shape, dependentSchema_shape] at hchars
      obtain ⟨rfl, rfl, -⟩ := present_append_inj (List.append_cancel_left hchars)
      exact ⟨rfl, hr⟩
  | loop names names' patterns patterns' others others' =>
      simp only [calls, List.append_assoc, List.cons_append, List.nil_append, List.cons.injEq, true_and] at h
      obtain ⟨rfl, hpatterns⟩ := names_append_inj h
      obtain ⟨rfl, hothers⟩ := patterns_append_inj (noPattern_others others r) (noPattern_others others' r') ha.1 hb.1
        hpatterns
      obtain ⟨rfl, hr⟩ := others_append_inj ha.2 hb.2 hothers
      exact ⟨rfl, hr⟩
  | dependents name name' =>
      obtain ⟨hhead, hr⟩ := List.cons.inj h
      exact ⟨congrArg _ (stringLiteral_injective (by simpa [opens] using hhead)), hr⟩
  | all f f' =>
      obtain ⟨hline, hr⟩ := List.cons.inj h
      exact ⟨congrArg _ (invalidUnless_selfCall_injective hline), hr⟩
  | any fs fs' =>
      obtain ⟨hhead, hr⟩ : opens _ = opens _ ∧ r = r' := by simpa [calls, failLines] using h
      exact ⟨congrArg _ (alternatives_injective (by simpa [opens] using hhead)), hr⟩
  | one fs fs' =>
      simp only [calls, List.append_assoc, List.cons_append, List.nil_append, List.cons.injEq, true_and] at h
      have hline (f g : Nat) (hfg : "if (" ++ selfCall f "oneErrors" ++ ") matches++;"
          = "if (" ++ selfCall g "oneErrors" ++ ") matches++;") : f = g :=
        functionName_injective (by simpa [selfCall] using hfg)
      obtain ⟨rfl, hrest⟩ := lines_append_inj hline h
      exact ⟨rfl, by simpa [failLines] using hrest⟩
  | not f f' =>
      obtain ⟨hcondition, -, hr⟩ := failWhen_append_inj h
      exact ⟨congrArg _ (functionName_injective (by simpa [selfCall] using hcondition)), hr⟩
  | notChoose f c yes no => exact absurd h not_append_ne_choose
  | chooseNot f c yes no => exact absurd h.symm not_append_ne_choose
  | choose c c' yes yes' no no' =>
      simp only [calls, List.append_assoc, List.cons_append, List.nil_append] at h
      obtain ⟨htest, hyes⟩ := List.cons.inj h
      obtain rfl := functionName_injective (by simpa [opens, selfCall] using htest)
      obtain ⟨rfl, hno⟩ := branch_append_inj (fun f => by simp [invalidUnless]) hyes
      obtain ⟨rfl, hr⟩ := branch_append_inj (fun f => by simp [invalidUnless, closes]) hno
      exact ⟨rfl, hr⟩

/-- **A check is read off its lines.** -/
theorem calls_append_inj {a b : Check} (ha : a.Fits constants) (hb : b.Fits constants)
    (h : a.calls ++ r = b.calls ++ r') : a = b ∧ r = r' := by
  obtain ⟨c, rest, hc, hbegins⟩ := begins_lead a
  obtain ⟨c', rest', hc', hbegins'⟩ := begins_lead b
  obtain rfl : c = c' := by
    rw [hc, hc'] at h
    exact (List.cons.inj h).1
  exact eq_of_alike (alike_of_lead (Lead.eq_of_begins hbegins hbegins')) ha hb h

/-- **A row of checks is read off its lines**, up to a line with which no check begins. -/
theorem flatMap_calls_inj {last : Call} (hlast : ∀ l : Lead, ¬ l.Begins last) : ∀ {as bs : List Check},
    (∀ a ∈ as, a.Fits constants) → (∀ b ∈ bs, b.Fits constants) →
    as.flatMap calls ++ [last] = bs.flatMap calls ++ [last] → as = bs
  | [], [], _, _, _ => rfl
  | [], b :: bs, _, _, h => by
      obtain ⟨c, rest, hc, hbegins⟩ := begins_lead b
      rw [List.flatMap_cons, hc] at h
      obtain rfl := (List.cons.inj h).1
      exact absurd hbegins (hlast _)
  | a :: as, [], _, _, h => by
      obtain ⟨c, rest, hc, hbegins⟩ := begins_lead a
      rw [List.flatMap_cons, hc] at h
      obtain rfl := (List.cons.inj h).1
      exact absurd hbegins (hlast _)
  | a :: as, b :: bs, has, hbs, h => by
      obtain ⟨ha, has'⟩ := List.forall_mem_cons.mp has
      obtain ⟨hb, hbs'⟩ := List.forall_mem_cons.mp hbs
      rw [List.flatMap_cons, List.flatMap_cons, List.append_assoc, List.append_assoc] at h
      obtain ⟨rfl, hrest⟩ := calls_append_inj ha hb h
      rw [flatMap_calls_inj hlast has' hbs' hrest]

end Check

end DecoderForge.Standalone
