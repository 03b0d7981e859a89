import DecoderForge.Standalone.Link

/-!
# DecoderForge — validator modules

A standalone validator is a module without dependencies: helper functions, the constants, one function
per schema, and `validate`, which calls the function of the definition.

* `Standalone.source` — the module for the definition under a pointer.
-/

namespace DecoderForge.Standalone

open Layout (Call)

/-- Functions that every module has. -/
def helperCalls : List Call :=
  [opens "function hasOwn(obj, key)",
    .line "return Object.prototype.hasOwnProperty.call(obj, key);",
    closes,
    .blank,
    opens "function isObject(x)",
    .line "return x !== null && typeof x === \"object\" && !Array.isArray(x);",
    closes,
    .blank,
    opens "function propPath(path, key)",
    .line "return /^[A-Za-z_$][A-Za-z0-9_$]*$/.test(key) ? path + \".\" + key : path + \"[\" + JSON.stringify(key) + \"]\";",
    closes,
    .blank,
    opens "function equal(a, b)",
    .line "if (a === b) return true;",
    opens "if (Array.isArray(a))",
    .line "if (!Array.isArray(b) || a.length !== b.length) return false;",
    .line "for (var i = 0; i < a.length; i++) if (!equal(a[i], b[i])) return false;",
    .line "return true;",
    closes,
    opens "if (isObject(a) && isObject(b))",
    .line "var keys = Object.keys(a);",
    .line "if (keys.length !== Object.keys(b).length) return false;",
    opens "for (var k = 0; k < keys.length; k++)",
    .line "if (!hasOwn(b, keys[k]) || !equal(a[keys[k]], b[keys[k]])) return false;",
    closes,
    .line "return true;",
    closes,
    .line "return false;",
    closes,
    .blank,
    opens "function uniqueItems(items)",
    opens "for (var i = 0; i < items.length; i++)",
    .line "for (var j = i + 1; j < items.length; j++) if (equal(items[i], items[j])) return false;",
    closes,
    .line "return true;",
    closes]

/-- The lines that define constants from number `n` on. -/
def constantCalls (n : Nat) : List String → List Call
  | [] => []
  | value :: rest =>
    .line ("var " ++ constantName n ++ " = " ++ value ++ ";") :: constantCalls (n + 1) rest

/-- The function that a module exports. -/
def entryCalls (entry : Nat) : List Call :=
  [.blank,
    opens "function validate(data)",
    .line "var errors = [];",
    .line ("var valid = " ++ functionName entry ++ "(data, \"\", errors);"),
    .line "validate.errors = valid ? null : errors;",
    .line "return valid;",
    closes,
    .blank,
    .line "module.exports = validate;",
    .line "module.exports.default = validate;"]

/-- A linked module. -/
def moduleCalls (entry : Nat) (l : Linkage) : List Call :=
  [.line "/* eslint-disable */", .line "\"use strict\";", .blank]
    ++ helperCalls
    ++ (if l.constants.isEmpty then [] else .blank :: constantCalls 0 l.constants)
    ++ l.functions.flatMap (fun f => match f with
      | some code => .blank :: code
      | none => [])
    ++ entryCalls entry

/-- The validator module for the definition under a pointer. -/
def source (root : Json) (validateFormats : Bool) (pointer : String) : Except Fault String := do
  let (entry, l) ← link root validateFormats pointer
  return Layout.render "  " (moduleCalls entry l)

end DecoderForge.Standalone
