import DecoderForge.Proofs.Validation.Lone
import DecoderForge.Proofs.Standalone.Scripts
import DecoderForge.Proofs.Standalone.Wiring
import DecoderForge.Standalone.Module

/-!
# DecoderForge — the text of a validator module

A module is written call by call, so that its tokens are those of its calls.  Its frame is fixed; in between stand
the constants and the functions, each of which begins with the declaration of its name.

## The architecture

* **`Script.codeTokens_render`** — the tokens of the text are those of the calls.
* **`script_declaration`** — a line that declares a name.
* **`script_moduleCalls`** — a whole module, with the names it defines in order.
* **`script_of_link`** — what `link` gives is such a module.
* **`format_isOk_of_source`** — the formatter accepts every module, and no word in it comes from the schema.
-/

namespace DecoderForge.Standalone

open Layout

variable {labels defined : List Label} {stack stack' : List Char}

/-! ## From calls to text -/

/-- The tokens of the text that calls write. -/
theorem codeTokens_of_written {calls : List Call} {text : List Char} (hw : Written calls text)
    (h : ∀ c ∈ calls, ∃ s : List Char, c.body = s ++ ['\n'] ∧ Quoting.outside.after s = .outside) :
    codeTokens text = calls.flatMap fun c => codeTokens c.body := by
  induction hw with
  | nil => rfl
  | @cons blanks text c calls hblanks _ ih =>
      obtain ⟨⟨s, hbody, houtside⟩, hrest⟩ := List.forall_mem_cons.mp h
      have hafter : Quoting.outside.after c.body = .outside := by
        rw [hbody, Quoting.after_append, houtside]
        rfl
      -- a line end stands between this call and the next
      have hapart : Apart (Quoting.outside.code c.body) (Quoting.outside.code text) := by
        refine apart_of_last fun x hx => ?_
        rw [hbody, Quoting.code_append, houtside] at hx
        obtain rfl : '\n' = x := by simpa [Quoting.code] using hx
        rfl
      rw [List.append_assoc, codeTokens_blanks_append hblanks, codeTokens_append hafter hapart, ih hrest,
        List.flatMap_cons]

theorem Script.codeTokens_render {calls : List Call} (h : Script labels defined stack calls stack') :
    codeTokens (render "  " calls).toList = calls.flatMap fun c => codeTokens c.body :=
  codeTokens_of_written (written_render (by decide) calls) h.outside

/-- Calls that leave no bracket open are accepted. -/
theorem Script.accepted {calls : List Call} (h : Script labels defined [] calls []) (style : Style) :
    (format (render "  " calls) style).isOk = true := by
  have htakes : Takes [] (render "  " calls).toList [] := takes_of_written (written_render (by decide) calls) h.takes
  rw [format_isOk_iff]
  exact ⟨_, htakes, rfl, rfl⟩

/-! ## Declarations -/

/-- A keyword with a blank behind it, so that a name may follow. -/
theorem codeTokens_keyword {keyword : List Char} (h : isKeyword keyword = true) :
    (∀ c ∈ keyword ++ [' '], isPlain c = true) ∧ codeTokens (keyword ++ [' ']) = [keyword]
      ∧ isOwnToken keyword = true := by
  rw [isKeyword, Bool.or_eq_true, beq_iff_eq, beq_iff_eq] at h
  rcases h with rfl | rfl
  · exact ⟨List.all_eq_true.mp rfl, rfl, rfl⟩
  · exact ⟨List.all_eq_true.mp rfl, rfl, rfl⟩

/-- A line that declares a name: a keyword, the name, and a rest that does not run on from it. -/
theorem script_declaration (keyword : List Char) (hkeyword : isKeyword keyword = true) {front rest : String}
    (hfront : front = String.ofList (keyword ++ [' '])) {l : Label} (hl : l ∈ labels) {spot : Spot}
    (hrest : Fits labels ⟨stack, true⟩ rest spot) {c : Call}
    (hc : c.body = (front ++ l.text ++ rest).toList ++ ['\n']) : Script labels [l] stack [c] spot.stack := by
  obtain ⟨hplain, htokens, hown⟩ := codeTokens_keyword hkeyword
  obtain ⟨houtside, hcode⟩ := Quoting.outside_of_noQuote fun hquote => absurd (hplain _ hquote) (by decide)
  obtain ⟨hlabel, hword⟩ := l.codeTokens_word
  have hboth : Quoting.outside.after (keyword ++ [' '] ++ l.word) = .outside := by
    rw [Quoting.after_append, houtside, hlabel]
  have hname : codeTokens (keyword ++ [' '] ++ l.word) = [keyword, l.word] := by
    have hblank : ∀ x ∈ (Quoting.outside.code (keyword ++ [' '])).getLast?, isWordChar x = false := by
      rw [hcode]
      simp [isWordChar]
    rw [codeTokens_append houtside (apart_of_last hblank), htokens, hword]
    rfl
  have hfits : Apart (Quoting.outside.code (keyword ++ [' '] ++ l.word)) (Quoting.outside.code rest.toList) := by
    obtain ⟨x, hx, hfalse⟩ := hrest.head rfl
    exact apart_of_head fun y hy => Option.mem_unique hx hy ▸ hfalse
  have htext : (front ++ l.text ++ rest).toList = keyword ++ [' '] ++ l.word ++ rest.toList := by
    simp [hfront, String.toList_append, Label.word]
  have htakes : Takes stack (front ++ l.text ++ rest).toList spot.stack := by
    rw [htext]
    exact (((closed_of_plain hplain).takes stack).append
      ((closed_of_plain fun c hc => l.isPlain_of_mem hc).takes stack)).append hrest.takes
  refine .line hc htakes ?_ ?_
  · rw [htext, Quoting.after_append, hboth, hrest.outside]
  · rw [htext, codeTokens_append hboth hfits, hname]
    exact (Fine.ofKeyword hl hown hkeyword).append hrest.fine

/-! ## The frame of a module -/

theorem Statements.blank : Statements labels [.blank] := fun stack => .line (s := "") rfl (.nil stack) rfl .nil

set_option maxRecDepth 4000 in
theorem statements_helperCalls : Statements labels helperCalls := by
  have hhasOwn : Statements labels [opens "function hasOwn(obj, key)",
      .line "return Object.prototype.hasOwnProperty.call(obj, key);", closes] :=
    .ownBlock rfl (by rfl) (.own rfl (by rfl))
  have hisObject : Statements labels [opens "function isObject(x)",
      .line "return x !== null && typeof x === \"object\" && !Array.isArray(x);", closes] :=
    .ownBlock rfl (by rfl) (.own rfl (by rfl))
  have hpropPath : Statements labels [opens "function propPath(path, key)",
      .line "return /^[A-Za-z_$][A-Za-z0-9_$]*$/.test(key) ? path + \".\" + key : path + \"[\" + JSON.stringify(key) + \"]\";",
      closes] :=
    .ownBlock rfl (by rfl) (.own rfl (by rfl))
  have hreturn : Statements labels [.line "return true;"] := .own rfl (by rfl)
  have harrays : Statements labels [opens "if (Array.isArray(a))",
      .line "if (!Array.isArray(b) || a.length !== b.length) return false;",
      .line "for (var i = 0; i < a.length; i++) if (!equal(a[i], b[i])) return false;",
      .line "return true;", closes] :=
    .ownBlock rfl (by rfl) (.cons (.own rfl (by rfl)) (.cons (.own rfl (by rfl)) hreturn))
  have hkeys : Statements labels [opens "for (var k = 0; k < keys.length; k++)",
      .line "if (!hasOwn(b, keys[k]) || !equal(a[keys[k]], b[keys[k]])) return false;", closes] :=
    .ownBlock rfl (by rfl) (.own rfl (by rfl))
  have hobjects : Statements labels [opens "if (isObject(a) && isObject(b))", .line "var keys = Object.keys(a);",
      .line "if (keys.length !== Object.keys(b).length) return false;",
      opens "for (var k = 0; k < keys.length; k++)",
      .line "if (!hasOwn(b, keys[k]) || !equal(a[keys[k]], b[keys[k]])) return false;", closes,
      .line "return true;", closes] :=
    .ownBlock rfl (by rfl) (.cons (.own rfl (by rfl)) (.cons (.own rfl (by rfl)) (hkeys.append hreturn)))
  have hequal : Statements labels [opens "function equal(a, b)", .line "if (a === b) return true;",
      opens "if (Array.isArray(a))",
      .line "if (!Array.isArray(b) || a.length !== b.length) return false;",
      .line "for (var i = 0; i < a.length; i++) if (!equal(a[i], b[i])) return false;",
      .line "return true;", closes,
      opens "if (isObject(a) && isObject(b))", .line "var keys = Object.keys(a);",
      .line "if (keys.length !== Object.keys(b).length) return false;",
      opens "for (var k = 0; k < keys.length; k++)",
      .line "if (!hasOwn(b, keys[k]) || !equal(a[keys[k]], b[keys[k]])) return false;", closes,
      .line "return true;", closes, .line "return false;", closes] :=
    .ownBlock rfl (by rfl) (.cons (.own rfl (by rfl)) (harrays.append (hobjects.append (.own rfl (by rfl)))))
  have hlater : Statements labels [opens "for (var i = 0; i < items.length; i++)",
      .line "for (var j = i + 1; j < items.length; j++) if (equal(items[i], items[j])) return false;", closes] :=
    .ownBlock rfl (by rfl) (.own rfl (by rfl))
  have hunique : Statements labels [opens "function uniqueItems(items)", opens "for (var i = 0; i < items.length; i++)",
      .line "for (var j = i + 1; j < items.length; j++) if (equal(items[i], items[j])) return false;", closes,
      .line "return true;", closes] :=
    .ownBlock rfl (by rfl) (hlater.append hreturn)
  exact hhasOwn.append (.cons .blank (hisObject.append (.cons .blank (hpropPath.append (.cons .blank
    (hequal.append (.cons .blank hunique)))))))

theorem statements_entryCalls {entry : Nat} (h : .function entry ∈ labels) :
    Statements labels (entryCalls entry) := by
  have hvalid : Phrase labels ("var valid = " ++ functionName entry ++ "(data, \"\", errors);") :=
    (Spells.own rfl |>.hole (phrase_function h) |>.text rfl).phrase (by rfl)
  have hvalidate : Statements labels [opens "function validate(data)", .line "var errors = [];",
      .line ("var valid = " ++ functionName entry ++ "(data, \"\", errors);"),
      .line "validate.errors = valid ? null : errors;", .line "return valid;", closes] :=
    .ownBlock rfl (by rfl) (.cons (.own rfl (by rfl)) (.cons (.line hvalid) (.cons (.own rfl (by rfl))
      (.own rfl (by rfl)))))
  exact .cons .blank (hvalidate.append (.cons .blank (.cons (.own rfl (by rfl)) (.own rfl (by rfl)))))

/-! ## Constants and functions -/

theorem script_constantCalls : ∀ (n : Nat) {values : List String}, (∀ v ∈ values, Phrase labels v) →
    (∀ i < values.length, .constant (n + i) ∈ labels) → Script labels
      ((List.range' n values.length).map .constant) stack (constantCalls n values) stack
  | _, [], _, _ => .nil
  | n, value :: rest, hvalues, hlabels => by
      obtain ⟨hvalue, hvalues⟩ := List.forall_mem_cons.mp hvalues
      have htail : Fits labels ⟨[], true⟩ (" = " ++ value ++ ";") ⟨[], false⟩ :=
        (Spells.own rfl |>.hole hvalue |>.text rfl).fits (by rfl)
      have hbody : (Call.line ("var " ++ constantName n ++ " = " ++ value ++ ";")).body
          = ("var " ++ (Label.constant n).text ++ (" = " ++ value ++ ";")).toList ++ ['\n'] := by
        simp [Call.body, String.toList_append, Label.text]
      have hline := script_declaration ['v', 'a', 'r'] rfl rfl (hlabels 0 (Nat.succ_pos _)) (htail.under stack) hbody
      have hrest := script_constantCalls (n + 1) hvalues fun i hi => by
        rw [Nat.add_assoc, Nat.add_comm 1 i]
        exact hlabels (i + 1) (Nat.succ_lt_succ hi)
      exact hline.append hrest

theorem script_functionCode {n : Nat} (h : .function n ∈ labels) {lines : List Call}
    (hlines : Statements labels lines) (stack : List Char) :
    Script labels [.function n] stack (functionCode n lines) stack := by
  have htail : Fits labels ⟨[], true⟩ "(data, path, errors) \x7b" ⟨['{'], false⟩ := (Spells.own rfl).fits (by rfl)
  have hbody : (opens ("function " ++ functionName n ++ "(data, path, errors)")).body
      = ("function " ++ (Label.function n).text ++ "(data, path, errors) \x7b").toList ++ ['\n'] := by
    simp [opens, Call.body, String.toList_append, Label.text]
  have hhead := script_declaration ['f', 'u', 'n', 'c', 't', 'i', 'o', 'n'] rfl rfl h (htail.under stack) hbody
  exact (hhead.append (hlines _)).append (script_closes stack)

theorem script_functions : ∀ (n : Nat) {codes : List (List Call)},
    (∀ i code, codes[i]? = some code → ∀ stack, Script labels [.function (n + i)] stack code stack) →
      Script labels ((List.range' n codes.length).map .function) stack (codes.flatMap fun code => .blank :: code) stack
  | _, [], _ => .nil
  | n, code :: rest, h => by
      have hrest := script_functions (n + 1) fun i code hi => by
        rw [Nat.add_assoc, Nat.add_comm 1 i]
        exact h (i + 1) code hi
      exact ((Statements.blank stack).append (h 0 code rfl stack)).append hrest

namespace Linkage

/-- The names of the constants and functions of a module, in the order in which it defines them. -/
def names (l : Linkage) : List Label :=
  (List.range l.constants.length).map .constant ++ (List.range l.functions.length).map .function

theorem function_mem_names_iff {l : Linkage} {k : Nat} : .function k ∈ l.names ↔ k < l.functions.length := by
  simp [names]

theorem constant_mem_names_iff {l : Linkage} {k : Nat} : .constant k ∈ l.names ↔ k < l.constants.length := by
  simp [names]

end Linkage

/-- **A whole module**: it defines its constants and functions in order. -/
theorem script_moduleCalls {entry : Nat} {l : Linkage} {codes : List (List Call)}
    (hcodes : l.functions = codes.map some) (hentry : entry < l.functions.length)
    (hconstants : ∀ v ∈ l.constants, Phrase l.names v)
    (hfunctions : ∀ k code, codes[k]? = some code → ∃ lines, code = functionCode k lines ∧ Statements l.names lines) :
    Script l.names l.names [] (moduleCalls entry l) [] := by
  have hhead : Statements l.names [.line "/* eslint-disable */", .line "\"use strict\";", .blank] :=
    .cons (.own rfl (by rfl)) (.cons (.own rfl (by rfl)) .blank)
  have hconstantCalls : Script l.names ((List.range l.constants.length).map .constant) []
      (if l.constants.isEmpty then [] else .blank :: constantCalls 0 l.constants) [] := by
    split
    · next hempty =>
        rw [List.isEmpty_iff.mp hempty]
        exact .nil
    · have hcalls : Script l.names _ [] _ [] := script_constantCalls 0 hconstants fun i hi =>
        Linkage.constant_mem_names_iff.mpr (by simpa using hi)
      rw [← List.range_eq_range'] at hcalls
      exact (Statements.blank []).append hcalls
  have hfunctionCalls : Script l.names ((List.range l.functions.length).map .function) []
      (codes.flatMap fun code => .blank :: code) [] := by
    have hcalls : Script l.names ((List.range' 0 codes.length).map .function) []
        (codes.flatMap fun code => .blank :: code) [] := script_functions 0 fun k code hk stack => by
      obtain ⟨lines, rfl, hlines⟩ := hfunctions k code hk
      rw [Nat.zero_add]
      have hlt : k < codes.length := (List.getElem?_eq_some_iff.mp hk).1
      exact script_functionCode (Linkage.function_mem_names_iff.mpr (by simpa [hcodes] using hlt)) hlines stack
    rw [← List.range_eq_range'] at hcalls
    rw [hcodes, List.length_map]
    exact hcalls
  have hentryCalls := statements_entryCalls (Linkage.function_mem_names_iff.mpr hentry)
  have hall := ((((hhead []).append (statements_helperCalls [])).append hconstantCalls).append hfunctionCalls).append
    (hentryCalls [])
  unfold moduleCalls
  rw [hcodes, List.flatMap_map]
  simpa [Linkage.names] using hall

/-! ## Linked modules -/

section Linked

variable {root : Json} {validateFormats : Bool} {origins : Origins} {l : Linkage}

/-- A number that meets a demand names a constant or a function that there is. -/
theorem Wired.label_mem_names (h : Wired root validateFormats origins l) {d : Demand} {k : Nat}
    (hd : l.Supplies origins d k) : d.label k ∈ l.names := by
  have hfunction {o : Json × String} (ho : origins[k]? = some o) : .function k ∈ l.names := by
    rw [Linkage.function_mem_names_iff, ← h.length]
    exact (List.getElem?_eq_some_iff.mp ho).1
  cases d with
  | constant value => exact Linkage.constant_mem_names_iff.mpr (List.getElem?_eq_some_iff.mp hd).1
  | function schema location => exact hfunction hd
  | reference r =>
      obtain ⟨target, -, horigin⟩ := h.owned (Linkage.mem_of_lookup hd)
      exact hfunction horigin
  | fault f => exact hd.elim

theorem Wired.supplied_subset (h : Wired root validateFormats origins l) {ds : List Demand} {ns : List Nat}
    (hmet : List.Forall₂ (l.Supplies origins) ds ns) : supplied ds ns ⊆ l.names := by
  induction hmet with
  | nil => exact List.nil_subset _
  | cons hd _ ih => exact List.cons_subset.mpr ⟨h.label_mem_names hd, ih⟩

/-- **A linked module is read as code** and defines all the names that it uses. -/
theorem script_of_link {pointer : String} {entry : Nat}
    (h : link root validateFormats pointer = .ok (entry, l)) :
    Script l.names l.names [] (moduleCalls entry l) [] := by
  obtain ⟨origins, codes, hwired, hcodes, hentry⟩ := wired_of_link h
  have hvalues : ∀ value ∈ l.constants, ∀ labels, Phrase labels value :=
    (links_of_linkReference h).forall_constants
      (fun schema location value hd => (body_scripted validateFormats schema location).demands _ hd)
      (fun value hd => by simp at hd) (by simp)
  have hreference : Label.function entry ∈ l.names := hwired.label_mem_names (d := .reference pointer) hentry
  refine script_moduleCalls hcodes (Linkage.function_mem_names_iff.mp hreference) (fun v hv => hvalues v hv _)
    fun k code hk => ?_
  have hwritten : l.functions[k]? = some (some code) := by
    rw [hcodes, List.getElem?_map, hk]
    rfl
  obtain ⟨schema, location, ns, -, rfl, hmet⟩ := hwired.written hwritten
  exact ⟨_, rfl, ((body_scripted validateFormats schema location).lines ns hmet.length_eq.symm).mono
    (hwired.supplied_subset hmet)⟩

/-- **Every module is accepted by the formatter, and no text of the schema gets out of its literals**: the tokens
outside of literals are the emitter's own, numbers, and numbered names. -/
theorem format_isOk_of_source {pointer text : String} (h : source root validateFormats pointer = .ok text) :
    (∀ style, (format text style).isOk = true)
      ∧ ∀ t ∈ codeTokens text.toList, isOwnToken t = true ∨ t.all isNumeral = true ∨ isNumbered t = true := by
  obtain ⟨⟨entry, l⟩, hlink, htext⟩ := bind_eq_ok h
  obtain rfl := Except.ok.inj htext
  have hscript := script_of_link hlink
  refine ⟨hscript.accepted, fun t ht => ?_⟩
  rw [hscript.codeTokens_render] at ht
  refine (hscript.fine.known t ht).imp_right (Or.imp_right ?_)
  rintro ⟨name, -, rfl⟩
  exact name.isNumbered_word

end Linked

/-- A schema with quotes, brackets and line ends in its texts. -/
def awkwardTexts : Json :=
  .obj [("properties", .obj [("a\"] = 1; //", .obj [("const", .str "\"\x7d\n")])]), ("required", .arr [.str "\\"]),
    ("pattern", .str "[\"'")]

theorem format_isOk_of_source_awkward : ∃ text, source (lone awkwardTexts) true (definitionPointer "A") = .ok text
    ∧ (∀ style, (format text style).isOk = true)
    ∧ ∀ t ∈ codeTokens text.toList, isOwnToken t = true ∨ t.all isNumeral = true ∨ isNumbered t = true := by
  obtain ⟨text, htext⟩ : ∃ text, source (lone awkwardTexts) true (definitionPointer "A") = .ok text := by
    unfold source link linkReference
    rw [resolveLocal?_lone]
    exact ⟨_, rfl⟩
  exact ⟨text, htext, format_isOk_of_source htext⟩

end DecoderForge.Standalone
