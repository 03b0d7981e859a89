import DecoderForge.Proofs.Standalone.Acceptable
import DecoderForge.Proofs.Validation.Lone
import DecoderForge.Proofs.Standalone.ModuleText

/-!
# DecoderForge — validator modules are closed

A validator module needs nothing that it does not define.  The functions that were set aside while linking have all
been written, in the order of their numbers; whatever number stands in a body is that of a function or constant
that is defined, and stands for what the schema asked for; a reference has one function, which is called wherever
the reference is used.

## The architecture

* **`ClosedModule`** — what this means of a module and its text.
* **`closed_of_source`** — every module is closed.
-/

namespace DecoderForge.Standalone

open Layout

/-- A linked module with its text, where each function has an origin. -/
structure ClosedModule (root : Json) (validateFormats : Bool) (pointer text : String) (entry : Nat) (l : Linkage)
    (origins : Origins) : Prop where
  linked : link root validateFormats pointer = .ok (entry, l)
  rendered : text = render "  " (moduleCalls entry l)
  /-- No function is missing: each is the function of its origin, where every demand of the body is met. -/
  written : ∀ k < l.functions.length, ∃ schema location ns, origins[k]? = some (schema, location)
    ∧ l.functions[k]? = some (some (functionCode k ((body validateFormats schema location).lines ns)))
    ∧ List.Forall₂ (l.Supplies origins) (body validateFormats schema location).demands ns
  /-- The text defines the constants in order, then the functions in order, and no other numbered names. -/
  defines : definitions (codeTokens text.toList) = ((List.range l.constants.length).map constantName
    ++ (List.range l.functions.length).map functionName).map String.toList
  /-- A function that is called anywhere in the text is among them. -/
  calls : ∀ k, (functionName k).toList ∈ codeTokens text.toList → k < l.functions.length
  /-- So is a constant that is used. -/
  uses : ∀ k, (constantName k).toList ∈ codeTokens text.toList → k < l.constants.length
  /-- No reference owns two functions, and no two references own the same. -/
  once : (l.references.map Prod.fst).Nodup ∧ (l.references.map Prod.snd).Nodup
  /-- A reference owns the function of its target. -/
  owned : ∀ r k, l.references.lookup r = some k → ∃ target, resolveLocal? root r = some target
    ∧ origins[k]? = some (target, r)
  /-- A schema that uses a reference calls the function that the reference owns. -/
  references : ∀ k schema location r, origins[k]? = some (schema, location) → RefersTo schema r →
    ∃ owner, l.references.lookup r = some owner
      ∧ l.functions[k]? = some (some (functionCode k [.line ("return " ++ selfCall owner "errors" ++ ";")]))
  entry : l.references.lookup pointer = some entry

section

variable {root : Json} {validateFormats : Bool}

/-- The lines of a schema that is a reference. -/
theorem lines_of_refersTo (validateFormats : Bool) {schema : Json} {r : String} (h : RefersTo schema r)
    (location : String) (n : Nat) : (body validateFormats schema location).lines [n]
      = [.line ("return " ++ selfCall n "errors" ++ ";")] := by
  cases schema with
  | obj members =>
      have h : Json.Members.get? members "$ref" = some (.str r) := h
      simp [body, Site.get?, h, Piece.ask]
  | null | bool _ | num _ | str _ | arr _ => exact absurd h (by simp [RefersTo, Json.get?])

/-- **Every module that is emitted is closed.** -/
theorem closed_of_source {pointer text : String} (h : source root validateFormats pointer = .ok text) :
    ∃ entry l origins, ClosedModule root validateFormats pointer text entry l origins := by
  obtain ⟨⟨entry, l⟩, hlink, htext⟩ := bind_eq_ok h
  obtain rfl := Except.ok.inj htext
  obtain ⟨origins, codes, hwired, hcodes, hentry⟩ := wired_of_link hlink
  have hscript := script_of_link hlink
  have hfine : Fine l.names l.names (codeTokens (render "  " (moduleCalls entry l)).toList) := by
    rw [hscript.codeTokens_render]
    exact hscript.fine
  have hwritten : ∀ k < l.functions.length, ∃ schema location ns, origins[k]? = some (schema, location)
      ∧ l.functions[k]? = some (some (functionCode k ((body validateFormats schema location).lines ns)))
      ∧ List.Forall₂ (l.Supplies origins) (body validateFormats schema location).demands ns := by
    intro k hk
    obtain ⟨code, hcode⟩ : ∃ code, l.functions[k]? = some (some code) := by
      rw [hcodes, List.length_map] at hk
      exact ⟨codes[k], by rw [hcodes, List.getElem?_map, List.getElem?_eq_getElem hk, Option.map_some]⟩
    obtain ⟨schema, location, ns, horigin, rfl, hmet⟩ := hwired.written hcode
    exact ⟨schema, location, ns, horigin, hcode, hmet⟩
  refine ⟨entry, l, origins, ?_⟩
  exact {
    linked := hlink
    rendered := rfl
    written := hwritten
    defines := by
      rw [hfine.defines]
      simp [Linkage.names, Label.word, Label.text, Function.comp_def]
    calls := fun k hk => Linkage.function_mem_names_iff.mp (hfine.mem_of_word (l := .function k) hk)
    uses := fun k hk => Linkage.constant_mem_names_iff.mp (hfine.mem_of_word (l := .constant k) hk)
    once := ⟨hwired.once, hwired.nodup_numbers⟩
    owned := fun r k hr => hwired.owned (Linkage.mem_of_lookup hr)
    references := by
      intro k schema location r horigin hr
      have hk : k < l.functions.length := hwired.length ▸ (List.getElem?_eq_some_iff.mp horigin).1
      obtain ⟨schema', location', ns, horigin', hcode, hmet⟩ := hwritten k hk
      obtain ⟨rfl, rfl⟩ := Prod.mk.inj (Option.some.inj (horigin.symm.trans horigin'))
      rw [demands_of_refersTo validateFormats hr] at hmet
      cases hmet with
      | cons howner hnil =>
          cases hnil
          rw [lines_of_refersTo validateFormats hr] at hcode
          exact ⟨_, howner, hcode⟩
    entry := hentry }

end

/-- A list of nodes, where each may hold the next. -/
def chainNode : Json := .obj [("properties", .obj [("next", .obj [("$ref", .str "#/definitions/A")])])]

/-- The node calls the function of its member, which calls the function of the node again. -/
theorem closed_of_source_chain : ∃ text l origins,
    source (lone chainNode) true (definitionPointer "A") = .ok text
      ∧ ClosedModule (lone chainNode) true (definitionPointer "A") text 0 l origins
      ∧ l.functions.length = 2 ∧ l.references = [(definitionPointer "A", 0)] := by
  obtain ⟨l, hlink, hlength, hreferences⟩ : ∃ l, link (lone chainNode) true (definitionPointer "A") = .ok (0, l)
      ∧ l.functions.length = 2 ∧ l.references = [(definitionPointer "A", 0)] := by
    unfold link linkReference
    rw [resolveLocal?_lone]
    exact ⟨_, rfl, rfl, rfl⟩
  have hsource : source (lone chainNode) true (definitionPointer "A")
      = .ok (render "  " (moduleCalls 0 l)) := by
    unfold source
    rw [hlink]
    rfl
  obtain ⟨entry, l', origins, hclosed⟩ := closed_of_source hsource
  obtain ⟨rfl, rfl⟩ := Prod.mk.inj (Except.ok.inj (hlink.symm.trans hclosed.linked))
  exact ⟨_, l, origins, hsource, hclosed, hlength, hreferences⟩

end DecoderForge.Standalone
