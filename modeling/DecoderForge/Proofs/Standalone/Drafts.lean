import DecoderForge.Proofs.Validation.Lone
import DecoderForge.Proofs.Validation.Drafts

/-!
# DecoderForge — one module for all drafts

The module of a definition is the same for every draft.  The engine's validator is not: two drafts give the same
verdicts where nothing that the validator reads depends on which of them is meant.

## The architecture

* **`ValidatorCompiler.drafts_accept_alike`** — one module, and one verdict where the drafts do not differ.
* **`ValidatorCompiler.drafts_differ_on_const`** — one module, and two verdicts.
-/

namespace DecoderForge.ValidatorCompiler

/-- **One module for two drafts**, and one verdict on every value on which they do not differ. -/
theorem drafts_accept_alike {o o' : ValidatorOptions} (hformats : o.validateFormats = o'.validateFormats)
    {schema : Json} {pointer : String} {b b' : BoundValidator} (hb : bindPointer? o schema pointer = some b)
    (hb' : bindPointer? o' schema pointer = some b') :
    (builtIn o).standaloneSource schema b = (builtIn o').standaloneSource schema b'
      ∧ ∃ d, Document.ofSchema o.draft (referring schema pointer) = .ok d
        ∧ ∀ v, d.Undated o'.draft o.validateFormats v → b.accepts v = b'.accepts v := by
  obtain ⟨-, -, d, c, hd, hc, rfl⟩ := bindPointer?_eq_some_iff.mp hb
  obtain ⟨-, -, d', c', hd', hc', rfl⟩ := bindPointer?_eq_some_iff.mp hb'
  obtain ⟨hdraft, hroot, hclosed⟩ := Document.eq_of_ofSchema hd
  refine ⟨by simp only [builtIn, hformats], d, hd, fun v hundated => ?_⟩
  -- the second document is the first with its own draft
  have hids := hundated.identifiers
  rw [hdraft, hroot] at hids
  rw [Document.ofSchema_congr hids, hd] at hd'
  obtain rfl := Except.ok.inj hd'
  rw [← hroot] at hc hc'
  rw [← hformats] at hc' ⊢
  rw [← hdraft] at hc ⊢
  rw [Bool.eq_iff_iff, BoundValidator.accepts, BoundValidator.accepts, List.isEmpty_iff, List.isEmpty_iff]
  exact Document.issues_eq_nil_iff_of_undated hclosed hundated hc hc'

/-- Objects with a whole number and the next such object. -/
def chain : Json :=
  .obj [("type", .str "object"), ("properties", .obj
    [("n", .obj [("type", .str "integer")]), ("next", .obj [("$ref", .str "#/definitions/A")])])]

/-- A definition that refers to itself, under drafts that differ on whole floats, and a value without any. -/
theorem drafts_accept_alike_chain :
    let v : Json := .obj [("n", .num (.int 1)), ("next", .obj [("n", .num (.int 2))])]
    ∃ b b', bindPointer? { draft := .draft4 } (lone chain) (definitionPointer "A") = some b
      ∧ bindPointer? {} (lone chain) (definitionPointer "A") = some b'
      ∧ b.accepts v = b'.accepts v := by
  intro v
  obtain ⟨b, hb, -⟩ := bindPointer?_lone { draft := .draft4 } chain (by decide) rfl rfl
  obtain ⟨b', hb', -⟩ := bindPointer?_lone {} chain (by decide) rfl rfl
  obtain ⟨-, d, hd, haccepts⟩ := @drafts_accept_alike { draft := .draft4 } {} rfl _ _ _ _ hb hb'
  have hnames : Document.ofSchema .draft4 (referring (lone chain) (definitionPointer "A"))
      = .ok (loneDocument .draft4 chain) := rfl
  obtain rfl := Except.ok.inj (hnames.symm.trans hd)
  refine ⟨b, b', hb, hb', haccepts v ?_⟩
  exact Document.undated_of_texts (Document.eq_of_ofSchema hd).2.2 (by decide) (by decide) (by decide)
    (fun _ => by decide) rfl

/-! ## A constant -/

/-- The number one and nothing else. -/
def constantOne : Json := .obj [("const", .num (.int 1))]

/-- **One module, and two verdicts**: the constant counts in one draft and not in the other. -/
theorem drafts_differ_on_const :
    ∃ b b' text,
      bindPointer? { draft := .draft4 } (lone constantOne) "#/definitions/A" = some b
        ∧ bindPointer? {} (lone constantOne) "#/definitions/A" = some b'
        ∧ (builtIn { draft := .draft4 }).standaloneSource (lone constantOne) b = .ok text
        ∧ (builtIn {}).standaloneSource (lone constantOne) b' = .ok text
        ∧ b.accepts (.num (.int 2)) = true
        ∧ b'.accepts (.num (.int 2)) = false := by
  rw [← definitionPointer_lone]
  obtain ⟨b, hb, hverdict⟩ := bindPointer?_lone { draft := .draft4 } constantOne (by decide) rfl rfl
  obtain ⟨b', hb', hverdict'⟩ := bindPointer?_lone {} constantOne (by decide) rfl rfl
  obtain ⟨text, htext⟩ : ∃ text, Standalone.source (lone constantOne) true (definitionPointer "A") = .ok text := by
    unfold Standalone.source Standalone.link Standalone.linkReference
    rw [resolveLocal?_lone]
    exact ⟨_, rfl⟩
  have hsource : ∀ {o : ValidatorOptions} {b}, o.validateFormats = true →
      bindPointer? o (lone constantOne) (definitionPointer "A") = some b →
        (builtIn o).standaloneSource (lone constantOne) b = .ok text := by
    intro o b hformats hb
    simp only [builtIn, pointer_of_bindPointer? hb, hformats, htext, Except.mapError]
  obtain ⟨follow, haccepts⟩ := hverdict (.num (.int 2))
  obtain ⟨follow', hrejects⟩ := hverdict' (.num (.int 2))
  refine ⟨b, b', text, hb, hb', hsource rfl hb, hsource rfl hb', ?_, ?_⟩
  · rw [haccepts]
    rfl
  · rw [hrejects]
    rfl

end DecoderForge.ValidatorCompiler
