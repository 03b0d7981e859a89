import DecoderForge.Proofs.Schema.Pointer
import DecoderForge.Proofs.Text.Lines

/-!
# DecoderForge — the place that a reference spells

Resolving a local reference first reads it as a list of tokens, whatever the document, and then follows
the tokens.  A definition is referred to in two spellings, by the pointer made from its key and by the
key as it stands.

## The architecture

* **`referencePath?`** — the tokens that a reference spells, and **`resolveLocal?_eq_descend?`**, by
  which resolving is nothing but following them.
* **`referencePath?_definitionPointer`** — the pointer made from a key spells the place of that key.
* **`referencePath?_rawReference_iff`** — the key as it stands does so for plain keys and for no other.
* **`definitionPointer_finds_key`** — a definition is found through its pointer exactly when it is there.
-/

namespace DecoderForge

/-! ## Paths -/

/-- The tokens of a pointer.  A pointer is empty or begins with a slash. -/
def Pointer.tokens? : List Char → Option (List (List Char))
  | [] => some []
  | '/' :: rest => some ((Text.splitAt '/' rest).map Pointer.unescapeToken)
  | _ => none

/-- The tokens that a local reference spells, whatever the document. -/
def referencePath? (reference : String) : Option (List (List Char)) :=
  match reference.toList with
  | '#' :: fragment => (Pointer.unescapeFragment? fragment).bind Pointer.tokens?
  | _ => none

/-- The place of the definition with a key. -/
def definitionPath (key : String) : List (List Char) := [definitionsKey.toList, key.toList]

/-- The value under a pointer lies where its tokens lead. -/
theorem Json.atPointer?_eq_descend? (j : Json) (pointer : List Char) :
    j.atPointer? pointer = (Pointer.tokens? pointer).bind j.descend? := by
  match pointer with
  | [] => rfl
  | c :: rest =>
      by_cases hc : c = '/'
      · subst hc
        rfl
      · rw [show j.atPointer? (c :: rest) = none from by
          rw [Json.atPointer?.eq_def]
          split
          · next heq => exact absurd heq (by simp)
          · next heq => exact absurd (List.cons.inj heq).1 hc
          · rfl]
        rw [show Pointer.tokens? (c :: rest) = none from by
          rw [Pointer.tokens?.eq_def]
          split
          · next heq => exact absurd heq (by simp)
          · next heq => exact absurd (List.cons.inj heq).1 hc
          · rfl]
        rfl

/-- **Resolving a reference is following the tokens that it spells.** -/
theorem resolveLocal?_eq_descend? (root : Json) (reference : String) :
    resolveLocal? root reference = (referencePath? reference).bind root.descend? := by
  by_cases h : ∃ fragment, reference.toList = '#' :: fragment
  · obtain ⟨fragment, hchars⟩ := h
    have hresolve : resolveLocal? root reference
        = (Pointer.unescapeFragment? fragment).bind root.atPointer? := by
      unfold resolveLocal?
      simp only [hchars]
    have hpath : referencePath? reference
        = (Pointer.unescapeFragment? fragment).bind Pointer.tokens? := by
      unfold referencePath?
      simp only [hchars]
    rw [hresolve, hpath, Option.bind_assoc]
    congr 1
    funext pointer
    exact root.atPointer?_eq_descend? pointer
  · have hresolve : resolveLocal? root reference = none := by
      unfold resolveLocal?
      split
      · next fragment heq => exact absurd ⟨fragment, heq⟩ h
      · rfl
    have hpath : referencePath? reference = none := by
      unfold referencePath?
      split
      · next fragment heq => exact absurd ⟨fragment, heq⟩ h
      · rfl
    rw [hresolve, hpath]
    rfl

/-- The value at the place of a key is the definition with that key. -/
theorem descend?_definitionPath {root : Json} {entries : Json.Members}
    (h : root.get? definitionsKey = some (.obj entries)) (key : String) :
    root.descend? (definitionPath key) = entries.get? key := by
  cases root with
  | obj members =>
      have hchild : (Json.obj members).child? definitionsKey.toList = some (.obj entries) := by
        simpa [Json.child?, Json.get?, String.ofList_toList] using h
      show ((Json.obj members).child? definitionsKey.toList).bind _ = _
      rw [hchild]
      show ((Json.obj entries).child? key.toList).bind _ = _
      simp [Json.child?, String.ofList_toList, Json.descend?]
  | null | bool _ | num _ | str _ | arr _ => exact absurd h (by simp [Json.get?])

/-! ## The two spellings of a definition -/

/-- A reference that is a `#` and a fragment. -/
theorem referencePath?_ofList (fragment : List Char) :
    referencePath? (String.ofList ('#' :: fragment))
      = (Pointer.unescapeFragment? fragment).bind Pointer.tokens? := by
  unfold referencePath?
  rw [String.toList_ofList]
  rfl

/-- The characters of the member that holds the definitions. -/
theorem toList_definitionsKey :
    definitionsKey.toList = ['d', 'e', 'f', 'i', 'n', 'i', 't', 'i', 'o', 'n', 's'] := by
  simp [definitionsKey]

/-- What stands between the `#` of a reference to a definition and its key. -/
def definitionPrefix : List Char := '/' :: definitionsKey.toList ++ ['/']

/-- The prefix has no percent sign. -/
theorem percent_notMem_definitionPrefix : '%' ∉ definitionPrefix := by
  simp [definitionPrefix, toList_definitionsKey]

/-- The tokens of a pointer into the definitions: the word `definitions`, then what the rest is split
into. -/
theorem tokens?_definitionPrefix_append (s : List Char) :
    Pointer.tokens? (definitionPrefix ++ s)
      = some (definitionsKey.toList :: (Text.splitAt '/' s).map Pointer.unescapeToken) := by
  have hslash : '/' ∉ definitionsKey.toList := by simp [toList_definitionsKey]
  have hself : Pointer.unescapeToken definitionsKey.toList = definitionsKey.toList := by
    have hescapes : ¬ ['~', '1'] <:+: definitionsKey.toList ∧ ¬ ['~', '0'] <:+: definitionsKey.toList := by
      rw [toList_definitionsKey]
      decide
    exact (Pointer.unescapeToken_eq_self_iff _).mpr hescapes
  show some ((Text.splitAt '/' (definitionsKey.toList ++ ['/'] ++ s)).map Pointer.unescapeToken) = _
  rw [List.append_assoc, List.singleton_append, Text.splitAt_append_sep s hslash, List.map_cons, hself]

/-- **The pointer made from a key spells the place of that key**, whatever characters the key has. -/
theorem referencePath?_definitionPointer (key : String) :
    referencePath? (definitionPointer key) = some (definitionPath key) := by
  have hchars : definitionPointer key
      = String.ofList ('#' :: (definitionPrefix ++ Pointer.escapeFragment (Pointer.escapeToken key.toList))) := by
    unfold definitionPointer definitionPrefix
    simp
  rw [hchars, referencePath?_ofList,
    Pointer.unescapeFragment?_append_escapeFragment percent_notMem_definitionPrefix]
  show Pointer.tokens? (definitionPrefix ++ Pointer.escapeToken key.toList) = _
  rw [tokens?_definitionPrefix_append,
    Text.splitAt_of_notMem (Pointer.slash_notMem_escapeToken key.toList)]
  simp [definitionPath, Pointer.unescapeToken_escapeToken]

/-- Looking a key up through its own pointer is looking it up among the definitions. -/
theorem resolveLocal?_definitionPointer {root : Json} {entries : Json.Members}
    (h : root.get? definitionsKey = some (.obj entries)) (key : String) :
    resolveLocal? root (definitionPointer key) = entries.get? key := by
  rw [resolveLocal?_eq_descend?, referencePath?_definitionPointer]
  exact descend?_definitionPath h key

/-- Different keys have different pointers. -/
theorem definitionPointer_injective {key key' : String}
    (h : definitionPointer key = definitionPointer key') : key = key' := by
  have hpath := congrArg referencePath? h
  rw [referencePath?_definitionPointer, referencePath?_definitionPointer] at hpath
  simp only [definitionPath, Option.some.injEq, List.cons.injEq, and_true, true_and] at hpath
  exact String.toList_injective hpath

/-- The reference to a definition with its key as it stands. -/
def rawReference (key : String) : String := "#/" ++ definitionsKey ++ "/" ++ key

/-- Different keys are different as they stand. -/
theorem rawReference_injective {key key' : String} (h : rawReference key = rawReference key') :
    key = key' := by
  have hchars := congrArg String.toList h
  unfold rawReference at hchars
  rw [String.toList_append, String.toList_append (t := key')] at hchars
  exact String.toList_injective (List.append_cancel_left hchars)

/-- A key as the pointer to its definition writes it. -/
def escapedKey (key : String) : String :=
  String.ofList (Pointer.escapeFragment (Pointer.escapeToken key.toList))

/-- The pointer made from a key is the escaped key as it stands. -/
theorem definitionPointer_eq_rawReference (key : String) :
    definitionPointer key = rawReference (escapedKey key) := by
  apply String.toList_injective
  unfold definitionPointer rawReference escapedKey
  simp

/-- A key that reads as itself inside a reference: no percent sign, no slash, no token escape. -/
def IsPlainKey (key : String) : Prop :=
  '%' ∉ key.toList ∧ '/' ∉ key.toList ∧ ¬ ['~', '1'] <:+: key.toList ∧ ¬ ['~', '0'] <:+: key.toList

instance (key : String) : Decidable (IsPlainKey key) := by unfold IsPlainKey; infer_instance

/-- The key as it stands behind the `#` and the prefix. -/
theorem referencePath?_rawReference_eq (key : String) :
    referencePath? (rawReference key)
      = (Pointer.unescapeFragment? (definitionPrefix ++ key.toList)).bind Pointer.tokens? := by
  have hchars : rawReference key = String.ofList ('#' :: (definitionPrefix ++ key.toList)) := by
    unfold rawReference definitionPrefix
    apply String.toList_injective
    simp
  rw [hchars, referencePath?_ofList]

/-- A plain key as it stands spells its own place. -/
theorem referencePath?_rawReference {key : String} (h : IsPlainKey key) :
    referencePath? (rawReference key) = some (definitionPath key) := by
  obtain ⟨hpercent, hslash, hescapes⟩ := h
  have hno : '%' ∉ definitionPrefix ++ key.toList := by
    rw [List.mem_append]
    exact fun h => h.elim percent_notMem_definitionPrefix hpercent
  rw [referencePath?_rawReference_eq, Pointer.unescapeFragment?_of_notMem hno]
  show Pointer.tokens? (definitionPrefix ++ key.toList) = _
  rw [tokens?_definitionPrefix_append, Text.splitAt_of_notMem hslash, List.map_singleton,
    (Pointer.unescapeToken_eq_self_iff key.toList).mpr hescapes]
  rfl

/-- A pointer with two tokens takes at least their bytes and two slashes. -/
theorem Pointer.length_encode_of_tokens? {u s t : List Char} (h : Pointer.tokens? u = some [s, t]) :
    2 + (Text.encode s).length + (Text.encode t).length ≤ (Text.encode u).length := by
  match u with
  | [] => exact absurd h (by simp [Pointer.tokens?])
  | c :: rest =>
      by_cases hc : c = '/'
      · subst hc
        have hmap : (Text.splitAt '/' rest).map Pointer.unescapeToken = [s, t] := Option.some.inj h
        obtain ⟨a, more, hsplit, rfl, hmore⟩ := List.map_eq_cons_iff.mp hmap
        obtain ⟨b, more, rfl, rfl, hnil⟩ := List.map_eq_cons_iff.mp hmore
        obtain rfl := List.map_eq_nil_iff.mp hnil
        have hjoin : a ++ ['/'] ++ b = rest := by
          rw [← Text.joinWith_splitAt '/' rest, hsplit]
          rfl
        have ha := Pointer.length_encode_unescapeToken_le a
        have hb := Pointer.length_encode_unescapeToken_le b
        have happend : Text.encode (a ++ ['/'] ++ b) = Text.encode a ++ Text.encode ['/'] ++ Text.encode b := by
          simp [Text.encode]
        have hsep : (Text.encode ['/']).length = 1 := by decide
        have hslash : '/'.utf8Size = 1 := by decide
        rw [← hjoin, Text.length_encode_cons, happend, List.length_append, List.length_append, hsep, hslash]
        omega
      · rw [Pointer.tokens?.eq_def] at h
        split at h
        · next heq => exact absurd heq (by simp)
        · next heq => exact absurd (List.cons.inj heq).1 hc
        · exact absurd h (by simp)

/-- **The key as it stands spells its own place for plain keys only.**  A percent escape or a token
escape takes bytes from the key, and a slash cuts it in two. -/
theorem referencePath?_rawReference_iff (key : String) :
    referencePath? (rawReference key) = some (definitionPath key) ↔ IsPlainKey key := by
  refine ⟨fun h => ?_, referencePath?_rawReference⟩
  rw [referencePath?_rawReference_eq] at h
  obtain ⟨u, hu, htokens⟩ := Option.bind_eq_some_iff.mp h
  by_cases hpercent : '%' ∈ key.toList
  · -- the reading has fewer bytes than the two tokens need
    exfalso
    obtain ⟨bytes, hbytes, hdecode⟩ := Option.bind_eq_some_iff.mp hu
    rw [Pointer.fragmentBytes?_append percent_notMem_definitionPrefix] at hbytes
    obtain ⟨more, hmore, rfl⟩ := Option.map_eq_some_iff.mp hbytes
    have hlt := (Pointer.length_of_fragmentBytes? hmore).2 hpercent
    have henc := congrArg List.length (Pointer.encode_of_decode? hdecode)
    have hle := Pointer.length_encode_of_tokens? htokens
    have hprefix : (Text.encode definitionPrefix).length = 2 + (Text.encode definitionsKey.toList).length := by
      rw [definitionPrefix, toList_definitionsKey]
      decide
    rw [List.length_append] at henc
    omega
  · have hno : '%' ∉ definitionPrefix ++ key.toList := by
      rw [List.mem_append]
      exact fun h => h.elim percent_notMem_definitionPrefix hpercent
    rw [Pointer.unescapeFragment?_of_notMem hno] at hu
    obtain rfl := Option.some.inj hu
    rw [tokens?_definitionPrefix_append] at htokens
    have hmap := (List.cons.inj (Option.some.inj htokens)).2
    obtain ⟨t, more, hsplit, hself, hnil⟩ := List.map_eq_cons_iff.mp hmap
    obtain rfl := List.map_eq_nil_iff.mp hnil
    obtain ⟨rfl, hslash⟩ := Text.eq_of_splitAt_eq_singleton hsplit
    obtain ⟨h₁, h₂⟩ := (Pointer.unescapeToken_eq_self_iff key.toList).mp hself
    exact ⟨hpercent, hslash, h₁, h₂⟩

/-! ## Definitions by their keys -/

/-- **Through its pointer a definition is found exactly when it is there.**  Both layers of escaping are
undone in full, whatever the key is, so that no two keys share a pointer. -/
theorem definitionPointer_finds_key :
    (∀ (root : Json) (entries : Json.Members), root.get? definitionsKey = some (.obj entries) →
        ∀ key, resolveLocal? root (definitionPointer key) = entries.get? key)
      ∧ Function.Injective definitionPointer := by
  refine ⟨fun root entries hentries key => ?_, fun key key' h => definitionPointer_injective h⟩
  exact resolveLocal?_definitionPointer hentries key

/-- Definitions whose keys are empty, or look like what pointers make of other keys. -/
def awkwardDefinitions : Json.Members :=
  [("", .ofInt 0), ("/", .ofInt 1), ("~1", .ofInt 2), ("%2F", .ofInt 3), ("~01 %#é", .ofInt 4)]

/-- Each of them is found under its own key, and a key that only unescapes to one of theirs is not. -/
theorem definitionPointer_finds_awkward_keys :
    (∀ e ∈ awkwardDefinitions,
        resolveLocal? (.obj [(definitionsKey, .obj awkwardDefinitions)]) (definitionPointer e.1) = some e.2)
      ∧ resolveLocal? (.obj [(definitionsKey, .obj awkwardDefinitions)]) (definitionPointer "%7E1") = none := by
  have hentries : (Json.obj [(definitionsKey, .obj awkwardDefinitions)]).get? definitionsKey
      = some (.obj awkwardDefinitions) := rfl
  have hfinds := definitionPointer_finds_key.1 _ _ hentries
  refine ⟨fun e he => ?_, ?_⟩
  · rw [hfinds]
    exact (by decide : ∀ e ∈ awkwardDefinitions, awkwardDefinitions.get? e.1 = some e.2) e he
  · rw [hfinds]
    decide

end DecoderForge
