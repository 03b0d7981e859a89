import DecoderForge.Proofs.Schema.Inside
import DecoderForge.Proofs.Schema.Reference
import DecoderForge.Validation.Document

/-!
# DecoderForge — local references as URLs

The engine reads a local reference as a URL: blanks at its ends are dropped, some characters are escaped, and
what is left is joined to the URL around.  A reference on which none of this works leads where its pointer
leads, unless an identifier spells the same URL or stands on the way.

## The architecture

* **`isPlainReference`** — a local reference that is a URL as it stands, as
  **`isPlainReference_definitionPointer`** is.
* **`Pointer.fragmentBytes?_of_isEscaped`** — its fragment is read to the same bytes either way.
* **`Document.resolve_plain`** — what its URL resolves to is what the reference resolves to.
-/

namespace DecoderForge

/-! ## Fragments -/

namespace Pointer

/-- Whether each percent sign stands in front of two hexadecimal digits. -/
def isEscaped : List Char → Bool
  | '%' :: a :: b :: rest => (Json.Token.hexValue? a).isSome && (Json.Token.hexValue? b).isSome && isEscaped rest
  | c :: rest => c != '%' && isEscaped rest
  | [] => true

theorem hexValue?_upperHexDigit : ∀ n < 16, Json.Token.hexValue? (upperHexDigit n) = some n := by decide

theorem toNat_of_hexValue? {c : Char} {x : Nat} (h : Json.Token.hexValue? c = some x) : c.toNat < 0x80 := by
  by_contra hhigh
  have hbeyond : ∀ b : Char, b.toNat < 0x80 → decide (c ≤ b) = false := by
    intro b hb
    refine decide_eq_false fun hle => hhigh ?_
    exact lt_of_le_of_lt (show c.toNat ≤ b.toNat from hle) hb
  unfold Json.Token.hexValue? at h
  rw [hbeyond '9' (by decide), hbeyond 'f' (by decide), hbeyond 'F' (by decide)] at h
  simp at h

end Pointer

namespace Document

theorem fragmentBytes_cons_of_ne {c : Char} (h : c ≠ '%') (rest : List Char) :
    fragmentBytes (c :: rest) = String.utf8EncodeChar c ++ fragmentBytes rest := by
  rw [fragmentBytes.eq_def]
  split
  · next heq => exact absurd (List.cons.inj heq).1 h
  · next heq =>
      obtain ⟨rfl, rfl⟩ := List.cons.inj heq
      rfl
  · next heq => exact absurd heq (by simp)

theorem fragmentBytes_percent {a b : Char} {x y : Nat} (ha : Json.Token.hexValue? a = some x)
    (hb : Json.Token.hexValue? b = some y) (rest : List Char) :
    fragmentBytes ('%' :: a :: b :: rest) = UInt8.ofNat (x * 16 + y) :: fragmentBytes rest := by
  rw [fragmentBytes, ha, hb]

/-- A byte that is written with digits is read back. -/
theorem fragmentBytes_percentByte (b : UInt8) (rest : List Char) :
    fragmentBytes (Url.percentByte b ++ rest) = b :: fragmentBytes rest := by
  have hlow := b.toNat_lt
  have hvalue : b.toNat / 16 * 16 + b.toNat % 16 = b.toNat := by omega
  have hread := fragmentBytes_percent (Pointer.hexValue?_upperHexDigit (b.toNat / 16) (by omega))
    (Pointer.hexValue?_upperHexDigit (b.toNat % 16) (by omega)) rest
  rw [hvalue, UInt8.ofNat_toNat] at hread
  exact hread

theorem fragmentBytes_percentBytes (bytes : List UInt8) (rest : List Char) :
    fragmentBytes (bytes.flatMap Url.percentByte ++ rest) = bytes ++ fragmentBytes rest := by
  induction bytes with
  | nil => rfl
  | cons b bytes ih => rw [List.flatMap_cons, List.append_assoc, fragmentBytes_percentByte, ih]; rfl

end Document

namespace Url

/-- Whether a character of a fragment is written with digits. -/
def isEscapedInFragment (c : Char) : Bool :=
  c.toNat < 0x20 || c.toNat > 0x7E || [' ', '"', '<', '>', '\x60'].contains c

theorem escapeFragment_cons (c : Char) (rest : List Char) :
    escapeFragment (c :: rest)
      = (if isEscapedInFragment c then (String.utf8EncodeChar c).flatMap percentByte else [c])
        ++ escapeFragment rest := rfl

theorem isEscapedInFragment_of_hexValue? {c : Char} {x : Nat} (h : Json.Token.hexValue? c = some x) :
    isEscapedInFragment c = false := by
  have hall : ∀ n < 0x80, (Json.Token.hexValue? (Char.ofNat n)).isSome = true →
      isEscapedInFragment (Char.ofNat n) = false := by decide
  have hc := hall c.toNat (Pointer.toNat_of_hexValue? h)
  rw [Char.ofNat_toNat] at hc
  exact hc (by rw [h]; rfl)

theorem isEscapedInFragment_percent : isEscapedInFragment '%' = false := by decide

end Url

namespace Pointer

open Document (fragmentBytes)

/-- **The fragment of a reference is read to the same bytes** as it stands and as part of a URL. -/
theorem fragmentBytes?_of_isEscaped : ∀ {f : List Char}, isEscaped f = true →
    fragmentBytes? f = some (fragmentBytes (Url.escapeFragment f))
  | [], _ => rfl
  | c :: rest, h => by
      by_cases hc : c = '%'
      · subst hc
        match rest, h with
        | [], h => exact absurd h (by decide)
        | [a], h => exact absurd h (by simp [isEscaped])
        | a :: b :: rest, h =>
            rw [isEscaped, Bool.and_eq_true, Bool.and_eq_true] at h
            obtain ⟨⟨ha, hb⟩, hrest⟩ := h
            obtain ⟨x, hx⟩ := Option.isSome_iff_exists.mp ha
            obtain ⟨y, hy⟩ := Option.isSome_iff_exists.mp hb
            have hplus : a ≠ '+' := by
              rintro rfl
              exact absurd (show none = some x from hx) (by simp)
            have hbyte : percentByte? a b = some (UInt8.ofNat (x * 16 + y)) := by
              unfold percentByte?
              rw [if_neg (by simpa using hplus), hx, hy]
            rw [fragmentBytes?_percent, hbyte, fragmentBytes?_of_isEscaped hrest, Url.escapeFragment_cons,
              Url.isEscapedInFragment_percent, Url.escapeFragment_cons, Url.isEscapedInFragment_of_hexValue? hx,
              Url.escapeFragment_cons, Url.isEscapedInFragment_of_hexValue? hy]
            exact congrArg some (Document.fragmentBytes_percent hx hy _).symm
      · have hrest : isEscaped rest = true := by
          rw [isEscaped.eq_def] at h
          split at h
          · next heq => exact absurd (List.cons.inj heq).1 hc
          · next heq =>
              obtain ⟨rfl, rfl⟩ := List.cons.inj heq
              exact (Bool.and_eq_true _ _ ▸ h).2
          · next heq => exact absurd heq (by simp)
        rw [fragmentBytes?_cons_of_ne hc, fragmentBytes?_of_isEscaped hrest, Url.escapeFragment_cons]
        refine congrArg some ?_
        split
        · exact (Document.fragmentBytes_percentBytes _ _).symm
        · exact (Document.fragmentBytes_cons_of_ne hc _).symm

/-- Only the empty fragment has no bytes. -/
theorem eq_nil_of_fragmentBytes? : ∀ {f : List Char}, fragmentBytes? f = some [] → f = []
  | [], _ => rfl
  | c :: rest, h => by
      by_cases hc : c = '%'
      · subst hc
        match rest, h with
        | [], h => exact absurd h (by simp [fragmentBytes?])
        | [a], h => exact absurd h (by simp [fragmentBytes?])
        | a :: b :: rest, h =>
            rw [fragmentBytes?_percent] at h
            obtain ⟨byte, -, hrest⟩ := Option.bind_eq_some_iff.mp h
            obtain ⟨more, -, hmore⟩ := Option.map_eq_some_iff.mp hrest
            exact absurd hmore (List.cons_ne_nil byte more)
      · rw [fragmentBytes?_cons_of_ne hc] at h
        obtain ⟨more, -, hmore⟩ := Option.map_eq_some_iff.mp h
        exact absurd (List.append_eq_nil_iff.mp hmore).1 (by simp)

/-- Only the empty fragment is the empty pointer. -/
theorem eq_nil_of_unescapeFragment? {f : List Char} (h : unescapeFragment? f = some []) : f = [] := by
  obtain ⟨bytes, hbytes, hdecode⟩ := Option.bind_eq_some_iff.mp h
  obtain rfl : [] = bytes := encode_of_decode? hdecode
  exact eq_nil_of_fragmentBytes? hbytes

end Pointer

/-! ## References -/

/-- Whether a local reference is a URL as it stands: nothing of it is dropped, and each percent sign stands in
front of two digits. -/
def isPlainReference (r : String) : Bool :=
  r.toList.head? == some '#' && Url.clean r.toList == r.toList && Pointer.isEscaped r.toList.tail

theorem isPlainReference_iff {r : String} : isPlainReference r = true
    ↔ ∃ f, r.toList = '#' :: f ∧ Url.clean r.toList = r.toList ∧ Pointer.isEscaped f = true := by
  unfold isPlainReference
  rw [Bool.and_eq_true, Bool.and_eq_true, beq_iff_eq, beq_iff_eq]
  constructor
  · rintro ⟨⟨hhead, hclean⟩, hescaped⟩
    cases hr : r.toList with
    | nil => exact absurd hhead (by simp [hr])
    | cons c f =>
        rw [hr] at hhead hclean hescaped
        obtain rfl : c = '#' := Option.some.inj hhead
        exact ⟨f, rfl, hclean, hescaped⟩
  · rintro ⟨f, hr, hclean, hescaped⟩
    rw [hr] at hclean ⊢
    exact ⟨⟨rfl, hclean⟩, hescaped⟩

theorem Url.clean_eq_self {s : List Char} (h : ∀ c ∈ s, 0x20 < c.toNat) : clean s = s := by
  have hdrop : ∀ l : List Char, (∀ c ∈ l, 0x20 < c.toNat) → (l.dropWhile fun c => decide (c.toNat ≤ 0x20)) = l := by
    intro l hl
    cases l with
    | nil => rfl
    | cons c rest =>
        have hc : ¬ c.toNat ≤ 0x20 := Nat.not_le.mpr (hl c List.mem_cons_self)
        rw [List.dropWhile_cons_of_neg (by simpa using hc)]
  unfold clean Text.dropRightWhile
  dsimp only
  rw [hdrop s h, hdrop s.reverse fun c hc => h c (List.mem_reverse.mp hc), List.reverse_reverse]
  refine List.filter_eq_self.mpr fun c hc => ?_
  have hhigh := h c hc
  simp only [Bool.and_eq_true, bne_iff_ne, ne_eq]
  refine ⟨⟨?_, ?_⟩, ?_⟩ <;> rintro rfl <;> exact absurd hhigh (by decide)

namespace Pointer

theorem isEscaped_cons_of_ne {c : Char} (h : c ≠ '%') (rest : List Char) : isEscaped (c :: rest) = isEscaped rest := by
  rw [isEscaped.eq_def]
  split
  · next heq => exact absurd (List.cons.inj heq).1 h
  · next heq =>
      obtain ⟨rfl, rfl⟩ := List.cons.inj heq
      simp [h]
  · next heq => exact absurd heq (by simp)

theorem isEscaped_append {p : List Char} (h : '%' ∉ p) (rest : List Char) : isEscaped (p ++ rest) = isEscaped rest := by
  induction p with
  | nil => rfl
  | cons c p ih =>
      rw [List.cons_append, isEscaped_cons_of_ne fun hc => h (by simp [hc])]
      exact ih fun hp => h (List.mem_cons_of_mem c hp)

theorem isEscaped_escapeByte (b : UInt8) (rest : List Char) : isEscaped (escapeByte b ++ rest) = isEscaped rest := by
  unfold escapeByte
  by_cases h : isFragmentByte b = true
  · rw [if_pos h]
    exact isEscaped_cons_of_ne (utf8EncodeChar_of_isFragmentByte h).2 rest
  · have hlow := b.toNat_lt
    rw [if_neg h]
    show isEscaped ('%' :: upperHexDigit (b.toNat / 16) :: upperHexDigit (b.toNat % 16) :: rest) = _
    rw [isEscaped, hexValue?_upperHexDigit _ (by omega), hexValue?_upperHexDigit _ (by omega)]
    rfl

theorem isEscaped_escapeFragment (s : List Char) : isEscaped (escapeFragment s) = true := by
  unfold escapeFragment
  induction Text.encode s with
  | nil => rfl
  | cons b bytes ih => rw [List.flatMap_cons, isEscaped_escapeByte, ih]

/-- A byte is written without blanks and control characters. -/
theorem toNat_of_mem_escapeByte {b : UInt8} {c : Char} (h : c ∈ escapeByte b) : 0x20 < c.toNat := by
  have hself : ∀ n : Fin 256, isFragmentByte (UInt8.ofNat n.val) = true →
      0x20 < (Char.ofNat (UInt8.ofNat n.val).toNat).toNat := by decide +kernel
  have hdigit : ∀ n < 16, 0x20 < (upperHexDigit n).toNat := by decide
  have hlow := b.toNat_lt
  unfold escapeByte at h
  split at h
  · next hb =>
      obtain rfl := List.mem_singleton.mp h
      have hbyte := hself ⟨b.toNat, hlow⟩
      rw [UInt8.ofNat_toNat] at hbyte
      exact hbyte hb
  · simp only [List.mem_cons, List.not_mem_nil, or_false] at h
    rcases h with rfl | rfl | rfl
    · decide
    · exact hdigit _ (by omega)
    · exact hdigit _ (by omega)

end Pointer

theorem toList_definitionPointer (key : String) : (definitionPointer key).toList
    = '#' :: (definitionPrefix ++ Pointer.escapeFragment (Pointer.escapeToken key.toList)) := by
  unfold definitionPointer definitionPrefix
  simp

theorem definitionPointer_ne_hash (key : String) : definitionPointer key ≠ "#" := by
  intro heq
  have hchars := toList_definitionPointer key
  rw [heq] at hchars
  exact absurd hchars (by simp [definitionPrefix])

/-- **The pointer of a definition is a plain reference**, whatever its key. -/
theorem isPlainReference_definitionPointer (key : String) : isPlainReference (definitionPointer key) = true := by
  have hchars := toList_definitionPointer key
  refine isPlainReference_iff.mpr ⟨_, hchars, Url.clean_eq_self fun c hc => ?_, ?_⟩
  · have hfront : ∀ c ∈ '#' :: definitionPrefix, 0x20 < c.toNat := by
      simp [definitionPrefix, toList_definitionsKey]
    rw [hchars, ← List.cons_append, List.mem_append] at hc
    rcases hc with hc | hc
    · exact hfront c hc
    · obtain ⟨b, -, hb⟩ := List.mem_flatMap.mp hc
      exact Pointer.toNat_of_mem_escapeByte hb
  · rw [Pointer.isEscaped_append percent_notMem_definitionPrefix]
    exact Pointer.isEscaped_escapeFragment _

/-! ## Documents -/

namespace Document

/-- The URL of a plain reference, relative to a document without identifier. -/
theorem join_plain {r : String} {f : List Char} (hr : r.toList = '#' :: f) (hclean : Url.clean r.toList = r.toList) :
    defaultScope.join r = .ok { defaultScope with fragment := some (Url.escapeFragment f) } := by
  have hscheme : Url.splitScheme? ('#' :: f) = none := rfl
  unfold Url.join Url.read
  rw [hclean, hr]
  simp only [hscheme]
  cases f with
  | nil => rfl
  | cons c rest => rfl

/-- Going down a document passes identifiers and otherwise leads where it leads without them. -/
theorem map_snd_descend (draft : Draft) : ∀ (tokens : List (List Char)) (j : Json),
    (descend draft j tokens).map Prod.snd = j.descend? tokens
  | [], _ => rfl
  | t :: tokens, j => by
      rw [descend, Json.descend?]
      cases j.child? t with
      | none => rfl
      | some k =>
          have ih := map_snd_descend draft tokens k
          rw [Option.bind_some, Option.bind_some, Option.map_map, ← ih]
          rfl

/-- A pointer that is not empty leads to the same value in both ways. -/
theorem map_snd_atPointer (draft : Draft) (j : Json) {pointer : List Char} (h : pointer ≠ []) :
    (atPointer draft j pointer).map Prod.snd = j.atPointer? pointer := by
  cases pointer with
  | nil => exact absurd rfl h
  | cons c rest =>
      by_cases hc : c = '/'
      · subst hc
        exact map_snd_descend draft _ j
      · rw [atPointer.eq_def, Json.atPointer?.eq_def]
        split
        · next heq => exact absurd (List.cons.inj heq).1 hc
        · split
          · next heq => exact absurd heq (by simp)
          · next heq => exact absurd (List.cons.inj heq).1 hc
          · rfl

/-- **A plain reference leads where its URL leads**, if no identifier spells this URL and at most one is passed
on the way. -/
theorem resolve_plain {d : Document} {r : String} {f : List Char} (hr : r.toList = '#' :: f)
    (hescaped : Pointer.isEscaped f = true) {url : Url}
    (hurl : url = { defaultScope with fragment := some (Url.escapeFragment f) })
    (hspelled : d.named.lookup (String.ofList url.toText) = none)
    (hpassed : ∀ pointer, Pointer.unescapeFragment? f = some pointer →
      ∀ ids t, atPointer d.draft d.root pointer = some (ids, t) → ids.tail = []) :
    (∃ t, resolveLocal? d.root r = some t ∧ d.resolve url = .ok (defaultScope, t))
      ∨ resolveLocal? d.root r = none ∧ ∃ fault, d.resolve url = .error fault := by
  have hlocal : resolveLocal? d.root r = (Pointer.unescapeFragment? f).bind d.root.atPointer? := by
    unfold resolveLocal?
    simp only [hr]
  have hresource : url.withoutFragment = defaultScope := by
    rw [hurl]
    rfl
  have hbytes : fragmentBytes (url.fragment.getD []) = fragmentBytes (Url.escapeFragment f) := by rw [hurl]; rfl
  have hread : Pointer.unescapeFragment? f = Text.decode? (fragmentBytes (Url.escapeFragment f)) := by
    unfold Pointer.unescapeFragment?
    rw [Pointer.fragmentBytes?_of_isEscaped hescaped]
    rfl
  have hdocument : d.document? defaultScope = some d.root := by
    unfold document?
    rw [if_pos (by simp)]
  -- both read the same pointer, and the document is the one that both go down
  unfold resolve
  rw [hlocal, hspelled, hresource, hbytes]
  dsimp only
  rw [hdocument]
  unfold Text.decode
  rw [← hread]
  cases hpointer : Pointer.unescapeFragment? f with
  | none => exact Or.inr ⟨rfl, _, rfl⟩
  | some pointer =>
      cases pointer with
      | nil => exact Or.inl ⟨d.root, rfl, rfl⟩
      | cons c rest =>
          have hmap := map_snd_atPointer d.draft d.root (List.cons_ne_nil c rest)
          cases hfound : atPointer d.draft d.root (c :: rest) with
          | none =>
              rw [hfound] at hmap
              refine Or.inr ⟨hmap.symm, .missing url, ?_⟩
              simp [Except.mapError, bind, Except.bind, hfound, throw, throwThe, MonadExceptOf.throw]
          | some found =>
              obtain ⟨ids, t⟩ := found
              rw [hfound] at hmap
              have htail := hpassed _ hpointer ids t hfound
              refine Or.inl ⟨t, hmap.symm, ?_⟩
              simp [Except.mapError, bind, Except.bind, hfound, htail, enterAll, pure, Except.pure]

/-- A URL of another document, which is not there, leads nowhere. -/
theorem resolve_outside {d : Document} {url : Url} (hspelled : d.named.lookup (String.ofList url.toText) = none)
    (hunknown : d.document? url.withoutFragment = none) : ∃ fault, d.resolve url = .error fault := by
  unfold resolve
  rw [hspelled]
  dsimp only
  rw [hunknown]
  cases Text.decode (fragmentBytes (url.fragment.getD [])) with
  | error damage => exact ⟨_, rfl⟩
  | ok fragment => exact ⟨_, rfl⟩

/-! ## Documents without identifiers -/

variable {draft : Draft}

theorem schemaId?_of_notMem {v : Json} (h : draft.idKey ∉ v.texts) : schemaId? draft v = none :=
  Json.getString?_eq_none h

mutual

theorem namedSchemas_of_notMem (base : Url) : ∀ v : Json, draft.idKey ∉ v.texts → namedSchemas draft base v = .ok []
  | .arr items, h => by
      rw [namedSchemas]
      exact namedInItems_of_notMem base items h
  | .obj members, h => by
      rw [namedSchemas, schemaId?_of_notMem h]
      exact namedInMembers_of_notMem base members h
  | .null, _ | .bool _, _ | .num _, _ | .str _, _ => by rw [namedSchemas.eq_def]

theorem namedInItems_of_notMem (base : Url) : ∀ items : List Json, draft.idKey ∉ Json.textsOfItems items →
    namedInItems draft base items = .ok []
  | [], _ => by rw [namedInItems]
  | v :: rest, h => by
      rw [Json.textsOfItems, List.mem_append, not_or] at h
      rw [namedInItems, namedSchemas_of_notMem base v h.1, namedInItems_of_notMem base rest h.2]
      rfl

theorem namedInMembers_of_notMem (base : Url) : ∀ members : Json.Members,
    draft.idKey ∉ Json.textsOfMembers members → namedInMembers draft base members = .ok []
  | [], _ => by rw [namedInMembers]
  | (k, v) :: rest, h => by
      rw [Json.textsOfMembers, List.cons_append, List.mem_cons, List.mem_append, not_or, not_or] at h
      rw [namedInMembers, namedSchemas_of_notMem base v h.2.1, namedInMembers_of_notMem base rest h.2.2, ite_self]
      rfl

end

theorem ofSchema_of_notMem {root : Json} (h : draft.idKey ∉ root.texts) :
    ofSchema draft root = .ok ⟨draft, root, defaultScope, []⟩ := by
  unfold ofSchema
  rw [schemaId?_of_notMem h]
  simp only [bind, Except.bind, namedSchemas_of_notMem defaultScope root h]
  rfl

/-- No identifier is passed on the way down. -/
theorem ids_of_descend {ids : List String} {t : Json} : ∀ {tokens : List (List Char)} {j : Json},
    draft.idKey ∉ j.texts → descend draft j tokens = some (ids, t) → ids = []
  | [], _, _, h => (Prod.mk.inj (Option.some.inj h)).1.symm
  | token :: tokens, j, hnone, h => by
      obtain ⟨k, hk, h⟩ := Option.bind_eq_some_iff.mp h
      obtain ⟨⟨ids', t'⟩, hrest, heq⟩ := Option.map_eq_some_iff.mp h
      have hids := ids_of_descend (fun hmem => hnone ((Json.inside_of_child? hk).texts_subset hmem)) hrest
      rw [schemaId?_of_notMem hnone, hids] at heq
      exact (Prod.mk.inj heq).1.symm

theorem ids_of_atPointer {j t : Json} {pointer : List Char} {ids : List String} (hnone : draft.idKey ∉ j.texts)
    (h : atPointer draft j pointer = some (ids, t)) : ids = [] := by
  unfold atPointer at h
  split at h
  · exact ids_of_descend hnone h
  · exact absurd h (by simp)

end Document

end DecoderForge
