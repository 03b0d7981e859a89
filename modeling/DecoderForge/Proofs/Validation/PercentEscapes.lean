import DecoderForge.Proofs.Validation.LocalReference

/-!
# DecoderForge — which references resolve

A local reference is a `#` and a pointer in percent escapes.  By the rules of URLs an escape is a percent sign in
front of two hexadecimal digits.  Resolving holds a reference to these rules with one exception: the first digit of
an escape may be a plus sign, which is then read like a zero.

## The architecture

* **`Pointer.IsPercentEncoded`** — the rule for escapes, and **`Pointer.isEscaped_iff`**, by which it is checked.
* **`Denotes`** — the value that a reference denotes by the rules of URLs.
* **`Pointer.fragmentBytes?_eq`** — a fragment is read as if its plus signs behind percent signs were zeros.
* **`resolveLocal?_denotes_iff`** — what resolves, and which references resolve by the rules.
-/

namespace DecoderForge

namespace Pointer

/-! ## Escapes -/

/-- Whether a character is a hexadecimal digit. -/
def isHexDigit (c : Char) : Bool := (Json.Token.hexValue? c).isSome

/-- Every percent sign stands in front of two hexadecimal digits. -/
def IsPercentEncoded (s : List Char) : Prop :=
  ∀ after, '%' :: after <:+ s → ∃ a b rest, after = a :: b :: rest ∧ isHexDigit a = true ∧ isHexDigit b = true

theorem ne_percent_of_isHexDigit {c : Char} (h : isHexDigit c = true) : c ≠ '%' := by
  rintro rfl
  exact absurd h (by decide)

/-- An escape. -/
theorem isEscaped_percent (a b : Char) (rest : List Char) :
    isEscaped ('%' :: a :: b :: rest) = (isHexDigit a && isHexDigit b && isEscaped rest) := rfl

/-- A percent sign with fewer than two characters behind it is no escape. -/
theorem isEscaped_percent_single (a : Char) : isEscaped ['%', a] = false := by
  simp [isEscaped]

/-- A percent sign in front of anything but a digit is no escape. -/
theorem isEscaped_percent_of_not {a : Char} (h : isHexDigit a = false) (rest : List Char) :
    isEscaped ('%' :: a :: rest) = false := by
  cases rest with
  | nil => exact isEscaped_percent_single a
  | cons b rest => rw [isEscaped_percent, h, Bool.false_and, Bool.false_and]

theorem IsPercentEncoded.of_cons {c : Char} {s : List Char} (h : IsPercentEncoded (c :: s)) : IsPercentEncoded s :=
  fun after hafter => h after (hafter.trans (List.suffix_cons c s))

/-- What is in front of a text in percent escapes may be anything but a percent sign. -/
theorem IsPercentEncoded.cons {c : Char} (hc : c ≠ '%') {s : List Char} (h : IsPercentEncoded s) :
    IsPercentEncoded (c :: s) := by
  intro after hafter
  rcases List.suffix_cons_iff.mp hafter with heq | hsuffix
  · exact absurd (List.cons.inj heq).1.symm hc
  · exact h after hsuffix

/-- **The rule for escapes is checked from the front**: the digits of an escape are no percent signs. -/
theorem isEscaped_iff : ∀ {s : List Char}, isEscaped s = true ↔ IsPercentEncoded s
  | [] => by simp [isEscaped, IsPercentEncoded]
  | c :: rest => by
      by_cases hc : c = '%'
      · subst hc
        constructor
        · intro h
          cases rest with
          | nil => exact absurd h (by decide)
          | cons a rest =>
              cases rest with
              | nil => exact absurd h (by simp [isEscaped_percent_single])
              | cons b rest =>
                  rw [isEscaped_percent, Bool.and_eq_true, Bool.and_eq_true] at h
                  obtain ⟨⟨ha, hb⟩, hrest⟩ := h
                  have hdigits : IsPercentEncoded (a :: b :: rest) :=
                    ((isEscaped_iff.mp hrest).cons (ne_percent_of_isHexDigit hb)).cons
                      (ne_percent_of_isHexDigit ha)
                  intro after hafter
                  rcases List.suffix_cons_iff.mp hafter with heq | hsuffix
                  · exact ⟨a, b, rest, (List.cons.inj heq).2, ha, hb⟩
                  · exact hdigits after hsuffix
        · intro h
          obtain ⟨a, b, more, rfl, ha, hb⟩ := h rest (List.suffix_refl _)
          rw [isEscaped_percent, ha, hb, isEscaped_iff.mpr h.of_cons.of_cons.of_cons]
          rfl
      · rw [isEscaped_cons_of_ne hc, isEscaped_iff]
        exact ⟨IsPercentEncoded.cons hc, IsPercentEncoded.of_cons⟩

/-! ## Signs -/

/-- A text with a zero in place of every plus sign behind a percent sign. -/
def signsAsZeros (s : List Char) : List Char := Text.replaceAll ['%', '+'] ['%', '0'] s

/-- The first character of an escape. -/
def signAsZero (a : Char) : Char := if a = '+' then '0' else a

theorem signsAsZeros_of_ne {c : Char} (h : c ≠ '%') (s : List Char) :
    signsAsZeros (c :: s) = c :: signsAsZeros s := Text.replaceAll_pair_of_ne '+' _ s h

theorem signsAsZeros_percent_of_ne {a : Char} (h : a ≠ '+') (s : List Char) :
    signsAsZeros ('%' :: a :: s) = '%' :: signsAsZeros (a :: s) := Text.replaceAll_pair_of_next_ne '%' _ s h

theorem signsAsZeros_nil : signsAsZeros [] = [] := by simp [signsAsZeros, Text.replaceAll]

/-- Nothing is left behind a last percent sign that could make an escape of it. -/
theorem signsAsZeros_single (c : Char) : signsAsZeros [c] = [c] := by
  rcases Text.replaceAll_pair_cons '%' '+' ['%', '0'] c [] with ⟨s', -, h, -⟩ | ⟨-, heq⟩
  · exact absurd h (by simp)
  · exact heq.trans (congrArg (c :: ·) signsAsZeros_nil)

/-- A percent sign and the last character. -/
theorem signsAsZeros_pair (a : Char) : signsAsZeros ['%', a] = ['%', signAsZero a] := by
  by_cases ha : a = '+'
  · subst ha
    exact (Text.replaceAll_pair_occurrence '%' '+' ['%', '0'] []).trans
      (congrArg (['%', '0'] ++ ·) signsAsZeros_nil)
  · rw [signsAsZeros_percent_of_ne ha, signsAsZeros_single, signAsZero, if_neg ha]

/-- The first character stays: only what is behind a percent sign is replaced. -/
theorem signsAsZeros_cons (c : Char) (s : List Char) : ∃ t, signsAsZeros (c :: s) = c :: t := by
  rcases Text.replaceAll_pair_cons '%' '+' ['%', '0'] c s with ⟨s', rfl, rfl, heq⟩ | ⟨-, heq⟩
  · exact ⟨_, heq⟩
  · exact ⟨_, heq⟩

/-- An escape, or what begins like one. -/
theorem signsAsZeros_percent {a : Char} (h : isHexDigit (signAsZero a) = true) (s : List Char) :
    signsAsZeros ('%' :: a :: s) = '%' :: signAsZero a :: signsAsZeros s := by
  by_cases ha : a = '+'
  · subst ha
    exact Text.replaceAll_pair_occurrence '%' '+' ['%', '0'] s
  · rw [signAsZero, if_neg ha] at h ⊢
    rw [signsAsZeros_percent_of_ne ha, signsAsZeros_of_ne (ne_percent_of_isHexDigit h)]

/-- Text without a plus sign behind a percent sign stays as it is. -/
theorem signsAsZeros_eq_self {s : List Char} (h : ¬ ['%', '+'] <:+: s) : signsAsZeros s = s :=
  Text.replaceAll_pair_eq_self h

/-- The byte of an escape, its sign read like a zero. -/
theorem percentByte?_eq (a b : Char) :
    percentByte? a b = (Json.Token.hexValue? (signAsZero a)).bind fun x =>
      (Json.Token.hexValue? b).map fun y => UInt8.ofNat (x * 16 + y) := by
  unfold percentByte? signAsZero
  by_cases ha : a = '+'
  · subst ha
    show (Json.Token.hexValue? b).map UInt8.ofNat = (some 0).bind _
    simp
  · rw [if_neg (by simpa using ha), if_neg ha]
    cases Json.Token.hexValue? a <;> cases Json.Token.hexValue? b <;> rfl

/-- No fragment has bytes that breaks the rule for escapes even with zeros in place of its signs. -/
theorem fragmentBytes?_percent_eq_none {a b : Char} (h : (isHexDigit (signAsZero a) && isHexDigit b) = false)
    (rest : List Char) :
    fragmentBytes? ('%' :: a :: b :: rest) = none ∧ isEscaped (signsAsZeros ('%' :: a :: b :: rest)) = false := by
  rw [fragmentBytes?_percent, percentByte?_eq]
  cases ha : Json.Token.hexValue? (signAsZero a) with
  | none =>
      -- a sign would have become a digit
      have hsign : a ≠ '+' := by
        rintro rfl
        exact absurd ha (by decide)
      obtain ⟨t, ht⟩ := signsAsZeros_cons a (b :: rest)
      refine ⟨rfl, ?_⟩
      rw [signAsZero, if_neg hsign] at ha
      rw [signsAsZeros_percent_of_ne hsign, ht]
      exact isEscaped_percent_of_not (by rw [isHexDigit, ha]; rfl) t
  | some x =>
      have hdigit : isHexDigit (signAsZero a) = true := by rw [isHexDigit, ha]; rfl
      rw [hdigit, Bool.true_and] at h
      have hb : Json.Token.hexValue? b = none := by simpa [isHexDigit] using h
      obtain ⟨t, ht⟩ := signsAsZeros_cons b rest
      refine ⟨by rw [hb]; rfl, ?_⟩
      rw [signsAsZeros_percent hdigit, ht, isEscaped_percent, h, Bool.and_false, Bool.false_and]

/-- **A fragment is read as if its signs were zeros**, and then by the rules of URLs. -/
theorem fragmentBytes?_eq : ∀ s : List Char, fragmentBytes? s
    = if isEscaped (signsAsZeros s) then some (Document.fragmentBytes (signsAsZeros s)) else none
  | [] => by rw [signsAsZeros_nil]; rfl
  | c :: rest => by
      by_cases hc : c = '%'
      · subst hc
        match rest with
        | [] => rw [signsAsZeros_single]; rfl
        | [a] =>
            rw [signsAsZeros_pair, isEscaped_percent_single]
            simp [fragmentBytes?]
        | a :: b :: rest =>
            by_cases hdigits : (isHexDigit (signAsZero a) && isHexDigit b) = true
            · obtain ⟨ha, hb⟩ := Bool.and_eq_true_iff.mp hdigits
              obtain ⟨x, hx⟩ := Option.isSome_iff_exists.mp ha
              obtain ⟨y, hy⟩ := Option.isSome_iff_exists.mp hb
              rw [fragmentBytes?_percent, percentByte?_eq, hx, hy, signsAsZeros_percent ha,
                signsAsZeros_of_ne (ne_percent_of_isHexDigit hb), isEscaped_percent, ha, hb,
                Document.fragmentBytes_percent hx hy, fragmentBytes?_eq rest]
              cases isEscaped (signsAsZeros rest) <;> rfl
            · obtain ⟨hnone, hbroken⟩ := fragmentBytes?_percent_eq_none (Bool.not_eq_true _ ▸ hdigits) rest
              rw [hnone, hbroken]
              rfl
      · rw [fragmentBytes?_cons_of_ne hc, signsAsZeros_of_ne hc, isEscaped_cons_of_ne hc,
          Document.fragmentBytes_cons_of_ne hc, fragmentBytes?_eq rest]
        cases isEscaped (signsAsZeros rest) <;> rfl

end Pointer

/-! ## References -/

/-- **The value that a reference denotes by the rules of URLs**: behind the `#` every percent sign stands in front of
two digits, the bytes are those of a text, and the value is found under that text as a pointer. -/
def Denotes (root : Json) (reference : List Char) (v : Json) : Prop :=
  ∃ fragment pointer, reference = '#' :: fragment ∧ Pointer.IsPercentEncoded fragment
    ∧ Document.fragmentBytes fragment = Text.encode pointer ∧ root.atPointer? pointer = some v

/-- A reference that denotes a value has no plus sign behind a percent sign. -/
theorem not_sign_of_denotes {root : Json} {r : List Char} {v : Json} (h : Denotes root r v) :
    ¬ ['%', '+'] <:+: r := by
  rintro ⟨before, after, rfl⟩
  obtain ⟨fragment, pointer, hr, hencoded, -, -⟩ := h
  have hsuffix : '%' :: '+' :: after <:+ fragment := by
    have hwhole : '%' :: '+' :: after <:+ '#' :: fragment := by
      rw [← hr]
      exact ⟨before, by simp⟩
    rcases List.suffix_cons_iff.mp hwhole with heq | hsuffix
    · exact absurd (List.cons.inj heq).1 (by decide)
    · exact hsuffix
  obtain ⟨a, b, rest, heq, ha, -⟩ := hencoded _ hsuffix
  obtain ⟨rfl, -⟩ := List.cons.inj heq
  exact absurd ha (by decide)

/-- **A reference resolves to what it denotes with zeros in place of its signs.** -/
theorem resolveLocal?_eq_some_iff {root : Json} {r : String} {v : Json} :
    resolveLocal? root r = some v ↔ Denotes root (Pointer.signsAsZeros r.toList) v := by
  unfold resolveLocal?
  split
  · next fragment hr =>
    rw [hr, Pointer.signsAsZeros_of_ne (by decide)]
    constructor
    · intro h
      obtain ⟨pointer, hpointer, hfound⟩ := Option.bind_eq_some_iff.mp h
      obtain ⟨bytes, hbytes, hdecode⟩ := Option.bind_eq_some_iff.mp hpointer
      rw [Pointer.fragmentBytes?_eq] at hbytes
      split at hbytes
      · next hescaped =>
        obtain rfl := Option.some.inj hbytes
        exact ⟨_, pointer, rfl, Pointer.isEscaped_iff.mp hescaped, (Pointer.encode_of_decode? hdecode).symm, hfound⟩
      · exact absurd hbytes (by simp)
    · rintro ⟨fragment', pointer, heq, hencoded, hbytes, hfound⟩
      obtain rfl := (List.cons.inj heq).2
      have hread : Pointer.unescapeFragment? fragment = some pointer := by
        rw [Pointer.unescapeFragment?, Pointer.fragmentBytes?_eq, if_pos (Pointer.isEscaped_iff.mpr hencoded), hbytes]
        exact Pointer.decode?_encode pointer
      rw [hread]
      exact hfound
  · next hno =>
    refine ⟨fun h => absurd h (by simp), ?_⟩
    -- a first character that is no `#` stays in front
    rintro ⟨fragment, pointer, heq, -⟩
    cases hr : r.toList with
    | nil =>
        rw [hr, Pointer.signsAsZeros_nil] at heq
        exact absurd heq (by simp)
    | cons c rest =>
        obtain ⟨t, ht⟩ := Pointer.signsAsZeros_cons c rest
        rw [hr, ht] at heq
        obtain ⟨rfl, -⟩ := List.cons.inj heq
        exact absurd hr (hno rest)

/-- **Which references resolve.**  A reference resolves to a value exactly if, its signs read like zeros, it denotes
that value by the rules of URLs.  A given reference resolves by these rules, to all that it denotes and to nothing
else, exactly if it does not resolve at all or has no plus sign behind a percent sign. -/
theorem resolveLocal?_denotes_iff (root : Json) (r : String) :
    (∀ v, resolveLocal? root r = some v ↔ Denotes root (Pointer.signsAsZeros r.toList) v)
      ∧ ((∀ v, resolveLocal? root r = some v ↔ Denotes root r.toList v)
        ↔ resolveLocal? root r = none ∨ ¬ ['%', '+'] <:+: r.toList) := by
  refine ⟨fun v => resolveLocal?_eq_some_iff, fun h => ?_, ?_⟩
  · cases hr : resolveLocal? root r with
    | none => exact .inl rfl
    | some v => exact .inr (not_sign_of_denotes ((h v).mp hr))
  · rintro (hnone | hsign) v
    · rw [hnone]
      refine ⟨fun h => absurd h (by simp), fun h => ?_⟩
      -- what denotes a value would resolve to it
      have hsome : resolveLocal? root r = some v ↔ Denotes root (Pointer.signsAsZeros r.toList) v :=
        resolveLocal?_eq_some_iff
      rw [Pointer.signsAsZeros_eq_self (not_sign_of_denotes h), hnone] at hsome
      exact hsome.mpr h
    · rw [resolveLocal?_eq_some_iff, Pointer.signsAsZeros_eq_self hsign]

/-- **A reference with a sign in its escape resolves**, although by the rules of URLs it denotes nothing. -/
theorem signed_escape_resolves :
    resolveLocal? (.obj [("\t", .bool true)]) "#/%+9" = some (.bool true)
      ∧ ∀ v, ¬ Denotes (.obj [("\t", .bool true)]) "#/%+9".toList v := by
  have hbytes : Pointer.fragmentBytes? ['/', '%', '+', '9'] = some (Text.encode ['/', '\t']) := by decide
  have hfragment : Pointer.unescapeFragment? ['/', '%', '+', '9'] = some ['/', '\t'] := by
    rw [Pointer.unescapeFragment?, hbytes, Option.bind_some, Pointer.decode?_encode]
  have hself : Pointer.unescapeToken ['\t'] = ['\t'] :=
    (Pointer.unescapeToken_eq_self_iff ['\t']).mpr (by decide)
  have hpath : referencePath? "#/%+9" = some [['\t']] := by
    show referencePath? (String.ofList ('#' :: ['/', '%', '+', '9'])) = _
    rw [referencePath?_ofList, hfragment]
    show some [Pointer.unescapeToken ['\t']] = _
    rw [hself]
  have hresolves : resolveLocal? (.obj [("\t", .bool true)]) "#/%+9" = some (.bool true) := by
    rw [resolveLocal?_eq_descend?, hpath]
    rfl
  exact ⟨hresolves, fun v h => not_sign_of_denotes h ⟨['#', '/'], ['9'], by decide⟩⟩

end DecoderForge
