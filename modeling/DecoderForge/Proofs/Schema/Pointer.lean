import DecoderForge.Schema.Definitions
import Mathlib.Data.List.Basic

/-!
# DecoderForge — the escapes of a reference are read back

A reference to a definition is written from its key in two layers, token escapes inside percent
escapes, and read back in two layers.  This module shows for each layer that reading undoes writing,
and which texts a layer leaves alone.

## The architecture

* **`Text.replaceAll_pair_cons`** — how the replacement of a two-character text meets one character;
  both passes over a token are such replacements.
* **`Pointer.unescapeToken_escapeToken`**, **`Pointer.unescapeToken_eq_self_iff`** — tokens.
* **`Pointer.unescapeFragment?_append_escapeFragment`** — fragments, also behind a plain prefix.
* **`Pointer.length_of_fragmentBytes?`** — the byte count that tells whether a fragment had an escape.
-/

namespace DecoderForge

/-! ## Replacing a text of two characters

`Text.replaceAll` carries a helper that skips the rest of an occurrence.  For an occurrence of two
characters the helper skips exactly one, so that three equations say all. -/

namespace Text

/-- The bytes of a text, character by character. -/
theorem length_encode_cons (c : Char) (s : List Char) :
    (encode (c :: s)).length = c.utf8Size + (encode s).length := by
  simp [encode]

theorem dropStart?_nil (s : List Char) : dropStart? [] s = some s := rfl

theorem dropStart?_cons_nil (p : Char) (part : List Char) : dropStart? (p :: part) [] = none := rfl

theorem dropStart?_cons (p : Char) (part : List Char) (c : Char) (s : List Char) :
    dropStart? (p :: part) (c :: s) = if p == c then dropStart? part s else none := rfl

theorem replaceAll_nil (part out : List Char) : replaceAll part out [] = [] := by
  rw [replaceAll.eq_def]

/-- Of an occurrence of two characters one is passed. -/
theorem skip_pair (part out : List Char) (a b c : Char) (s : List Char) :
    replaceAll.skip part out [b] a (c :: s) = replaceAll part out s := by
  rw [replaceAll.skip.eq_def]
  show replaceAll.skip part out [] a s = _
  rw [replaceAll.skip.eq_def]
  cases s with
  | nil => exact (replaceAll_nil part out).symm
  | cons d s => rfl

/-- A text is replaced where it stands at the front. -/
theorem replaceAll_cons (a : Char) (part out : List Char) (c : Char) (s : List Char) :
    replaceAll (a :: part) out (c :: s)
      = if (dropStart? (a :: part) (c :: s)).isSome then out ++ replaceAll.skip (a :: part) out part a s
        else c :: replaceAll (a :: part) out s := by
  rw [replaceAll.eq_def]
  cases hstart : dropStart? (a :: part) (c :: s) <;> simp [hstart]

/-- An occurrence at the front is replaced, and the replacement is not read again. -/
theorem replaceAll_pair_occurrence (a b : Char) (out s : List Char) :
    replaceAll [a, b] out (a :: b :: s) = out ++ replaceAll [a, b] out s := by
  have hstart : (dropStart? [a, b] (a :: b :: s)).isSome = true := by simp [dropStart?_cons, dropStart?_nil]
  rw [replaceAll_cons, if_pos hstart, skip_pair]

/-- A front character that begins no occurrence is kept. -/
theorem replaceAll_pair_of_ne {a c : Char} (b : Char) (out s : List Char) (h : c ≠ a) :
    replaceAll [a, b] out (c :: s) = c :: replaceAll [a, b] out s := by
  have hstart : ¬ (dropStart? [a, b] (c :: s)).isSome = true := by simp [dropStart?_cons, h.symm]
  rw [replaceAll_cons, if_neg hstart]

/-- A front character that begins like an occurrence and goes on otherwise is kept. -/
theorem replaceAll_pair_of_next_ne {b c : Char} (a : Char) (out s : List Char) (h : c ≠ b) :
    replaceAll [a, b] out (a :: c :: s) = a :: replaceAll [a, b] out (c :: s) := by
  have hstart : ¬ (dropStart? [a, b] (a :: c :: s)).isSome = true := by simp [dropStart?_cons, h.symm]
  rw [replaceAll_cons, if_neg hstart]

/-- **One character of a replacement.** Either an occurrence stands at the front and its replacement
is written, or the front character is kept; there is no third way. -/
theorem replaceAll_pair_cons (a b : Char) (out : List Char) (c : Char) (s : List Char) :
    (∃ s', c = a ∧ s = b :: s'
        ∧ replaceAll [a, b] out (c :: s) = out ++ replaceAll [a, b] out s')
      ∨ (¬ [a, b] <+: c :: s ∧ replaceAll [a, b] out (c :: s) = c :: replaceAll [a, b] out s) := by
  by_cases hc : c = a
  · subst hc
    cases s with
    | nil =>
        have hstart : ¬ (dropStart? [c, b] [c]).isSome = true := by simp [dropStart?_cons, dropStart?_cons_nil]
        exact Or.inr ⟨by simp, by rw [replaceAll_cons, if_neg hstart]⟩
    | cons d s =>
        by_cases hd : d = b
        · subst hd
          exact Or.inl ⟨s, rfl, rfl, replaceAll_pair_occurrence c d out s⟩
        · refine Or.inr ⟨?_, replaceAll_pair_of_next_ne c out s hd⟩
          intro hpre
          rw [List.cons_prefix_cons, List.cons_prefix_cons] at hpre
          exact hd hpre.2.1.symm
  · refine Or.inr ⟨?_, replaceAll_pair_of_ne b out s hc⟩
    intro hpre
    rw [List.cons_prefix_cons] at hpre
    exact hc hpre.1.symm

/-- Replacing pairs by a single byte never takes more bytes. -/
theorem length_encode_replaceAll_le (a b : Char) {x : Char} (hx : x.utf8Size = 1) :
    ∀ s : List Char, (encode (replaceAll [a, b] [x] s)).length ≤ (encode s).length
  | [] => Nat.le_of_eq (congrArg (fun t => (encode t).length) (replaceAll_nil [a, b] [x]))
  | c :: s => by
      rcases replaceAll_pair_cons a b [x] c s with ⟨s', rfl, rfl, heq⟩ | ⟨-, heq⟩
      · have ih := length_encode_replaceAll_le c b hx s'
        have hb := b.utf8Size_pos
        rw [heq]
        simp only [List.cons_append, List.nil_append, length_encode_cons, hx]
        omega
      · have ih := length_encode_replaceAll_le a b hx s
        rw [heq]
        simp only [length_encode_cons]
        omega

/-- A text with an occurrence takes fewer bytes afterwards. -/
theorem length_encode_replaceAll_lt {a b x : Char} (hx : x.utf8Size = 1) :
    ∀ {s : List Char}, [a, b] <:+: s →
      (encode (replaceAll [a, b] [x] s)).length < (encode s).length
  | [], h => absurd h (by simp)
  | c :: s, h => by
      rcases replaceAll_pair_cons a b [x] c s with ⟨s', rfl, rfl, heq⟩ | ⟨hpre, heq⟩
      · have hle := length_encode_replaceAll_le c b hx s'
        have hc := c.utf8Size_pos
        have hb := b.utf8Size_pos
        rw [heq]
        simp only [List.cons_append, List.nil_append, length_encode_cons, hx]
        omega
      · -- no occurrence at the front, so it lies further on
        have hs : [a, b] <:+: s := by
          rcases List.infix_cons_iff.mp h with hp | hi
          · exact absurd hp hpre
          · exact hi
        have ih := length_encode_replaceAll_lt hx hs
        rw [heq]
        simp only [length_encode_cons]
        omega

/-- A text without an occurrence stays as it is. -/
theorem replaceAll_pair_eq_self {a b : Char} {out : List Char} :
    ∀ {s : List Char}, ¬ [a, b] <:+: s → replaceAll [a, b] out s = s
  | [], _ => replaceAll_nil [a, b] out
  | c :: s, h => by
      have hs : ¬ [a, b] <:+: s := fun hi => h (List.infix_cons_iff.mpr (Or.inr hi))
      rcases replaceAll_pair_cons a b out c s with ⟨s', rfl, rfl, -⟩ | ⟨-, heq⟩
      · exact absurd (List.infix_cons_iff.mpr (Or.inl ⟨s', rfl⟩)) h
      · rw [heq, replaceAll_pair_eq_self hs]

end Text

namespace Pointer

/-! ## Token escapes

Reading turns `~1` into `/` first and `~0` into `~` afterwards.  Writing puts no other character behind
a tilde, so after the first pass every tilde still has its `0`. -/

/-- One character of an escaped token. -/
theorem escapeToken_cons (c : Char) (s : List Char) :
    escapeToken (c :: s)
      = (if c = '~' then ['~', '0'] else if c = '/' then ['~', '1'] else [c]) ++ escapeToken s := by
  by_cases h₁ : c = '~'
  · subst h₁; simp [escapeToken, Text.replaceChar]
  · by_cases h₂ : c = '/'
    · subst h₂; simp [escapeToken, Text.replaceChar]
    · simp [escapeToken, Text.replaceChar, h₁, h₂]

/-- An escaped token has no slash. -/
theorem slash_notMem_escapeToken (s : List Char) : '/' ∉ escapeToken s := by
  induction s with
  | nil => simp [escapeToken, Text.replaceChar]
  | cons c s ih =>
      rw [escapeToken_cons, List.mem_append]
      rintro (h | h)
      · split at h
        · simp at h
        · split at h
          · simp at h
          · next hc => exact hc (List.mem_singleton.mp h).symm
      · exact ih h

/-- The first pass undoes the escapes of slashes and leaves those of tildes. -/
theorem replaceAll_escapeToken (s : List Char) :
    Text.replaceAll ['~', '1'] ['/'] (escapeToken s) = Text.replaceChar '~' ['~', '0'] s := by
  induction s with
  | nil => exact Text.replaceAll_nil _ _
  | cons c s ih =>
      rw [escapeToken_cons]
      by_cases h₁ : c = '~'
      · subst h₁
        rw [if_pos rfl]
        show Text.replaceAll ['~', '1'] ['/'] ('~' :: '0' :: escapeToken s) = _
        rw [Text.replaceAll_pair_of_next_ne '~' ['/'] _ (by decide : '0' ≠ '1'),
          Text.replaceAll_pair_of_ne '1' ['/'] _ (by decide : '0' ≠ '~'), ih]
        simp [Text.replaceChar]
      · rw [if_neg h₁]
        by_cases h₂ : c = '/'
        · subst h₂
          rw [if_pos rfl]
          show Text.replaceAll ['~', '1'] ['/'] ('~' :: '1' :: escapeToken s) = _
          rw [Text.replaceAll_pair_occurrence, ih]
          simp [Text.replaceChar]
        · rw [if_neg h₂]
          show Text.replaceAll ['~', '1'] ['/'] (c :: escapeToken s) = _
          rw [Text.replaceAll_pair_of_ne '1' ['/'] _ h₁, ih]
          simp [Text.replaceChar, h₁]

/-- The second pass undoes the escapes of tildes. -/
theorem replaceAll_replaceChar_tilde (s : List Char) :
    Text.replaceAll ['~', '0'] ['~'] (Text.replaceChar '~' ['~', '0'] s) = s := by
  induction s with
  | nil => exact Text.replaceAll_nil _ _
  | cons c s ih =>
      by_cases h : c = '~'
      · subst h
        show Text.replaceAll ['~', '0'] ['~'] ('~' :: '0' :: Text.replaceChar '~' ['~', '0'] s) = _
        rw [Text.replaceAll_pair_occurrence, ih]
        rfl
      · rw [show Text.replaceChar '~' ['~', '0'] (c :: s)
            = c :: Text.replaceChar '~' ['~', '0'] s from by simp [Text.replaceChar, h]]
        rw [Text.replaceAll_pair_of_ne '0' ['~'] _ h, ih]

/-- **Token escapes are read back**, for every token. -/
theorem unescapeToken_escapeToken (s : List Char) : unescapeToken (escapeToken s) = s := by
  unfold unescapeToken
  rw [replaceAll_escapeToken, replaceAll_replaceChar_tilde]

/-- A token reads as itself exactly when it has neither of the two escapes. -/
theorem unescapeToken_eq_self_iff (s : List Char) :
    unescapeToken s = s ↔ ¬ ['~', '1'] <:+: s ∧ ¬ ['~', '0'] <:+: s := by
  constructor
  · intro h
    have hlen := congrArg (fun t => (Text.encode t).length) h
    unfold unescapeToken at hlen
    -- either escape would make the text shorter for good
    have h₂ := Text.length_encode_replaceAll_le '~' '0' (by decide : '~'.utf8Size = 1)
      (Text.replaceAll ['~', '1'] ['/'] s)
    have h₁ : ¬ ['~', '1'] <:+: s := by
      intro hi
      have := Text.length_encode_replaceAll_lt (by decide : '/'.utf8Size = 1) hi
      omega
    refine ⟨h₁, ?_⟩
    intro hi
    rw [Text.replaceAll_pair_eq_self h₁] at hlen
    have := Text.length_encode_replaceAll_lt (by decide : '~'.utf8Size = 1) hi
    omega
  · rintro ⟨h₁, h₂⟩
    unfold unescapeToken
    rw [Text.replaceAll_pair_eq_self h₁, Text.replaceAll_pair_eq_self h₂]

/-- Reading a token never takes more bytes. -/
theorem length_encode_unescapeToken_le (s : List Char) :
    (Text.encode (unescapeToken s)).length ≤ (Text.encode s).length :=
  Nat.le_trans (Text.length_encode_replaceAll_le _ _ (by decide) _)
    (Text.length_encode_replaceAll_le _ _ (by decide) _)

/-! ## Percent escapes

A fragment is written byte by byte and read character by character.  The two meet because a byte that
stands for itself is an ASCII character other than the percent sign, which is its own single byte. -/

theorem fragmentBytes?_nil : fragmentBytes? [] = some [] := rfl

/-- A character other than the percent sign contributes its own bytes. -/
theorem fragmentBytes?_cons_of_ne {c : Char} (h : c ≠ '%') (rest : List Char) :
    fragmentBytes? (c :: rest) = (fragmentBytes? rest).map (String.utf8EncodeChar c ++ ·) := by
  rw [fragmentBytes?.eq_def]
  split
  · next a b rest' heq => exact absurd (List.cons.inj heq).1 h
  · next c' rest' _ heq =>
      obtain ⟨rfl, rfl⟩ := List.cons.inj heq
      rw [if_neg (by simpa using h)]
  · next heq => exact absurd heq (by simp)

/-- A percent sign takes the two characters behind it. -/
theorem fragmentBytes?_percent (a b : Char) (rest : List Char) :
    fragmentBytes? ('%' :: a :: b :: rest)
      = (percentByte? a b).bind fun byte => (fragmentBytes? rest).map (byte :: ·) := by
  rw [fragmentBytes?.eq_def]
  simp only
  cases percentByte? a b <;> rfl

theorem fragmentBytes?_percent_nil : fragmentBytes? ['%'] = none := rfl

theorem fragmentBytes?_percent_one (a : Char) : fragmentBytes? ['%', a] = none := rfl

/-- A byte that stands for itself is the one byte of its character, which is no percent sign. -/
theorem utf8EncodeChar_of_isFragmentByte {b : UInt8} (h : isFragmentByte b = true) :
    String.utf8EncodeChar (Char.ofNat b.toNat) = [b] ∧ Char.ofNat b.toNat ≠ '%' := by
  have all : ∀ n : Fin 256, isFragmentByte (UInt8.ofNat n.val) = true →
      String.utf8EncodeChar (Char.ofNat (UInt8.ofNat n.val).toNat) = [UInt8.ofNat n.val]
        ∧ Char.ofNat (UInt8.ofNat n.val).toNat ≠ '%' := by decide +kernel
  have hb : UInt8.ofNat b.toNat = b := UInt8.ofNat_toNat
  have hall := all ⟨b.toNat, b.toNat_lt⟩
  rw [hb] at hall
  exact hall h

/-- The two digits written for a byte name that byte. -/
theorem percentByte?_upperHexDigit (b : UInt8) :
    percentByte? (upperHexDigit (b.toNat / 16)) (upperHexDigit (b.toNat % 16)) = some b := by
  have all : ∀ n : Fin 256, percentByte? (upperHexDigit (n.val / 16)) (upperHexDigit (n.val % 16))
      = some (UInt8.ofNat n.val) := by decide +kernel
  have hb : UInt8.ofNat b.toNat = b := UInt8.ofNat_toNat
  have hall := all ⟨b.toNat, b.toNat_lt⟩
  rwa [hb] at hall

/-- One written byte is read back. -/
theorem fragmentBytes?_escapeByte (b : UInt8) (rest : List Char) :
    fragmentBytes? (escapeByte b ++ rest) = (fragmentBytes? rest).map (b :: ·) := by
  unfold escapeByte
  by_cases h : isFragmentByte b = true
  · obtain ⟨henc, hne⟩ := utf8EncodeChar_of_isFragmentByte h
    rw [if_pos h]
    show fragmentBytes? (Char.ofNat b.toNat :: rest) = _
    rw [fragmentBytes?_cons_of_ne hne, henc]
    rfl
  · rw [if_neg h]
    show fragmentBytes? ('%' :: upperHexDigit (b.toNat / 16) :: upperHexDigit (b.toNat % 16) :: rest)
      = _
    rw [fragmentBytes?_percent, percentByte?_upperHexDigit]
    rfl

/-- **A written fragment is read back to the bytes of its text.** -/
theorem fragmentBytes?_escapeFragment (s : List Char) :
    fragmentBytes? (escapeFragment s) = some (Text.encode s) := by
  unfold escapeFragment
  generalize Text.encode s = bytes
  induction bytes with
  | nil => rfl
  | cons b bytes ih =>
      rw [List.flatMap_cons, fragmentBytes?_escapeByte, ih]
      rfl

/-- Text without percent signs in front of a fragment contributes its own bytes. -/
theorem fragmentBytes?_append {p : List Char} (h : '%' ∉ p) (rest : List Char) :
    fragmentBytes? (p ++ rest) = (fragmentBytes? rest).map (Text.encode p ++ ·) := by
  induction p with
  | nil => simp [Text.encode]
  | cons c p ih =>
      have hc : c ≠ '%' := fun hc => h (by simp [hc])
      have hp : '%' ∉ p := fun hp => h (List.mem_cons_of_mem c hp)
      rw [List.cons_append, fragmentBytes?_cons_of_ne hc, ih hp, Option.map_map]
      congr 1
      funext bytes
      simp [Text.encode, List.append_assoc]

/-- The bytes of a text are the text. -/
theorem decode?_encode (s : List Char) : Text.decode? (Text.encode s) = some s := by
  have hbytes : ByteArray.mk (Text.encode s).toArray = List.utf8Encode s := by
    apply ByteArray.ext
    rw [List.utf8Encode, List.data_toByteArray]
    rfl
  unfold Text.decode?
  rw [hbytes, List.utf8Decode?_utf8Encode]
  rfl

/-- Text without percent signs is a fragment that reads as itself. -/
theorem unescapeFragment?_of_notMem {s : List Char} (h : '%' ∉ s) :
    unescapeFragment? s = some s := by
  have hbytes := fragmentBytes?_append h []
  rw [List.append_nil] at hbytes
  unfold unescapeFragment?
  rw [hbytes]
  simpa [fragmentBytes?_nil] using decode?_encode s

/-- A written fragment reads as its text, also behind text without percent signs. -/
theorem unescapeFragment?_append_escapeFragment {p : List Char} (h : '%' ∉ p) (s : List Char) :
    unescapeFragment? (p ++ escapeFragment s) = some (p ++ s) := by
  unfold unescapeFragment?
  rw [fragmentBytes?_append h, fragmentBytes?_escapeFragment]
  show Text.decode? (Text.encode p ++ Text.encode s) = _
  rw [show Text.encode p ++ Text.encode s = Text.encode (p ++ s) from by simp [Text.encode]]
  exact decode?_encode (p ++ s)

/-- Bytes that decode to a text are the bytes of that text. -/
theorem encode_of_decode? {bytes : List UInt8} {s : List Char} (h : Text.decode? bytes = some s) :
    Text.encode s = bytes := by
  unfold Text.decode? at h
  obtain ⟨cs, hcs, rfl⟩ := Option.map_eq_some_iff.mp h
  have hget := ByteArray.utf8Encode_get_utf8Decode? (b := ByteArray.mk bytes.toArray)
    (h := by rw [hcs]; rfl)
  simp only [hcs, Option.get_some] at hget
  have hdata := congrArg (fun b : ByteArray => b.data.toList) hget
  simpa [List.utf8Encode, List.data_toByteArray, Text.encode] using hdata

/-- A percent escape stands for a single byte, so that reading a fragment loses bytes exactly at percent
signs. -/
theorem length_of_fragmentBytes? :
    ∀ {s : List Char} {bytes : List UInt8}, fragmentBytes? s = some bytes →
      bytes.length ≤ (Text.encode s).length
        ∧ ('%' ∈ s → bytes.length < (Text.encode s).length)
  | [], bytes, h => by
      obtain rfl : [] = bytes := Option.some.inj h
      simp
  | c :: s, bytes, h => by
      by_cases hc : c = '%'
      · subst hc
        match s, h with
        | [], h => exact absurd h (by simp [fragmentBytes?_percent_nil])
        | [a], h => exact absurd h (by simp [fragmentBytes?_percent_one])
        | a :: b :: rest, h =>
            rw [fragmentBytes?_percent] at h
            obtain ⟨byte, -, hrest⟩ := Option.bind_eq_some_iff.mp h
            obtain ⟨more, hmore, rfl⟩ := Option.map_eq_some_iff.mp hrest
            have ih := (length_of_fragmentBytes? hmore).1
            have ha := a.utf8Size_pos
            have hb := b.utf8Size_pos
            simp only [List.length_cons, Text.length_encode_cons]
            exact ⟨by omega, fun _ => by omega⟩
      · rw [fragmentBytes?_cons_of_ne hc] at h
        obtain ⟨more, hmore, rfl⟩ := Option.map_eq_some_iff.mp h
        obtain ⟨hle, hlt⟩ := length_of_fragmentBytes? hmore
        simp only [List.length_append, String.length_utf8EncodeChar, Text.length_encode_cons]
        refine ⟨by omega, fun hmem => ?_⟩
        have := hlt ((List.mem_cons.mp hmem).resolve_left fun h => hc h.symm)
        omega

end Pointer

end DecoderForge
