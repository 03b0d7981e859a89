import DecoderForge.Json.Reader
import DecoderForge.Proofs.Text.Delimited

/-!
# DecoderForge — tokens and line ends

No token of JSON text runs over the end of a line: strings hold no control characters, and everything else
holds no blanks.  So the tokens of a text are those of its lines, and blanks between lines do not count.

## The architecture

* **`StopsAt`** — a reader that reads no further than a character; kept by doing one after the other.
* **`stopsAt_readOff`**, **`stopsAt_numberOff`** — strings and numbers.
* **`firstOff`** — the first token of a text, or a blank.
* **`ofChars?_append`** — the tokens of two texts with a line end in between.
-/

namespace DecoderForge.Json.Token

open DecoderForge.Text (prefix_of_append_cons readOff readOff_escape readOff_other readOff_quote)

/-- A blank that no string holds: a line end or a tab. -/
def IsBreak (c : Char) : Prop := isBlank c = true ∧ c.toNat < 0x20

/-! ## Readers that stop -/

/-- A reader that reads no further than a character. -/
def StopsAt {α : Type} (c : Char) (read : List Char → Option (α × List Char)) : Prop :=
  ∀ a b, read (a ++ c :: b) = (read a).map fun r => (r.1, r.2 ++ c :: b)

namespace StopsAt

variable {α β : Type} {c : Char} {read : List Char → Option (α × List Char)}

theorem pure (x : α) : StopsAt c fun cs => some (x, cs) := fun _ _ => rfl

theorem none : StopsAt c fun _ => (Option.none : Option (α × List Char)) := fun _ _ => rfl

theorem ofOption (x : Option α) : StopsAt c fun cs => x.map (·, cs) := by
  cases x with
  | none => exact none
  | some x => exact pure x

theorem bind {next : α → List Char → Option (β × List Char)} (h : StopsAt c read) (hnext : ∀ x, StopsAt c (next x)) :
    StopsAt c fun cs => (read cs).bind fun r => next r.1 r.2 := by
  intro a b
  simp only [h a b]
  cases read a with
  | none => rfl
  | some r => exact hnext r.1 r.2 b

theorem map (f : α → β) (h : StopsAt c read) : StopsAt c fun cs => (read cs).map fun r => (f r.1, r.2) := by
  intro a b
  simp only [h a b]
  cases read a <;> rfl

/-- A reader that looks at the first character. -/
theorem cons (hnil : ∀ b, read (c :: b) = (read []).map fun r => (r.1, r.2 ++ c :: b))
    (hcons : ∀ d, StopsAt c fun cs => read (d :: cs)) : StopsAt c read
  | [], b => hnil b
  | d :: a, b => hcons d a b

end StopsAt

/-! ## Strings -/

/-- Four hexadecimal digits. -/
def hexOff : List Char → Option (Nat × List Char)
  | a :: b :: c :: d :: r => (hex4? a b c d).map (·, r)
  | _ => none

theorem hexValue?_of_isBreak {c : Char} (hc : IsBreak c) : hexValue? c = none := by
  have hlow := hc.2
  have hle (d : Char) (hd : 0x20 ≤ d.toNat) : ¬ d ≤ c := by
    rw [Char.le_def, UInt32.le_iff_toNat_le]
    show ¬ d.toNat ≤ c.toNat
    omega
  simp [hexValue?, hle '0' (by decide), hle 'a' (by decide), hle 'A' (by decide)]

theorem stopsAt_hexOff {c : Char} (hc : IsBreak c) : StopsAt c hexOff := by
  have hnone := hexValue?_of_isBreak hc
  intro a b
  rcases a with _ | ⟨a₁, _ | ⟨a₂, _ | ⟨a₃, _ | ⟨a₄, a⟩⟩⟩⟩
  · rcases b with _ | ⟨b₁, _ | ⟨b₂, _ | ⟨b₃, b⟩⟩⟩ <;> simp [hexOff, hex4?, hnone]
  · rcases b with _ | ⟨b₁, _ | ⟨b₂, b⟩⟩ <;> simp [hexOff, hex4?, hnone]
  · rcases b with _ | ⟨b₁, b⟩ <;> simp [hexOff, hex4?, hnone]
  · simp [hexOff, hex4?, hnone]
  · simp [hexOff, Function.comp_def]

/-- The character of a surrogate pair. -/
def pairChar? (high low : Nat) : Option Char :=
  if 0xDC00 ≤ low && low ≤ 0xDFFF then
    some (Char.ofNat (0x10000 + (high - 0xD800) * 0x400 + (low - 0xDC00)))
  else none

/-- The second half of a surrogate pair. -/
def lowOff (high : Nat) : List Char → Option (Char × List Char)
  | '\\' :: 'u' :: r => (hexOff r).bind fun p => (pairChar? high p.1).map (·, p.2)
  | _ => none

theorem stopsAt_lowOff {c : Char} (hc : IsBreak c) (high : Nat) : StopsAt c (lowOff high) := by
  have hne (d : Char) (hd : 0x20 ≤ d.toNat) : c ≠ d := by
    rintro rfl
    have := hc.2
    omega
  have hpair : StopsAt c fun r => (hexOff r).bind fun p => (pairChar? high p.1).map (·, p.2) :=
    (stopsAt_hexOff hc).bind fun low => .ofOption (pairChar? high low)
  intro a b
  rcases a with _ | ⟨a₁, _ | ⟨a₂, a⟩⟩
  · simp [lowOff, hne '\\' (by decide)]
  · simp [lowOff, hne 'u' (by decide)]
  · by_cases hfirst : a₁ = '\\' ∧ a₂ = 'u'
    · obtain ⟨rfl, rfl⟩ := hfirst
      exact hpair a b
    · have hnone (r : List Char) : lowOff high (a₁ :: a₂ :: r) = none := by
        unfold lowOff
        split
        · next heq =>
          simp only [List.cons.injEq] at heq
          exact absurd ⟨heq.1, heq.2.1⟩ hfirst
        · rfl
      rw [hnone a]
      exact hnone _

/-- What stands behind a backslash. -/
def escapeOff (cs : List Char) : Option (Char × List Char) := (readEscape cs).map fun r => (r.1, r.2.1)

/-- The character of an escape of one character. -/
def shortEscape? : Char → Option Char
  | '"' => some '"'
  | '\\' => some '\\'
  | '/' => some '/'
  | 'b' => some '\x08'
  | 'f' => some '\x0c'
  | 'n' => some '\n'
  | 'r' => some '\r'
  | 't' => some '\t'
  | _ => none

/-- The character with a code, and the second half of its pair if it has one. -/
def codeOff (n : Nat) (r : List Char) : Option (Char × List Char) :=
  if 0xDC00 ≤ n && n ≤ 0xDFFF then none
  else if 0xD800 ≤ n && n ≤ 0xDBFF then lowOff n r
  else some (Char.ofNat n, r)

theorem escapeOff_code (r : List Char) :
    escapeOff ('u' :: r) = (hexOff r).bind fun p => codeOff p.1 p.2 := by
  rcases r with _ | ⟨a, _ | ⟨b, _ | ⟨c, _ | ⟨d, r⟩⟩⟩⟩
  · rfl
  · rfl
  · rfl
  · rfl
  · simp only [escapeOff, readEscape, hexOff]
    cases hex4? a b c d with
    | none => rfl
    | some n =>
        simp only [Option.map_some, Option.bind_some, codeOff]
        split
        · rfl
        · split
          · -- a high surrogate needs its second half
            split
            · next a b c d r =>
              simp only [lowOff, hexOff]
              cases hex4? a b c d with
              | none => rfl
              | some low =>
                  simp only [Option.map_some, Option.bind_some, pairChar?]
                  split_ifs <;> simp
            · next hother =>
              unfold lowOff
              split
              · next r =>
                rcases r with _ | ⟨a, _ | ⟨b, _ | ⟨c, _ | ⟨d, r⟩⟩⟩⟩
                · rfl
                · rfl
                · rfl
                · rfl
                · exact (hother a b c d r rfl).elim
              · rfl
          · rfl

theorem escapeOff_of_ne {d : Char} (h : d ≠ 'u') (r : List Char) :
    escapeOff (d :: r) = (shortEscape? d).map (·, r) := by
  cases hshort : shortEscape? d with
  | none =>
      have hnone (cs : List Char) (hcs : cs = d :: r) : readEscape cs = none := by
        unfold readEscape
        split
        all_goals first
          | rfl
          | obtain ⟨rfl, -⟩ := List.cons.inj hcs
            first
              | exact absurd rfl h
              | exact absurd hshort (by simp [shortEscape?])
      simp [escapeOff, hnone _ rfl]
  | some e =>
      unfold shortEscape? at hshort
      split at hshort
      all_goals first
        | obtain rfl := Option.some.inj hshort
          rfl
        | exact absurd hshort (by simp)

theorem stopsAt_codeOff {c : Char} (hc : IsBreak c) (n : Nat) : StopsAt c (codeOff n) := by
  unfold codeOff
  split
  · exact .none
  · split
    · exact stopsAt_lowOff hc n
    · exact .pure _

theorem stopsAt_escapeOff {c : Char} (hc : IsBreak c) : StopsAt c escapeOff := by
  refine .cons (fun b => ?_) fun d => ?_
  · -- nothing escapes a line end
    have hshort : c ≠ 'u' ∧ shortEscape? c = none := by
      unfold shortEscape?
      split
      all_goals first
        | exact absurd hc.2 (by decide)
        | exact ⟨fun hu => absurd hc.2 (by rw [hu]; decide), rfl⟩
    rw [escapeOff_of_ne hshort.1, hshort.2]
    rfl
  · by_cases hd : d = 'u'
    · subst hd
      simp only [escapeOff_code]
      exact (stopsAt_hexOff hc).bind fun n => stopsAt_codeOff hc n
    · simp only [escapeOff_of_ne hd]
      exact .ofOption (shortEscape? d)

/-- An escape is shorter than the text in which it stands. -/
theorem length_lt_of_escapeOff {cs r : List Char} {e : Char} (h : escapeOff cs = some (e, r)) :
    r.length < cs.length := by
  obtain ⟨⟨e', r', hlt⟩, -, heq⟩ := Option.map_eq_some_iff.mp h
  obtain ⟨rfl, rfl⟩ := Prod.mk.inj heq
  exact hlt

theorem readOff_nil (before : List Char) : readOff [] before = none := by
  simp [readOff, readString]

theorem readOff_backslash (r before : List Char) :
    readOff ('\\' :: r) before = (escapeOff r).bind fun p => readOff p.2 (p.1 :: before) := by
  cases h : readEscape r with
  | none =>
      unfold readOff
      rw [readString.eq_def]
      simp [escapeOff, h]
  | some p =>
      obtain ⟨e, rest, hlt⟩ := p
      rw [readOff_escape h]
      simp [escapeOff, h]

/-- **A string stops at a line end**, which it cannot hold. -/
theorem stopsAt_readOff {c : Char} (hc : IsBreak c) (before : List Char) : StopsAt c (readOff · before) := by
  intro a b
  show readOff (a ++ c :: b) before = (readOff a before).map _
  induction hn : a.length using Nat.strongRecOn generalizing a before with
  | _ n ih =>
      cases a with
      | nil =>
          have hquote : c ≠ '"' := fun h => absurd hc.2 (by rw [h]; decide)
          have hbackslash : c ≠ '\\' := fun h => absurd hc.2 (by rw [h]; decide)
          rw [List.nil_append, readOff_other hquote hbackslash, if_pos hc.2, readOff_nil]
          rfl
      | cons d a =>
          have hstep (before : List Char) := ih a.length (hn ▸ Nat.lt_succ_self _) before a rfl
          rw [List.cons_append]
          by_cases hquote : d = '"'
          · subst hquote
            rw [readOff_quote, readOff_quote]
            rfl
          · by_cases hbackslash : d = '\\'
            · subst hbackslash
              rw [readOff_backslash, readOff_backslash, stopsAt_escapeOff hc a b]
              cases hescape : escapeOff a with
              | none => rfl
              | some p =>
                  have hlt := length_lt_of_escapeOff hescape
                  exact ih p.2.length (by rw [← hn, List.length_cons]; omega) _ p.2 rfl
            · rw [readOff_other hquote hbackslash, readOff_other hquote hbackslash]
              split
              · rfl
              · exact hstep _

/-! ## Numbers -/

theorem isDigit_of_isBreak {c : Char} (hc : IsBreak c) : isDigit c = false := by
  have hle : ¬ '0' ≤ c := by
    rw [Char.le_def, UInt32.le_iff_toNat_le]
    have hlow := hc.2
    show ¬ 48 ≤ c.toNat
    omega
  simp [isDigit, hle]

theorem readDigits_append {c : Char} (hc : isDigit c = false) (b : List Char) : ∀ a : List Char,
    readDigits (a ++ c :: b) = ((readDigits a).1, (readDigits a).2 ++ c :: b)
  | [] => by simp [readDigits, hc]
  | d :: a => by
      rw [List.cons_append, readDigits, readDigits, readDigits_append hc b a]
      split <;> rfl

/-- At least one digit. -/
def digitsOff (cs : List Char) : Option (List Nat × List Char) :=
  if (readDigits cs).1 = [] then none else some (readDigits cs)

theorem stopsAt_digitsOff {c : Char} (hc : IsBreak c) : StopsAt c digitsOff := by
  intro a b
  unfold digitsOff
  rw [readDigits_append (isDigit_of_isBreak hc)]
  split <;> rfl

/-- A fraction, which may be absent. -/
def fractionOff (cs : List Char) : Option (List Nat × List Char) := (readFraction cs).map fun r => (r.1, r.2.1)

theorem fractionOff_point (r : List Char) : fractionOff ('.' :: r) = digitsOff r := by
  unfold fractionOff
  simp only [readFraction]
  split
  · next h => simp [digitsOff, h]
  · next ds rest hds h =>
    have hsome : ¬ ds = [] := hds
    simp [digitsOff, h, hsome]

theorem fractionOff_of_head? {cs : List Char} (h : cs.head? ≠ some '.') : fractionOff cs = some ([], cs) := by
  unfold fractionOff readFraction
  split
  · exact absurd rfl h
  · rfl

theorem stopsAt_fractionOff {c : Char} (hc : IsBreak c) : StopsAt c fractionOff := by
  refine .cons (fun b => ?_) fun d => ?_
  · have hpoint : c ≠ '.' := fun h => absurd hc.2 (by rw [h]; decide)
    rw [fractionOff_of_head? (by simpa using hpoint), fractionOff_of_head? (by simp)]
    rfl
  · by_cases hd : d = '.'
    · subst hd
      simp only [fractionOff_point]
      exact stopsAt_digitsOff hc
    · intro a b
      simp only [fractionOff_of_head? (show (d :: _).head? ≠ some '.' by simpa using hd)]
      rfl

/-- An exponent, which may be absent. -/
def exponentOff (cs : List Char) : Option (Option Int × List Char) :=
  (readExponent cs).map fun r => (r.1, r.2.1)

/-- The digits of an exponent behind its sign. -/
def exponentDigitsOff (negative : Bool) (cs : List Char) : Option (Option Int × List Char) :=
  (digitsOff cs).map fun r => (some (if negative then -(digitsValue r.1 : Int) else digitsValue r.1), r.2)

theorem map_readExponentDigits (negative : Bool) (r : List Char) :
    (readExponentDigits negative r).map (fun r => (r.1, r.2.1)) = exponentDigitsOff negative r := by
  unfold readExponentDigits
  simp only
  split
  · next h => simp [exponentDigitsOff, digitsOff, h]
  · next ds rest hds h =>
    have hsome : ¬ ds = [] := hds
    simp [exponentDigitsOff, digitsOff, h, hsome]

/-- What stands behind the letter of an exponent. -/
def signedOff : List Char → Option (Option Int × List Char)
  | '+' :: r => exponentDigitsOff false r
  | '-' :: r => exponentDigitsOff true r
  | r => exponentDigitsOff false r

theorem signedOff_of_ne {r : List Char} (hplus : r.head? ≠ some '+') (hminus : r.head? ≠ some '-') :
    signedOff r = exponentDigitsOff false r := by
  unfold signedOff
  split
  · exact absurd rfl hplus
  · exact absurd rfl hminus
  · rfl

theorem exponentOff_cons (d : Char) (r : List Char) :
    exponentOff (d :: r) = if d == 'e' || d == 'E' then signedOff r else some (none, d :: r) := by
  unfold exponentOff
  rw [readExponent.eq_def]
  simp only
  split
  · split
    · next r =>
      show _ = exponentDigitsOff false r
      rw [← map_readExponentDigits, Option.map_map]
      rfl
    · next r =>
      show _ = exponentDigitsOff true r
      rw [← map_readExponentDigits, Option.map_map]
      rfl
    · next hplus hminus =>
      have hplus : r.head? ≠ some '+' := fun h => by
        cases r with
        | nil => simp at h
        | cons e r => exact hplus r (by simpa using h)
      have hminus : r.head? ≠ some '-' := fun h => by
        cases r with
        | nil => simp at h
        | cons e r => exact hminus r (by simpa using h)
      rw [signedOff_of_ne hplus hminus, ← map_readExponentDigits, Option.map_map]
      rfl
  · rfl

theorem stopsAt_exponentDigitsOff {c : Char} (hc : IsBreak c) (negative : Bool) :
    StopsAt c (exponentDigitsOff negative) :=
  (stopsAt_digitsOff hc).map fun ds => some (if negative then -(digitsValue ds : Int) else digitsValue ds)

theorem stopsAt_signedOff {c : Char} (hc : IsBreak c) : StopsAt c signedOff := by
  refine .cons (fun b => ?_) fun d => ?_
  · have hplus : c ≠ '+' := fun h => absurd hc.2 (by rw [h]; decide)
    have hminus : c ≠ '-' := fun h => absurd hc.2 (by rw [h]; decide)
    rw [signedOff_of_ne (by simpa using hplus) (by simpa using hminus), signedOff_of_ne (by simp) (by simp)]
    exact stopsAt_exponentDigitsOff hc false [] b
  · by_cases hplus : d = '+'
    · subst hplus
      exact stopsAt_exponentDigitsOff hc false
    · by_cases hminus : d = '-'
      · subst hminus
        exact stopsAt_exponentDigitsOff hc true
      · intro a b
        have hplain (r : List Char) : signedOff (d :: r) = exponentDigitsOff false (d :: r) :=
          signedOff_of_ne (by simpa using hplus) (by simpa using hminus)
        simp only [hplain]
        exact stopsAt_exponentDigitsOff hc false (d :: a) b

theorem stopsAt_exponentOff {c : Char} (hc : IsBreak c) : StopsAt c exponentOff := by
  refine .cons (fun b => ?_) fun d => ?_
  · have hlower : c ≠ 'e' := fun h => absurd hc.2 (by rw [h]; decide)
    have hupper : c ≠ 'E' := fun h => absurd hc.2 (by rw [h]; decide)
    rw [exponentOff_cons, if_neg (by simp [hlower, hupper])]
    rfl
  · simp only [exponentOff_cons]
    split
    · exact stopsAt_signedOff hc
    · exact fun _ _ => rfl

/-- A number behind its sign. -/
def numberOff (negative : Bool) (cs : List Char) : Option (Number × List Char) :=
  (readUnsigned negative cs).map fun r => (r.1, r.2.1)

/-- What stands behind the digits in front of the point. -/
def restOff (negative : Bool) (whole : List Nat) (cs : List Char) : Option (Number × List Char) :=
  (fractionOff cs).bind fun fraction => (exponentOff fraction.2).bind fun exponent =>
    (Number.ofLiteral ⟨negative, whole, fraction.1, exponent.1⟩).map (·, exponent.2)

/-- A leading zero that does not stand alone. -/
def leadsWithZero (whole : List Nat) : Bool := whole.head? == some 0 && !whole.tail.isEmpty

theorem numberOff_eq (negative : Bool) (cs : List Char) :
    numberOff negative cs = (digitsOff cs).bind fun whole =>
      if leadsWithZero whole.1 then none else restOff negative whole.1 whole.2 := by
  unfold numberOff
  rw [readUnsigned.eq_def]
  split
  · next h => simp [digitsOff, h]
  · next d ds r h =>
    simp only [digitsOff, h, reduceCtorEq, if_false, Option.bind_some]
    have hzero : leadsWithZero (d :: ds) = (d == 0 && !ds.isEmpty) := by simp [leadsWithZero]
    rw [hzero]
    split
    · rfl
    · unfold restOff fractionOff
      cases readFraction r with
      | none => rfl
      | some fraction =>
          simp only [Option.map_some, Option.bind_some]
          unfold exponentOff
          cases readExponent fraction.2.1 with
          | none => rfl
          | some exponent =>
              simp only [Option.map_some, Option.bind_some, Option.map_map]
              rfl

theorem stopsAt_numberOff {c : Char} (hc : IsBreak c) (negative : Bool) : StopsAt c (numberOff negative) := by
  have hrest (whole : List Nat) : StopsAt c (restOff negative whole) :=
    (stopsAt_fractionOff hc).bind fun fraction => (stopsAt_exponentOff hc).bind fun exponent =>
      .ofOption (Number.ofLiteral ⟨negative, whole, fraction, exponent⟩)
  have hwhole (whole : List Nat) :
      StopsAt c fun cs => if leadsWithZero whole then none else restOff negative whole cs := by
    cases leadsWithZero whole with
    | true => exact StopsAt.none
    | false => exact hrest whole
  rw [show numberOff negative = _ from funext (numberOff_eq negative)]
  exact (stopsAt_digitsOff hc).bind hwhole

theorem length_lt_of_numberOff {negative : Bool} {cs r : List Char} {n : Number}
    (h : numberOff negative cs = some (n, r)) : r.length < cs.length := by
  obtain ⟨⟨n', r', hlt⟩, -, heq⟩ := Option.map_eq_some_iff.mp h
  obtain ⟨rfl, rfl⟩ := Prod.mk.inj heq
  exact hlt

theorem length_le_of_readOff {cs before r : List Char} {s : String} (h : readOff cs before = some (s, r)) :
    r.length ≤ cs.length := by
  obtain ⟨⟨s', r', hle⟩, -, heq⟩ := Option.map_eq_some_iff.mp h
  obtain ⟨rfl, rfl⟩ := Prod.mk.inj heq
  exact hle

/-! ## Tokens -/

/-- How tokens begin that are told by their first characters. -/
def markers : List (List Char) :=
  ["\x7b", "\x7d", "[", "]", ",", ":", "null", "true", "false", "\"", "-"].map String.toList

/-- A blank, or a number without a sign. -/
def plainOff : List Char → Option (Option Token × List Char)
  | [] => none
  | c :: r =>
    if isBlank c then some (none, r) else (numberOff false (c :: r)).map fun p => (some (.num p.1), p.2)

/-- The first token of a text, or no token for a blank. -/
def firstOff : List Char → Option (Option Token × List Char)
  | '{' :: r => some (some .openBrace, r)
  | '}' :: r => some (some .closeBrace, r)
  | '[' :: r => some (some .openBracket, r)
  | ']' :: r => some (some .closeBracket, r)
  | ',' :: r => some (some .comma, r)
  | ':' :: r => some (some .colon, r)
  | 'n' :: 'u' :: 'l' :: 'l' :: r => some (some .null, r)
  | 't' :: 'r' :: 'u' :: 'e' :: r => some (some (.bool true), r)
  | 'f' :: 'a' :: 'l' :: 's' :: 'e' :: r => some (some (.bool false), r)
  | '"' :: r => (readOff r []).map fun p => (some (.str p.1), p.2)
  | '-' :: r => (numberOff true r).map fun p => (some (.num p.1), p.2)
  | cs => plainOff cs

/-- **The tokens of a text, one after the other.** -/
theorem ofChars?_eq {cs : List Char} (h : cs ≠ []) :
    ofChars? cs = (firstOff cs).bind fun p => (ofChars? p.2).map (p.1.toList ++ ·) := by
  fun_cases firstOff cs with
  | case10 r =>
      rw [ofChars?]
      unfold readOff
      cases readString r [] <;> rfl
  | case11 r =>
      rw [ofChars?]
      unfold numberOff
      cases readUnsigned true r <;> rfl
  | case12 =>
      cases cs with
      | nil => exact absurd rfl h
      | cons c r =>
          rw [ofChars?.eq_13, plainOff]
          · split
            · simp
            · unfold numberOff
              cases readUnsigned false (c :: r) <;> rfl
          -- it begins with none of the markers
          all_goals
            intros
            subst_vars
            simp_all
  | _ =>
      rw [ofChars?]
      rfl

theorem length_lt_of_plainOff {cs r : List Char} {t : Option Token} (h : plainOff cs = some (t, r)) :
    r.length < cs.length := by
  cases cs with
  | nil => exact absurd h (by simp [plainOff])
  | cons c cs =>
      rw [plainOff] at h
      split at h
      · obtain ⟨-, rfl⟩ := Prod.mk.inj (Option.some.inj h)
        exact Nat.lt_succ_self _
      · obtain ⟨⟨n, rest⟩, hread, heq⟩ := Option.map_eq_some_iff.mp h
        obtain ⟨-, rfl⟩ := Prod.mk.inj heq
        exact length_lt_of_numberOff hread

theorem length_lt_of_firstOff {cs r : List Char} {t : Option Token} (h : firstOff cs = some (t, r)) :
    r.length < cs.length := by
  fun_cases firstOff cs with
  | case10 r' =>
      obtain ⟨⟨s, rest⟩, hread, heq⟩ := Option.map_eq_some_iff.mp h
      obtain ⟨-, rfl⟩ := Prod.mk.inj heq
      exact Nat.lt_succ_of_le (length_le_of_readOff hread)
  | case11 r' =>
      obtain ⟨⟨n, rest⟩, hread, heq⟩ := Option.map_eq_some_iff.mp h
      obtain ⟨-, rfl⟩ := Prod.mk.inj heq
      exact Nat.lt_succ_of_lt (length_lt_of_numberOff hread)
  | case12 =>
      rw [firstOff] at h
      · exact length_lt_of_plainOff h
      all_goals assumption
  | _ =>
      obtain ⟨-, rfl⟩ := Prod.mk.inj (Option.some.inj h)
      simp only [List.length_cons]
      omega

theorem firstOff_of_plain {cs : List Char} (h : ∀ w ∈ markers, ¬ w <+: cs) : firstOff cs = plainOff cs := by
  fun_cases firstOff cs with
  | case12 => rfl
  | _ => simp [markers] at h

theorem plainOff_append {c : Char} (hc : IsBreak c) {a : List Char} (ha : a ≠ []) (b : List Char) :
    plainOff (a ++ c :: b) = (plainOff a).map fun p => (p.1, p.2 ++ c :: b) := by
  cases a with
  | nil => exact absurd rfl ha
  | cons d a =>
      rw [List.cons_append, plainOff, plainOff]
      split
      · rfl
      · rw [← List.cons_append, stopsAt_numberOff hc false (d :: a) b, Option.map_map, Option.map_map]
        rfl

theorem firstOff_append {c : Char} (hc : IsBreak c) {a : List Char} (ha : a ≠ []) (b : List Char) :
    firstOff (a ++ c :: b) = (firstOff a).map fun p => (p.1, p.2 ++ c :: b) := by
  by_cases hmarker : ∃ w ∈ markers, w <+: a
  · obtain ⟨w, hw, r, rfl⟩ := hmarker
    simp only [markers, List.map_cons, List.map_nil, List.mem_cons, List.not_mem_nil, or_false] at hw
    rcases hw with rfl | rfl | rfl | rfl | rfl | rfl | rfl | rfl | rfl | rfl | rfl
    case' inr.inr.inr.inr.inr.inr.inr.inr.inr.inl =>
      show (readOff (r ++ c :: b) []).map _ = ((readOff r []).map _).map _
      have hread : readOff (r ++ c :: b) [] = _ := stopsAt_readOff hc [] r b
      rw [hread, Option.map_map, Option.map_map]
    case' inr.inr.inr.inr.inr.inr.inr.inr.inr.inr =>
      show (numberOff true (r ++ c :: b)).map _ = ((numberOff true r).map _).map _
      rw [stopsAt_numberOff hc true r b, Option.map_map, Option.map_map]
    all_goals rfl
  · have hnone : ∀ w ∈ markers, ¬ w <+: a := fun w hw h => hmarker ⟨w, hw, h⟩
    rw [firstOff_of_plain hnone, firstOff_of_plain, plainOff_append hc ha]
    intro w hw h
    have hprintable : ∀ w ∈ markers, w.all (fun d => 0x20 ≤ d.toNat) = true := by decide
    have hmem : c ∉ w := fun hmem => by
      have := of_decide_eq_true (List.all_eq_true.mp (hprintable w hw) c hmem)
      have := hc.2
      omega
    exact hnone w hw (prefix_of_append_cons hmem h)

theorem ofChars?_blank {c : Char} (hc : isBlank c = true) (cs : List Char) : ofChars? (c :: cs) = ofChars? cs := by
  unfold isBlank at hc
  simp only [Bool.or_eq_true, beq_iff_eq] at hc
  rcases hc with ((rfl | rfl) | rfl) | rfl
  all_goals simp [ofChars?, isBlank]

theorem ofChars?_blanks {blanks : List Char} (h : ∀ c ∈ blanks, isBlank c = true) (cs : List Char) :
    ofChars? (blanks ++ cs) = ofChars? cs := by
  induction blanks with
  | nil => rfl
  | cons c blanks ih =>
      rw [List.cons_append, ofChars?_blank (h c List.mem_cons_self)]
      exact ih fun d hd => h d (List.mem_cons_of_mem c hd)

/-- **No token runs over a line end.** -/
theorem ofChars?_append {c : Char} (hc : IsBreak c) (a b : List Char) :
    ofChars? (a ++ c :: b) = (ofChars? a).bind fun ts => (ofChars? b).map (ts ++ ·) := by
  induction hn : a.length using Nat.strongRecOn generalizing a with
  | _ n ih =>
      by_cases ha : a = []
      · subst ha
        rw [List.nil_append, ofChars?_blank hc.1]
        simp [ofChars?]
      · rw [ofChars?_eq (by simp), ofChars?_eq ha, firstOff_append hc ha]
        cases hfirst : firstOff a with
        | none => rfl
        | some p =>
            have hlt := length_lt_of_firstOff hfirst
            simp only [Option.map_some, Option.bind_some, ih p.2.length (hn ▸ hlt) p.2 rfl]
            cases ofChars? p.2 with
            | none => rfl
            | some ts => cases ofChars? b <;> simp

end DecoderForge.Json.Token
