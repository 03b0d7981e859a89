import DecoderForge.Proofs.Layout.Literals
import DecoderForge.Proofs.Text.Delimited

/-!
# DecoderForge — string literals say what was quoted

Quoted text is read three times: by a program, which takes the literal for a text, line by line, and by the scanner.
The reader of literals here follows the rules of module code: a text is a row of UTF-16 code units, an escape is one
of the known ones or the character behind the backslash, and a literal ends at the first delimiter that no backslash
makes part of the text.

## The architecture

* **`Text.utf16_injective`** — the code units of a text tell which text it is.
* **`StringLiteral.value?`** — the reader of literals.
* **`StringLiteral.Spelling`** — the three spellings of a character, and **`StringLiteral.spelling_escapeChar`**, by
  which quoting writes nothing else.
* **`StringLiteral.value?_quoteChars`**, **`StringLiteral.scan_quoteChars`** — the readings of a literal.
* **`Style.quote_reads_back`** — all readings together.
-/

namespace DecoderForge

/-! ## Code units -/

namespace Text

/-- The UTF-16 code units of a code point: itself, or a pair of surrogates beyond the first 0x10000. -/
def codeUnits (n : Nat) : List Nat :=
  if n < 0x10000 then [n] else [0xD800 + (n - 0x10000) / 0x400, 0xDC00 + (n - 0x10000) % 0x400]

/-- The UTF-16 code units of a text. -/
def utf16 (s : List Char) : List Nat := s.flatMap fun c => codeUnits c.toNat

theorem codeUnits_ne_nil (n : Nat) : codeUnits n ≠ [] := by
  unfold codeUnits
  split <;> simp

/-- No character is a surrogate. -/
theorem toNat_range (c : Char) : c.toNat < 0xD800 ∨ 0xDFFF < c.toNat ∧ c.toNat < 0x110000 := c.valid

/-- **The character that a row of code units begins with** is the only one. -/
theorem codeUnits_append_inj {c d : Char} {xs ys : List Nat}
    (h : codeUnits c.toNat ++ xs = codeUnits d.toNat ++ ys) : c = d ∧ xs = ys := by
  have hc := toNat_range c
  have hd := toNat_range d
  unfold codeUnits at h
  split at h
  · split at h
    · obtain ⟨hunit, hrest⟩ := List.cons.inj h
      exact ⟨Char.toNat_inj.mp hunit, hrest⟩
    · -- one unit on the left, a surrogate on the right
      have hunit : c.toNat = 0xD800 + (d.toNat - 0x10000) / 0x400 := (List.cons.inj h).1
      omega
  · split at h
    · have hunit : 0xD800 + (c.toNat - 0x10000) / 0x400 = d.toNat := (List.cons.inj h).1
      omega
    · obtain ⟨hhigh, h⟩ := List.cons.inj h
      obtain ⟨hlow, hrest⟩ := List.cons.inj h
      exact ⟨Char.toNat_inj.mp (by omega), hrest⟩

/-- **Texts with the same code units are the same.** -/
theorem utf16_injective : ∀ {s t : List Char}, utf16 s = utf16 t → s = t
  | [], [], _ => rfl
  | [], d :: t, h => absurd (List.append_eq_nil_iff.mp h.symm).1 (codeUnits_ne_nil d.toNat)
  | c :: s, [], h => absurd (List.append_eq_nil_iff.mp h).1 (codeUnits_ne_nil c.toNat)
  | c :: s, d :: t, h => by
      obtain ⟨rfl, hrest⟩ := codeUnits_append_inj h
      rw [utf16_injective hrest]

end Text

/-! ## Reading literals -/

namespace StringLiteral

open Layout (quoteOf)

/-- The characters that end a line of code. -/
def isLineTerminator (c : Char) : Bool := c == '\n' || c == '\r' || c == '\u2028' || c == '\u2029'

/-- Where a reader of a literal stands. -/
inductive State where
  /-- Between the delimiters. -/
  | inside
  /-- Behind a backslash. -/
  | escape
  /-- Behind an escaped zero. -/
  | zero
  /-- Behind an escaped carriage return. -/
  | carriage
  /-- In an escape by digits: so many are to come, and those read have that value. -/
  | digits (left value : Nat)
  /-- Behind an escaped `u`. -/
  | unicode
  /-- In an escape by digits in braces. -/
  | braces (value : Option Nat)
  /-- Behind the second delimiter. -/
  | closed
deriving DecidableEq, Repr

/-- The letters that stand for a control character behind a backslash. -/
def controlLetters : List (Char × Nat) := [('b', 8), ('t', 9), ('n', 10), ('v', 11), ('f', 12), ('r', 13)]

/-- A character between the delimiters. -/
def stepInside (mark c : Char) : Option (State × List Nat) :=
  if c == mark then some (.closed, [])
  else if c == '\\' then some (.escape, [])
  else if c == '\n' || c == '\r' then none
  else some (.inside, Text.codeUnits c.toNat)

/-- A character behind a backslash.  Escaped line ends are left out of the text; of the decimal digits only zero can
be escaped. -/
def stepEscape (c : Char) : Option (State × List Nat) :=
  match controlLetters.lookup c with
  | some unit => some (.inside, [unit])
  | none =>
    if c == 'x' then some (.digits 2 0, [])
    else if c == 'u' then some (.unicode, [])
    else if c == '0' then some (.zero, [0])
    else if c.isDigit then none
    else if c == '\r' then some (.carriage, [])
    else if isLineTerminator c then some (.inside, [])
    else some (.inside, Text.codeUnits c.toNat)

/-- A digit of an escape with so many digits to come. -/
def stepDigits (left value : Nat) (c : Char) : Option (State × List Nat) :=
  (Json.Token.hexValue? c).map fun d =>
    if left ≤ 1 then (.inside, [value * 16 + d]) else (.digits (left - 1) (value * 16 + d), [])

/-- A character of an escape in braces. -/
def stepBraces (value : Option Nat) (c : Char) : Option (State × List Nat) :=
  if c == '}' then
    match value with
    | some n => if n ≤ 0x10FFFF then some (.inside, Text.codeUnits n) else none
    | none => none
  else (Json.Token.hexValue? c).map fun d => (.braces (some (value.getD 0 * 16 + d)), [])

/-- A character of a literal between two `mark`s, with the code units that it adds. -/
def State.step (mark : Char) (st : State) (c : Char) : Option (State × List Nat) :=
  match st with
  | .inside => stepInside mark c
  | .escape => stepEscape c
  | .zero => if c.isDigit then none else stepInside mark c
  | .carriage => if c == '\n' then some (.inside, []) else stepInside mark c
  | .digits left value => stepDigits left value c
  | .unicode => if c == '{' then some (.braces none, []) else stepDigits 4 0 c
  | .braces value => stepBraces value c
  | .closed => none

/-- The code units of the rest of a literal; it has to end where the text ends. -/
def readFrom (mark : Char) (st : State) : List Char → Option (List Nat)
  | [] => if st = .closed then some [] else none
  | c :: rest => (st.step mark c).bind fun (st', units) => (readFrom mark st' rest).map (units ++ ·)

/-- The code units of the text that a literal stands for; none where a text is not one literal. -/
def value? : List Char → Option (List Nat)
  | mark :: rest => if mark == '\'' || mark == '"' then readFrom mark .inside rest else none
  | [] => none

/-- The characters of a text that no backslash escapes. -/
def unescaped : List Char → List Char
  | '\\' :: _ :: rest => unescaped rest
  | c :: rest => c :: unescaped rest
  | [] => []

/-! ## Spellings -/

/-- How a character may stand in a literal between two `mark`s. -/
inductive Spelling (mark c : Char) : List Char → Prop where
  /-- As it is. -/
  | plain (hmark : c ≠ mark) (hback : c ≠ '\\') (hline : isLineTerminator c = false) : Spelling mark c [c]
  /-- By one character behind a backslash. -/
  | escaped {e : Char} (hreads : stepEscape e = some (.inside, Text.codeUnits c.toNat))
      (hline : isLineTerminator e = false) : Spelling mark c ['\\', e]
  /-- By four digits. -/
  | digits {w x y z : Char} (h : Json.Token.hex4? w x y z = some c.toNat) :
      Spelling mark c ['\\', 'u', w, x, y, z]

/-- **Quoting spells every character.** -/
theorem spelling_escapeChar (double : Bool) (c : Char) :
    Spelling (quoteOf double) c (Style.escapeChar (quoteOf double) c) := by
  unfold Style.escapeChar
  by_cases hback : c = '\\'
  · subst hback
    exact .escaped rfl rfl
  by_cases hnewline : c = '\n'
  · subst hnewline
    exact .escaped rfl rfl
  by_cases hreturn : c = '\r'
  · subst hreturn
    exact .escaped rfl rfl
  by_cases htab : c = '\t'
  · subst htab
    exact .escaped rfl rfl
  by_cases hline : c = '\u2028'
  · subst hline
    exact .digits rfl
  by_cases hparagraph : c = '\u2029'
  · subst hparagraph
    exact .digits rfl
  simp only [beq_iff_eq, hback, hnewline, hreturn, htab, hline, hparagraph, if_false]
  by_cases hmark : c = quoteOf double
  · rw [if_pos hmark, hmark]
    cases double
    · exact .escaped rfl rfl
    · exact .escaped rfl rfl
  rw [if_neg hmark]
  by_cases hlow : c.toNat < 0x20
  · rw [if_pos hlow]
    exact .digits (Text.hex4?_control c.toNat hlow)
  · rw [if_neg hlow]
    exact .plain hmark hback (by simp [isLineTerminator, hnewline, hreturn, hline, hparagraph])

/-- Four digits are four digits. -/
theorem digits_of_hex4? {w x y z : Char} {n : Nat} (h : Json.Token.hex4? w x y z = some n) :
    ∃ a b d e, Json.Token.hexValue? w = some a ∧ Json.Token.hexValue? x = some b ∧ Json.Token.hexValue? y = some d
      ∧ Json.Token.hexValue? z = some e ∧ ((a * 16 + b) * 16 + d) * 16 + e = n := by
  obtain ⟨a, ha, h⟩ := Option.bind_eq_some_iff.mp h
  obtain ⟨b, hb, h⟩ := Option.bind_eq_some_iff.mp h
  obtain ⟨d, hd, h⟩ := Option.bind_eq_some_iff.mp h
  obtain ⟨e, he, h⟩ := Option.bind_eq_some_iff.mp h
  exact ⟨a, b, d, e, ha, hb, hd, he, Option.some.inj h⟩

/-- What is no digit is none of the digits. -/
theorem ne_of_hexValue? {c d : Char} {x : Nat} (h : Json.Token.hexValue? c = some x)
    (hd : Json.Token.hexValue? d = none) : c ≠ d := by
  rintro rfl
  rw [h] at hd
  exact absurd hd (by simp)

theorem hexValue?_lt {c : Char} {x : Nat} (h : Json.Token.hexValue? c = some x) : x < 16 := by
  have hle : ∀ {a b : Char}, decide (a ≤ b) = true → a.toNat ≤ b.toNat := fun hab => of_decide_eq_true hab
  unfold Json.Token.hexValue? at h
  split at h
  · next hrange =>
    have hlast : c.toNat ≤ 57 := hle (Bool.and_eq_true_iff.mp hrange).2
    have hvalue : c.toNat - 48 = x := Option.some.inj h
    omega
  split at h
  · next hrange =>
    have hlast : c.toNat ≤ 102 := hle (Bool.and_eq_true_iff.mp hrange).2
    have hvalue : c.toNat - 97 + 10 = x := Option.some.inj h
    omega
  split at h
  · next hrange =>
    have hlast : c.toNat ≤ 70 := hle (Bool.and_eq_true_iff.mp hrange).2
    have hvalue : c.toNat - 65 + 10 = x := Option.some.inj h
    omega
  · exact absurd h (by simp)

/-! ## The value -/

section Value

variable {mark c : Char}

/-- One character of a literal, and what is read of the rest. -/
theorem readFrom_cons {st st' : State} {units : List Nat} (h : st.step mark c = some (st', units))
    (rest : List Char) : readFrom mark st (c :: rest) = (readFrom mark st' rest).map (units ++ ·) := by
  rw [readFrom, h]
  rfl

/-- One character of a literal that adds nothing. -/
theorem readFrom_cons_nil {st st' : State} (h : st.step mark c = some (st', [])) (rest : List Char) :
    readFrom mark st (c :: rest) = readFrom mark st' rest := by
  rw [readFrom_cons h]
  cases readFrom mark st' rest <;> rfl

/-- A digit with more to come. -/
theorem step_digits {x : Nat} (h : Json.Token.hexValue? c = some x) (left value : Nat) :
    (State.digits (left + 2) value).step mark c = some (.digits (left + 1) (value * 16 + x), []) := by
  simp [State.step, stepDigits, h]

/-- The last digit. -/
theorem step_lastDigit {x : Nat} (h : Json.Token.hexValue? c = some x) (value : Nat) :
    (State.digits 1 value).step mark c = some (.inside, [value * 16 + x]) := by
  simp [State.step, stepDigits, h]

/-- The first of four digits. -/
theorem step_unicode {x : Nat} (h : Json.Token.hexValue? c = some x) :
    State.unicode.step mark c = some (.digits 3 x, []) := by
  have hbrace : c ≠ '{' := ne_of_hexValue? h rfl
  simp [State.step, stepDigits, h, hbrace]

/-- Four digits behind an escaped `u`. -/
theorem readFrom_unicode {w x y z : Char} {n : Nat} (h : Json.Token.hex4? w x y z = some n) (rest : List Char) :
    readFrom mark .unicode (w :: x :: y :: z :: rest) = (readFrom mark .inside rest).map ([n] ++ ·) := by
  obtain ⟨a, b, d, e, hw, hx, hy, hz, rfl⟩ := digits_of_hex4? h
  rw [readFrom_cons_nil (step_unicode hw), readFrom_cons_nil (step_digits hx 1 a),
    readFrom_cons_nil (step_digits hy 0 (a * 16 + b)), readFrom_cons (step_lastDigit hz ((a * 16 + b) * 16 + d))]

/-- A code point of four digits is one code unit. -/
theorem codeUnits_of_hex4? {w x y z : Char} {n : Nat} (h : Json.Token.hex4? w x y z = some n) :
    Text.codeUnits n = [n] := by
  obtain ⟨a, b, d, e, hw, hx, hy, hz, rfl⟩ := digits_of_hex4? h
  have ha := hexValue?_lt hw
  have hb := hexValue?_lt hx
  have hd := hexValue?_lt hy
  have he := hexValue?_lt hz
  exact if_pos (by omega)

/-- **A spelled character is read back.** -/
theorem readFrom_spelling (hmark : mark ≠ '\\') {text : List Char} (h : Spelling mark c text) (rest : List Char) :
    readFrom mark .inside (text ++ rest) = (readFrom mark .inside rest).map (Text.codeUnits c.toNat ++ ·) := by
  have hbackslash : State.inside.step mark '\\' = some (.escape, []) := by
    simp [State.step, stepInside, hmark.symm]
  cases h with
  | plain hne hback hline =>
      refine readFrom_cons ?_ rest
      simp only [isLineTerminator, Bool.or_eq_false_iff] at hline
      simp [State.step, stepInside, hne, hback, hline]
  | @escaped e hreads _ =>
      have hescape : State.escape.step mark e = some (.inside, Text.codeUnits c.toNat) := hreads
      show readFrom mark .inside ('\\' :: e :: rest) = _
      rw [readFrom_cons_nil hbackslash, readFrom_cons hescape]
  | @digits w x y z hdigits =>
      have hunicode : State.escape.step mark 'u' = some (.unicode, []) := rfl
      show readFrom mark .inside ('\\' :: 'u' :: w :: x :: y :: z :: rest) = _
      rw [readFrom_cons_nil hbackslash, readFrom_cons_nil hunicode, readFrom_unicode hdigits, codeUnits_of_hex4? hdigits]

/-- Spelled characters up to the second delimiter. -/
theorem readFrom_escaped (double : Bool) : ∀ text : List Char,
    readFrom (quoteOf double) .inside (text.flatMap (Style.escapeChar (quoteOf double)) ++ [quoteOf double])
      = some (Text.utf16 text)
  | [] => by
      have hclose : State.inside.step (quoteOf double) (quoteOf double) = some (.closed, []) := by
        simp [State.step, stepInside]
      exact readFrom_cons hclose []
  | c :: text => by
      have hmark : quoteOf double ≠ '\\' := by cases double <;> decide
      rw [List.flatMap_cons, List.append_assoc, readFrom_spelling hmark (spelling_escapeChar double c),
        readFrom_escaped double text]
      rfl

/-- **A literal stands for the text that was quoted.** -/
theorem value?_quoteChars (style : Style) (text : List Char) :
    value? (style.quoteChars text) = some (Text.utf16 text) := by
  unfold Style.quoteChars
  rw [Layout.quoteMark_eq]
  have hquote : (quoteOf (!style.singleQuote) == '\'' || quoteOf (!style.singleQuote) == '"') = true := by
    cases style.singleQuote <;> rfl
  show (if _ then _ else _) = _
  rw [if_pos hquote]
  exact readFrom_escaped _ text

end Value

/-! ## Lines and delimiters -/

/-- Digits end no line. -/
theorem isLineTerminator_of_hexValue? {c : Char} {x : Nat} (h : Json.Token.hexValue? c = some x) :
    isLineTerminator c = false := by
  have hnewline : c ≠ '\n' := ne_of_hexValue? h rfl
  have hreturn : c ≠ '\r' := ne_of_hexValue? h rfl
  have hline : c ≠ '\u2028' := ne_of_hexValue? h rfl
  have hparagraph : c ≠ '\u2029' := ne_of_hexValue? h rfl
  simp [isLineTerminator, hnewline, hreturn, hline, hparagraph]

/-- No spelling reaches over a line. -/
theorem Spelling.oneLine {mark c : Char} {text : List Char} (h : Spelling mark c text) :
    ∀ d ∈ text, isLineTerminator d = false := by
  have hbackslash : isLineTerminator '\\' = false := rfl
  have hletter : isLineTerminator 'u' = false := rfl
  intro d hd
  cases h with
  | plain _ _ hline =>
      obtain rfl := List.mem_singleton.mp hd
      exact hline
  | escaped _ hline =>
      simp only [List.mem_cons, List.not_mem_nil, or_false] at hd
      rcases hd with rfl | rfl
      · exact hbackslash
      · exact hline
  | digits hdigits =>
      obtain ⟨_, _, _, _, hw, hx, hy, hz, -⟩ := digits_of_hex4? hdigits
      simp only [List.mem_cons, List.not_mem_nil, or_false] at hd
      rcases hd with rfl | rfl | rfl | rfl | rfl | rfl
      · exact hbackslash
      · exact hletter
      · exact isLineTerminator_of_hexValue? hw
      · exact isLineTerminator_of_hexValue? hx
      · exact isLineTerminator_of_hexValue? hy
      · exact isLineTerminator_of_hexValue? hz

theorem unescaped_cons_of_ne {c : Char} (h : c ≠ '\\') (rest : List Char) :
    unescaped (c :: rest) = c :: unescaped rest := by
  rw [unescaped.eq_def]
  split
  · next heq => exact absurd (List.cons.inj heq).1 h
  · next heq =>
      obtain ⟨rfl, rfl⟩ := List.cons.inj heq
      rfl
  · next heq => exact absurd heq (by simp)

/-- No delimiter in a spelling is unescaped. -/
theorem Spelling.notMem_unescaped {double : Bool} {c : Char} {text : List Char} (h : Spelling (quoteOf double) c text)
    {rest : List Char} (hrest : quoteOf double ∉ unescaped rest) : quoteOf double ∉ unescaped (text ++ rest) := by
  cases h with
  | plain hne hback _ =>
      show quoteOf double ∉ unescaped (c :: rest)
      rw [unescaped_cons_of_ne hback]
      simpa [hne.symm] using hrest
  | escaped _ _ => exact hrest
  | digits hdigits =>
      obtain ⟨a, b, d, e, hw, hx, hy, hz, -⟩ := digits_of_hex4? hdigits
      have hback : Json.Token.hexValue? '\\' = none := rfl
      have hmark : Json.Token.hexValue? (quoteOf double) = none := by cases double <;> rfl
      rw [List.cons_append, List.cons_append]
      show quoteOf double ∉ unescaped (_ :: _ :: _ :: _ :: rest)
      rw [unescaped_cons_of_ne (ne_of_hexValue? hw hback), unescaped_cons_of_ne (ne_of_hexValue? hx hback),
        unescaped_cons_of_ne (ne_of_hexValue? hy hback), unescaped_cons_of_ne (ne_of_hexValue? hz hback)]
      simp [(ne_of_hexValue? hw hmark).symm, (ne_of_hexValue? hx hmark).symm, (ne_of_hexValue? hy hmark).symm,
        (ne_of_hexValue? hz hmark).symm, hrest]

/-- Quoted text, up to its delimiters. -/
theorem notMem_unescaped_escaped (double : Bool) : ∀ text : List Char,
    quoteOf double ∉ unescaped (text.flatMap (Style.escapeChar (quoteOf double)))
  | [] => by simp [unescaped]
  | c :: text => by
      rw [List.flatMap_cons]
      exact (spelling_escapeChar double c).notMem_unescaped (notMem_unescaped_escaped double text)

/-- **No literal reaches over a line.** -/
theorem oneLine_quoteChars (style : Style) (text : List Char) :
    ∀ c ∈ style.quoteChars text, isLineTerminator c = false := by
  have hquote : isLineTerminator (quoteOf (!style.singleQuote)) = false := by
    cases style.singleQuote <;> rfl
  unfold Style.quoteChars
  rw [Layout.quoteMark_eq]
  intro c hc
  rcases List.mem_append.mp hc with hc | hc
  · rcases List.mem_cons.mp hc with rfl | hc
    · exact hquote
    · obtain ⟨d, -, hd⟩ := List.mem_flatMap.mp hc
      exact (spelling_escapeChar _ d).oneLine c hd
  · obtain rfl := List.mem_singleton.mp hc
    exact hquote

/-! ## The scanner -/

open Layout (Scanner Reader stringRegion)

/-- A character of a string, whatever lies around it. -/
theorem step_string {s : Scanner} {double : Bool} (h : s.region = stringRegion double) (c : Char) :
    (Reader.fresh s).step c
      = .ok (if c = '\\' then ⟨s, .escape⟩ else Reader.fresh (if c = quoteOf double then s.leave else s)) := by
  have hmove : s.move c none = s.moveString (quoteOf double) c := by
    unfold Scanner.move
    rw [h]
    cases double <;> rfl
  have hleft : Reader.left s c = .nothing := by
    unfold Reader.left
    rw [h]
    cases double <;> rfl
  show Reader.first s c = _
  unfold Reader.first
  rw [hmove, hleft, Scanner.moveString]
  by_cases hback : c = '\\'
  · subst hback
    rfl
  · rw [if_neg (by simpa using hback), if_neg hback]
    by_cases hquote : c = quoteOf double
    · rw [if_pos (by simpa using hquote), if_pos hquote]
      rfl
    · rw [if_neg (by simpa using hquote), if_neg hquote]
      rfl

/-- A spelled character leaves the scanner in its string. -/
theorem read_spelling {s : Scanner} {double : Bool} (h : s.region = stringRegion double) {c : Char} {text : List Char}
    (hspelling : Spelling (quoteOf double) c text) : (Reader.fresh s).read text = .ok (Reader.fresh s) := by
  have hinner : ∀ {d : Char}, d ≠ '\\' → d ≠ quoteOf double → (Reader.fresh s).step d = .ok (Reader.fresh s) := by
    intro d hback hquote
    rw [step_string h, if_neg hback, if_neg hquote]
  have hbackslash : (Reader.fresh s).step '\\' = .ok ⟨s, .escape⟩ := step_string h '\\'
  cases hspelling with
  | plain hquote hback _ => rw [Reader.read_cons_of_step (hinner hback hquote), Reader.read_nil]
  | escaped _ _ =>
      rw [Reader.read_cons_of_step hbackslash]
      rfl
  | @digits w x y z hdigits =>
      obtain ⟨_, _, _, _, hw, hx, hy, hz, -⟩ := digits_of_hex4? hdigits
      have hdigit : ∀ {d : Char} {n : Nat}, Json.Token.hexValue? d = some n →
          (Reader.fresh s).step d = .ok (Reader.fresh s) := fun hd =>
        hinner (ne_of_hexValue? hd rfl) (ne_of_hexValue? hd (by cases double <;> rfl))
      have hletter : Reader.step ⟨s, .escape⟩ 'u' = .ok (Reader.fresh s) := rfl
      rw [Reader.read_cons_of_step hbackslash, Reader.read_cons_of_step hletter, Reader.read_cons_of_step (hdigit hw),
        Reader.read_cons_of_step (hdigit hx), Reader.read_cons_of_step (hdigit hy), Reader.read_cons_of_step (hdigit hz),
        Reader.read_nil]

/-- Quoted text leaves the scanner in its string. -/
theorem read_escaped {s : Scanner} {double : Bool} (h : s.region = stringRegion double) : ∀ text : List Char,
    (Reader.fresh s).read (text.flatMap (Style.escapeChar (quoteOf double))) = .ok (Reader.fresh s)
  | [] => rfl
  | c :: text => by
      rw [List.flatMap_cons, Reader.read_append_of_read (read_spelling h (spelling_escapeChar double c)),
        read_escaped h text]

/-- **A literal takes the scanner from code to code** and leaves every region and bracket around it alone. -/
theorem scan_quoteChars (style : Style) (text : List Char) {s : Scanner} (h : s.region = .code) :
    s.scan (style.quoteChars text) = .ok s := by
  unfold Style.quoteChars
  rw [Layout.quoteMark_eq]
  generalize (!style.singleQuote) = double
  have hopen : (Reader.fresh s).step (quoteOf double) = .ok (Reader.fresh (s.enter (stringRegion double))) := by
    show Reader.first s _ = _
    unfold Reader.first Scanner.move Reader.left
    rw [h]
    cases double <;> rfl
  have hregion : (s.enter (stringRegion double)).region = stringRegion double := rfl
  have hclose : (Reader.fresh (s.enter (stringRegion double))).step (quoteOf double) = .ok (Reader.fresh s) := by
    have hback : quoteOf double ≠ '\\' := by cases double <;> decide
    rw [step_string hregion, if_neg hback, if_pos rfl]
    rfl
  have hend : (Reader.fresh s).endLine = .ok (Reader.fresh s) := by
    have hcode : (Reader.fresh s).scanner.region = .code := h
    unfold Reader.endLine
    rw [hcode]
    rfl
  have hliteral : (Reader.fresh s).read
      (quoteOf double :: (text.flatMap (Style.escapeChar (quoteOf double)) ++ [quoteOf double])) = .ok (Reader.fresh s) := by
    rw [Reader.read_cons_of_step hopen, Reader.read_append_of_read (read_escaped hregion text),
      Reader.read_cons_of_step hclose, Reader.read_nil]
  rw [Scanner.scan_eq_read, List.cons_append, hliteral]
  show ((Reader.fresh s).endLine).map Reader.scanner = _
  rw [hend]
  rfl

end StringLiteral

/-! ## All readings -/

/-- **Quoted text is one literal on one line.**  As a literal it stands for the text that was quoted and for no other.
It has no line end in it and no delimiter but its first and last character that no backslash escapes.  The scanner
reads it as code that changes nothing, whatever regions and brackets are open. -/
theorem Style.quote_reads_back (style : Style) (v : String) :
    (∀ w : String, StringLiteral.value? (style.quote v).toList = some (Text.utf16 w.toList) ↔ w = v)
      ∧ (∀ c ∈ (style.quote v).toList, StringLiteral.isLineTerminator c = false)
      ∧ (∃ body, (style.quote v).toList = style.quoteMark :: body ++ [style.quoteMark]
          ∧ style.quoteMark ∉ StringLiteral.unescaped body)
      ∧ ∀ s : Layout.Scanner, s.region = .code → s.scan (style.quote v).toList = .ok s := by
  rw [Style.quote, String.toList_ofList]
  refine ⟨fun w => ?_, StringLiteral.oneLine_quoteChars style v.toList, ⟨_, rfl, ?_⟩, fun s hs =>
    StringLiteral.scan_quoteChars style v.toList hs⟩
  · rw [StringLiteral.value?_quoteChars]
    constructor
    · intro h
      exact String.toList_injective (Text.utf16_injective (Option.some.inj h)).symm
    · rintro rfl
      rfl
  · rw [Layout.quoteMark_eq]
    exact StringLiteral.notMem_unescaped_escaped _ v.toList

end DecoderForge
