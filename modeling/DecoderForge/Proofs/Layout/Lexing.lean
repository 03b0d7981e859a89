import DecoderForge.Proofs.Layout.Acceptance

/-!
# DecoderForge — strings, comments and brackets of template-free text

In text without templates the kind of text does not depend on the open brackets.  Reading then falls into
two parts: a lexer that knows code, strings and comments and hands out the brackets of code, and the
settling of these brackets against those that are open.

## The architecture

* **`lex`** — the lexer; it has no result where a string runs over a line or a slash begins no comment.
* **`settle`** — brackets against a stack of open ones.
* **`run_of_lexes`** — reading is lexing and settling.
* **`Quiet`** — text that begins and ends in code and has no brackets there.
-/

namespace DecoderForge.Layout

/-! ## The lexer -/

/-- Kinds of template-free text, with what the last character left over. -/
inductive LexState where
  | code
  | slash
  /-- A string, in double quotes or in single ones. -/
  | quoted (double : Bool)
  /-- The same behind a backslash. -/
  | escaped (double : Bool)
  | block
  | star
deriving DecidableEq, Repr

/-- The quote of a kind of string. -/
def quoteOf (double : Bool) : Char := if double then '"' else '\''

def isOpener (c : Char) : Bool := c == '{' || c == '(' || c == '['

def isCloser (c : Char) : Bool := c == '}' || c == ')' || c == ']'

/-- A character, with the brackets of code that it adds. -/
def LexState.step (st : LexState) (c : Char) : Option (LexState × List Char) :=
  match st with
  | .code =>
    if c == '/' then some (.slash, [])
    else if c == '\'' then some (.quoted false, [])
    else if c == '"' then some (.quoted true, [])
    else if c == '\x60' then none
    else if isOpener c || isCloser c then some (.code, [c])
    else some (.code, [])
  | .slash => if c == '*' then some (.block, []) else none
  | .quoted double =>
    if c == '\n' then none
    else if c == '\\' then some (.escaped double, [])
    else if c == quoteOf double then some (.code, [])
    else some (.quoted double, [])
  | .escaped double => if c == '\n' then none else some (.quoted double, [])
  | .block => if c == '*' then some (.star, []) else some (.block, [])
  | .star =>
    if c == '/' then some (.code, [])
    else if c == '*' then some (.star, [])
    else some (.block, [])

/-- A text from a state on: the state behind it and its brackets of code. -/
def lex (st : LexState) : List Char → Option (LexState × List Char)
  | [] => some (st, [])
  | c :: text =>
    (st.step c).bind fun r => (lex r.1 text).map fun r' => (r'.1, r.2 ++ r'.2)

/-- A text leads from one state to another and has these brackets. -/
def Lexes (st : LexState) (text : List Char) (st' : LexState) (brackets : List Char) : Prop :=
  lex st text = some (st', brackets)

namespace Lexes

theorem nil (st : LexState) : Lexes st [] st [] := rfl

theorem cons {st st₁ st₂ : LexState} {c : Char} {w w' text : List Char}
    (h : st.step c = some (st₁, w)) (h' : Lexes st₁ text st₂ w') :
    Lexes st (c :: text) st₂ (w ++ w') := by
  have htext : lex st₁ text = some (st₂, w') := h'
  show (st.step c).bind _ = _
  rw [h]
  show (lex st₁ text).map _ = _
  rw [htext]
  rfl

/-- The first character of a text that lexes. -/
theorem cons_inv {st st₂ : LexState} {c : Char} {w text : List Char}
    (h : Lexes st (c :: text) st₂ w) :
    ∃ st₁ w₁ w₂, st.step c = some (st₁, w₁) ∧ Lexes st₁ text st₂ w₂ ∧ w = w₁ ++ w₂ := by
  obtain ⟨⟨st₁, w₁⟩, hstep, hrest⟩ := Option.bind_eq_some_iff.mp h
  obtain ⟨⟨st', w₂⟩, hlex, heq⟩ := Option.map_eq_some_iff.mp hrest
  obtain ⟨rfl, rfl⟩ := Prod.mk.inj heq
  exact ⟨st₁, w₁, w₂, hstep, hlex, rfl⟩

/-- Texts one after another. -/
theorem append : ∀ {a : List Char} {st st₁ st₂ : LexState} {w w' b : List Char},
    Lexes st a st₁ w → Lexes st₁ b st₂ w' → Lexes st (a ++ b) st₂ (w ++ w')
  | [], st, st₁, _, w, _, _, h, h' => by
      obtain ⟨rfl, rfl⟩ := Prod.mk.inj (Option.some.inj h)
      exact h'
  | c :: a, _, _, _, _, _, _, h, h' => by
      obtain ⟨st₃, w₁, w₂, hstep, hlex, rfl⟩ := cons_inv h
      rw [List.append_assoc]
      exact cons hstep (append hlex h')

/-- A text that lexes can be taken apart anywhere. -/
theorem append_inv : ∀ {a : List Char} {st st₂ : LexState} {w b : List Char},
    Lexes st (a ++ b) st₂ w →
      ∃ st₁ w₁ w₂, Lexes st a st₁ w₁ ∧ Lexes st₁ b st₂ w₂ ∧ w = w₁ ++ w₂
  | [], st, _, w, _, h => ⟨st, [], w, rfl, h, rfl⟩
  | c :: a, _, _, _, _, h => by
      obtain ⟨st₁, w₁, w', hstep, hlex, rfl⟩ := cons_inv h
      obtain ⟨st₂, w₂, w₃, ha, hb, rfl⟩ := append_inv hlex
      exact ⟨st₂, w₁ ++ w₂, w₃, cons hstep ha, hb, (List.append_assoc _ _ _).symm⟩

end Lexes

/-! ## Settling brackets -/

/-- Brackets against those that are open, the innermost first. -/
def settle : (stack brackets : List Char) → Except LineFault (List Char)
  | stack, [] => .ok stack
  | stack, c :: rest =>
    if isOpener c then settle (c :: stack) rest
    else
      match stack with
      | [] => .error (.unbalanced c)
      | o :: stack => if o == Scanner.opener c then settle stack rest else .error (.unbalanced c)

theorem settle_nil (stack : List Char) : settle stack [] = .ok stack := rfl

/-- Brackets one after another. -/
theorem settle_append : ∀ (w : List Char) (stack w' : List Char),
    settle stack (w ++ w') = (settle stack w).bind fun stack' => settle stack' w'
  | [], _, _ => rfl
  | c :: w, stack, w' => by
      rw [List.cons_append, settle.eq_def, settle.eq_def stack (c :: w)]
      by_cases h : isOpener c = true
      · simp only [h, if_true]
        exact settle_append w _ w'
      · simp only [h, Bool.false_eq_true, if_false]
        cases stack with
        | nil => rfl
        | cons o stack =>
            by_cases ho : (o == Scanner.opener c) = true
            · simp only [ho, if_true]
              exact settle_append w _ w'
            · simp only [ho, Bool.false_eq_true, if_false]
              rfl

/-! ## Reading -/

/-- The region of a kind of string. -/
def stringRegion (double : Bool) : Region := if double then .double else .single

/-- The reader in a state with brackets open. -/
def LexState.reader (st : LexState) (stack : List Char) : Reader :=
  let brackets := stack.map Bracket.opened
  match st with
  | .code => .fresh ⟨[.code], brackets⟩
  | .slash => ⟨⟨[.code], brackets⟩, .slash⟩
  | .quoted double => .fresh ⟨[stringRegion double, .code], brackets⟩
  | .escaped double => ⟨⟨[stringRegion double, .code], brackets⟩, .escape⟩
  | .block => .fresh ⟨[.block, .code], brackets⟩
  | .star => ⟨⟨[.block, .code], brackets⟩, .star⟩

/-- A character of code that begins neither a comment nor a string: a bracket is settled, any other
does nothing. -/
theorem first_code {c : Char} (hslash : c ≠ '/') (hsingle : c ≠ '\'') (hdouble : c ≠ '"')
    (htick : c ≠ '\x60') (stack : List Char) :
    Reader.first ⟨[.code], stack.map Bracket.opened⟩ c
      = (settle stack (if isOpener c || isCloser c then [c] else [])).map LexState.code.reader := by
  have hleft : Reader.left ⟨[.code], stack.map Bracket.opened⟩ c = .nothing := by
    simp [Reader.left, Scanner.region, hslash]
  have hmove : Scanner.move ⟨[.code], stack.map Bracket.opened⟩ c none
      = Scanner.moveCode ⟨[.code], stack.map Bracket.opened⟩ c none := rfl
  unfold Reader.first
  rw [hmove, hleft]
  unfold Scanner.moveCode
  by_cases hopen : isOpener c = true
  · have hopen' : (c == '{' || c == '(' || c == '[') = true := hopen
    simp only [hopen', hopen, Bool.true_or, if_true]
    simp [hsingle, hdouble, htick, settle, hopen, Except.map, LexState.reader, Reader.fresh]
  · have hopen' : (c == '{' || c == '(' || c == '[') = false := Bool.eq_false_iff.mpr hopen
    by_cases hclose : isCloser c = true
    · have hclose' : (c == '}' || c == ')' || c == ']') = true := hclose
      simp only [hopen', hclose', hclose, Bool.or_true, if_true]
      cases stack with
      | nil => simp [hsingle, hdouble, htick, settle, hopen, Except.map]
      | cons o stack =>
          by_cases ho : (o == Scanner.opener c) = true
          · simp [hsingle, hdouble, htick, settle, hopen, ho, Except.map, LexState.reader, Reader.fresh]
          · simp [hsingle, hdouble, htick, settle, hopen, ho, Except.map]
    · have hclose' : (c == '}' || c == ')' || c == ']') = false := Bool.eq_false_iff.mpr hclose
      simp only [hopen', hclose', hopen, hclose, Bool.or_false, Bool.false_eq_true, if_false]
      simp [hsingle, hdouble, htick, settle, Except.map, LexState.reader, Reader.fresh]

/-- A character of code is read as it is lexed. -/
theorem next_of_step_code {c : Char} {st' : LexState} {w : List Char}
    (h : LexState.code.step c = some (st', w)) (stack : List Char) :
    (LexState.code.reader stack).next c = (settle stack w).map st'.reader := by
  by_cases hnewline : c = '\n'
  · subst hnewline
    obtain ⟨rfl, rfl⟩ := Prod.mk.inj (Option.some.inj h)
    rfl
  · have hnext : (LexState.code.reader stack).next c
        = Reader.first ⟨[.code], stack.map Bracket.opened⟩ c := by
      rw [Reader.next, if_neg (by simpa using hnewline)]
      rfl
    rw [hnext]
    by_cases hslash : c = '/'
    · subst hslash
      obtain ⟨rfl, rfl⟩ := Prod.mk.inj (Option.some.inj h)
      rfl
    · by_cases hsingle : c = '\''
      · subst hsingle
        obtain ⟨rfl, rfl⟩ := Prod.mk.inj (Option.some.inj h)
        rfl
      · by_cases hdouble : c = '"'
        · subst hdouble
          obtain ⟨rfl, rfl⟩ := Prod.mk.inj (Option.some.inj h)
          rfl
        · have htick : c ≠ '\x60' := by
            rintro rfl
            have hno : LexState.code.step '\x60' = none := rfl
            exact absurd h (by simp [hno])
          rw [first_code hslash hsingle hdouble htick]
          have hstep : LexState.code.step c
              = some (.code, if isOpener c || isCloser c then [c] else []) := by
            simp only [LexState.step, beq_iff_eq, hslash, hsingle, hdouble, htick, if_false]
            split <;> rfl
          rw [hstep] at h
          obtain ⟨rfl, rfl⟩ := Prod.mk.inj (Option.some.inj h)
          rfl

/-- A character of a string is read as it is lexed. -/
theorem next_of_step_quoted {double : Bool} {c : Char} {st' : LexState} {w : List Char}
    (h : (LexState.quoted double).step c = some (st', w)) (stack : List Char) :
    ((LexState.quoted double).reader stack).next c = (settle stack w).map st'.reader := by
  have hnewline : c ≠ '\n' := by
    rintro rfl
    have hno : (LexState.quoted double).step '\n' = none := rfl
    exact absurd h (by simp [hno])
  have hnext : ((LexState.quoted double).reader stack).next c
      = Reader.first ⟨[stringRegion double, .code], stack.map Bracket.opened⟩ c := by
    rw [Reader.next, if_neg (by simpa using hnewline)]
    rfl
  have hmove : Scanner.move ⟨[stringRegion double, .code], stack.map Bracket.opened⟩ c none
      = Scanner.moveString ⟨[stringRegion double, .code], stack.map Bracket.opened⟩ (quoteOf double) c := by
    cases double <;> rfl
  have hleft : Reader.left ⟨[stringRegion double, .code], stack.map Bracket.opened⟩ c = .nothing := by
    cases double <;> rfl
  rw [hnext, Reader.first, hmove, hleft]
  unfold Scanner.moveString
  unfold LexState.step at h
  simp only [beq_iff_eq, hnewline, if_false] at h ⊢
  by_cases hback : c = '\\'
  · simp only [hback, if_true] at h ⊢
    obtain ⟨rfl, rfl⟩ := Prod.mk.inj (Option.some.inj h)
    rfl
  · simp only [hback, if_false] at h ⊢
    by_cases hquote : c = quoteOf double
    · simp only [hquote, if_true] at h ⊢
      obtain ⟨rfl, rfl⟩ := Prod.mk.inj (Option.some.inj h)
      rfl
    · simp only [hquote, if_false] at h ⊢
      obtain ⟨rfl, rfl⟩ := Prod.mk.inj (Option.some.inj h)
      rfl

/-- A character of a comment that is not the second of a pair. -/
theorem next_block {c : Char} (stack : List Char) :
    (LexState.block.reader stack).next c
      = .ok ((if c = '*' then LexState.star else LexState.block).reader stack) := by
  by_cases hnewline : c = '\n'
  · subst hnewline
    rfl
  · rw [Reader.next, if_neg (by simpa using hnewline)]
    show Reader.first ⟨[.block, .code], stack.map Bracket.opened⟩ c = _
    have hmove : Scanner.move ⟨[.block, .code], stack.map Bracket.opened⟩ c none
        = .one ⟨[.block, .code], stack.map Bracket.opened⟩ := by
      show Scanner.moveBlock _ c none = _
      simp [Scanner.moveBlock]
    rw [Reader.first, hmove]
    show Except.ok (⟨_, if c == '*' then Pending.star else .nothing⟩ : Reader) = _
    by_cases hstar : c = '*'
    · subst hstar
      rfl
    · rw [if_neg (by simpa using hstar), if_neg hstar]
      rfl

/-- **A character is read as it is lexed**, its brackets settled. -/
theorem next_of_step {st : LexState} {c : Char} {st' : LexState} {w : List Char}
    (h : st.step c = some (st', w)) (stack : List Char) :
    (st.reader stack).next c = (settle stack w).map st'.reader := by
  cases st with
  | code => exact next_of_step_code h stack
  | quoted double => exact next_of_step_quoted h stack
  | slash =>
      unfold LexState.step at h
      by_cases hstar : c = '*'
      · subst hstar
        obtain ⟨rfl, rfl⟩ := Prod.mk.inj (Option.some.inj h)
        rfl
      · simp [hstar] at h
  | escaped double =>
      unfold LexState.step at h
      by_cases hnewline : c = '\n'
      · simp [hnewline] at h
      · simp only [beq_iff_eq, hnewline, if_false] at h
        obtain ⟨rfl, rfl⟩ := Prod.mk.inj (Option.some.inj h)
        rw [Reader.next, if_neg (by simpa using hnewline)]
        rfl
  | block =>
      rw [next_block]
      unfold LexState.step at h
      by_cases hstar : c = '*'
      · simp only [hstar, beq_self_eq_true, if_true] at h ⊢
        obtain ⟨rfl, rfl⟩ := Prod.mk.inj (Option.some.inj h)
        rfl
      · simp only [beq_iff_eq, hstar, if_false] at h ⊢
        obtain ⟨rfl, rfl⟩ := Prod.mk.inj (Option.some.inj h)
        rfl
  | star =>
      unfold LexState.step at h
      by_cases hslash : c = '/'
      · subst hslash
        obtain ⟨rfl, rfl⟩ := Prod.mk.inj (Option.some.inj h)
        rfl
      · -- not the end of the comment, so the star was an ordinary character
        have hsame : (LexState.star.reader stack).next c = (LexState.block.reader stack).next c := by
          unfold Reader.next
          by_cases hnewline : c = '\n'
          · subst hnewline
            rfl
          · rw [if_neg (by simpa using hnewline), if_neg (by simpa using hnewline)]
            show (if c == '/' then _ else Reader.first _ c) = _
            rw [if_neg (by simpa using hslash)]
            rfl
        rw [hsame, next_block]
        by_cases hstar : c = '*'
        · subst hstar
          obtain ⟨rfl, rfl⟩ := Prod.mk.inj (Option.some.inj h)
          rfl
        · simp only [beq_iff_eq, hslash, hstar, if_false] at h ⊢
          obtain ⟨rfl, rfl⟩ := Prod.mk.inj (Option.some.inj h)
          rfl

/-- **A text that lexes is read by settling its brackets.** -/
theorem run_of_lexes : ∀ {text : List Char} {st st' : LexState} {w : List Char},
    Lexes st text st' w → ∀ stack : List Char,
      (st.reader stack).run text = (settle stack w).map st'.reader
  | [], _, _, _, h, _ => by
      obtain ⟨rfl, rfl⟩ := Prod.mk.inj (Option.some.inj h)
      rfl
  | c :: text, st, st', w, h, stack => by
      obtain ⟨st₁, w₁, w₂, hstep, hlex, rfl⟩ := Lexes.cons_inv h
      rw [Reader.run_cons, next_of_step hstep, settle_append]
      cases settle stack w₁ with
      | error f => rfl
      | ok stack' => exact run_of_lexes hlex stack'

/-! ## Quiet text -/

/-- Text that begins and ends in code and has no brackets there. -/
def Quiet (text : List Char) : Prop := Lexes .code text .code []

theorem Quiet.nil : Quiet [] := rfl

-- Ahead of the instance that goes through every character there is.
instance (priority := 2000) decidableOfText (p : Char → Prop) [DecidablePred p] (text : List Char) :
    Decidable (∀ c ∈ text, p c) :=
  List.decidableBAll p text

/-- Characters that mean something in code. -/
def markers : List Char := ['/', '\'', '"', '\x60', '{', '(', '[', '}', ')', ']']

/-- Characters that mean nothing in code. -/
def isPlain (c : Char) : Bool := !markers.contains c

/-- What holds of no character with a meaning holds of plain ones only. -/
theorem plain_of {p : Char → Bool} (hp : ∀ d ∈ markers, p d = false) {c : Char} (h : p c = true) :
    isPlain c = true := by
  unfold isPlain
  cases hc : markers.contains c with
  | false => rfl
  | true =>
      have hno := hp c (List.contains_iff_mem.mp hc)
      rw [h] at hno
      exact absurd hno (by decide)

/-- A plain character of code. -/
theorem step_code_plain {c : Char} (h : isPlain c = true) : LexState.code.step c = some (.code, []) := by
  have hnot : c ∉ markers := by simpa [isPlain] using h
  simp only [markers, List.mem_cons, List.not_mem_nil, or_false, not_or] at hnot
  simp [LexState.step, isOpener, isCloser, hnot]

/-- Plain characters are quiet. -/
theorem quiet_of_plain : ∀ {text : List Char}, (∀ c ∈ text, isPlain c = true) → Quiet text
  | [], _ => Quiet.nil
  | c :: _, h =>
      Lexes.cons (step_code_plain (h c List.mem_cons_self))
        (quiet_of_plain fun d hd => h d (List.mem_cons_of_mem c hd))

/-- Blanks are read over in code and in comments. -/
theorem lexes_blanks {st : LexState} (hst : st = .code ∨ st = .block) :
    ∀ {text : List Char}, (∀ c ∈ text, Text.isBlank c = true) → Lexes st text st []
  | [], _ => Lexes.nil st
  | c :: _, h => by
      have hstep : st.step c = some (st, []) := by
        have hblank := h c List.mem_cons_self
        rcases hst with rfl | rfl
        · exact step_code_plain (plain_of (by decide) hblank)
        · have hc : c ≠ '*' := by
            rintro rfl
            exact absurd hblank (by decide)
          simp [LexState.step, hc]
      exact Lexes.cons hstep (lexes_blanks hst fun d hd => h d (List.mem_cons_of_mem c hd))

end DecoderForge.Layout
