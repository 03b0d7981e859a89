import DecoderForge.Proofs.Layout.Calls
import DecoderForge.Proofs.Layout.Literals
import DecoderForge.Proofs.Layout.Words
import DecoderForge.Standalone.Piece

/-!
# DecoderForge — phrases of validator code

A line of validator code is spelled from fixed text, the names of functions and constants, numbers and string
literals.  Whatever a schema says goes into numbers and literals, so that the words outside of literals are the
emitter's own, numbers, or names that the line was given.

## The architecture

* **`Label`**, **`ownWords`** — the names that a module defines, and all other words of its code.
* **`Fine`** — tokens that are known, with the names they define.
* **`Sentence`**, **`Phrase`** — text that is read as code and has such tokens.
* **`Spells`**, **`Spot.through`** — text put together from fixed text and phrases, checked on its outline: the
  fixed text, with holes for the phrases.
* **`phrase_stringLiteral`**, **`phrase_compact`** — literals and JSON are phrases, whatever they hold.
-/

namespace DecoderForge.Standalone

open Layout

/-! ## Names that a module defines -/

/-- A function or a constant of a module. -/
inductive Label where
  | function (n : Nat)
  | constant (n : Nat)
deriving DecidableEq

def Label.text : Label → String
  | .function n => functionName n
  | .constant n => constantName n

/-- The word by which code refers to it. -/
def Label.word (l : Label) : List Char := l.text.toList

/-- Words that look like the name of a function or a constant. -/
def isNumbered : List Char → Bool
  | c :: digits => (c == 'v' || c == 'c') && !digits.isEmpty && digits.all Char.isDigit
  | [] => false

/-! ## The words of the emitter -/

/-- A word with its characters. -/
structure Word where
  text : String
  chars : List Char
  spelled : text = String.ofList chars

/-- The words of validator code that are neither numbered names nor numbers. -/
def ownWords : List Word :=
  [⟨"A", _, rfl⟩, ⟨"Array", _, rfl⟩, ⟨"JSON", _, rfl⟩, ⟨"Number", _, rfl⟩, ⟨"Object", _, rfl⟩, ⟨"RegExp", _, rfl⟩,
    ⟨"Za", _, rfl⟩, ⟨"a", _, rfl⟩, ⟨"anyErrors", _, rfl⟩, ⟨"apply", _, rfl⟩, ⟨"b", _, rfl⟩, ⟨"call", _, rfl⟩,
    ⟨"continue", _, rfl⟩, ⟨"data", _, rfl⟩, ⟨"dataPath", _, rfl⟩, ⟨"default", _, rfl⟩, ⟨"disable", _, rfl⟩,
    ⟨"else", _, rfl⟩, ⟨"equal", _, rfl⟩, ⟨"errors", _, rfl⟩, ⟨"eslint", _, rfl⟩, ⟨"exports", _, rfl⟩,
    ⟨"false", _, rfl⟩, ⟨"for", _, rfl⟩, ⟨"from", _, rfl⟩, ⟨"function", _, rfl⟩, ⟨"hasOwn", _, rfl⟩,
    ⟨"hasOwnProperty", _, rfl⟩, ⟨"i", _, rfl⟩, ⟨"if", _, rfl⟩, ⟨"in", _, rfl⟩, ⟨"indexOf", _, rfl⟩,
    ⟨"isArray", _, rfl⟩, ⟨"isInteger", _, rfl⟩, ⟨"isNaN", _, rfl⟩, ⟨"isObject", _, rfl⟩, ⟨"item", _, rfl⟩,
    ⟨"items", _, rfl⟩, ⟨"j", _, rfl⟩, ⟨"k", _, rfl⟩, ⟨"key", _, rfl⟩, ⟨"keys", _, rfl⟩, ⟨"length", _, rfl⟩,
    ⟨"matched", _, rfl⟩, ⟨"matches", _, rfl⟩, ⟨"message", _, rfl⟩, ⟨"module", _, rfl⟩, ⟨"new", _, rfl⟩,
    ⟨"null", _, rfl⟩, ⟨"obj", _, rfl⟩, ⟨"oneErrors", _, rfl⟩, ⟨"path", _, rfl⟩, ⟨"propPath", _, rfl⟩,
    ⟨"prototype", _, rfl⟩, ⟨"push", _, rfl⟩, ⟨"return", _, rfl⟩, ⟨"some", _, rfl⟩, ⟨"stringify", _, rfl⟩,
    ⟨"test", _, rfl⟩, ⟨"true", _, rfl⟩, ⟨"typeof", _, rfl⟩, ⟨"uniqueItems", _, rfl⟩, ⟨"v", _, rfl⟩,
    ⟨"valid", _, rfl⟩, ⟨"validate", _, rfl⟩, ⟨"var", _, rfl⟩, ⟨"x", _, rfl⟩, ⟨"z0", _, rfl⟩, ⟨"z_$", _, rfl⟩,
    ⟨"$", _, rfl⟩, ⟨"9_$", _, rfl⟩, ⟨"0", _, rfl⟩, ⟨"1", _, rfl⟩]

/-- The signs of validator code. -/
def ownSigns : List Char :=
  ['(', ')', '{', '}', '[', ']', '.', ',', ';', ':', '=', '!', '<', '>', '&', '|', '?', '+', '-', '*', '/', '%',
    '^', '"']

/-- Whether a token is always the same, whatever the schema. -/
def isOwnToken (t : List Char) : Bool :=
  ownWords.any (·.chars == t) || ownSigns.any ([·] == t)

/-- The keywords of declarations. -/
def isKeyword (t : List Char) : Bool := t == ['f', 'u', 'n', 'c', 't', 'i', 'o', 'n'] || t == ['v', 'a', 'r']

/-- The numbered names that tokens declare. -/
def definitions (toks : List (List Char)) : List (List Char) := (declared isKeyword toks).filter isNumbered

theorem isNumbered_eq_false_of_own {t : List Char} (h : isOwnToken t = true) : isNumbered t = false := by
  have hwords : ownWords.all (fun w => !isNumbered w.chars) = true := rfl
  have hsigns : ownSigns.all (fun c => !isNumbered [c]) = true := rfl
  rw [isOwnToken, Bool.or_eq_true, List.any_eq_true, List.any_eq_true] at h
  rcases h with ⟨w, hw, heq⟩ | ⟨c, hc, heq⟩
  · obtain rfl := beq_iff_eq.mp heq
    simpa using List.all_eq_true.mp hwords w hw
  · obtain rfl := beq_iff_eq.mp heq
    simpa using List.all_eq_true.mp hsigns c hc

theorem isNumbered_eq_false_of_numeral {t : List Char} (h : t.all isNumeral = true) : isNumbered t = false := by
  cases t with
  | nil => rfl
  | cons c t =>
      have hc : isNumeral c = true := List.all_eq_true.mp h c List.mem_cons_self
      have hv : (c == 'v') = false := by
        refine beq_eq_false_iff_ne.mpr fun heq => ?_
        rw [heq] at hc
        exact absurd hc (by decide)
      have hconstant : (c == 'c') = false := by
        refine beq_eq_false_iff_ne.mpr fun heq => ?_
        rw [heq] at hc
        exact absurd hc (by decide)
      simp [isNumbered, hv, hconstant]

theorem isNumbered_eq_false_of_keyword {t : List Char} (h : isKeyword t = true) : isNumbered t = false := by
  rw [isKeyword, Bool.or_eq_true, beq_iff_eq, beq_iff_eq] at h
  rcases h with rfl | rfl <;> rfl

theorem isKeyword_eq_false_of_numeral {t : List Char} (h : t.all isNumeral = true) : isKeyword t = false := by
  refine Bool.eq_false_iff.mpr fun hkeyword => ?_
  rw [isKeyword, Bool.or_eq_true, beq_iff_eq, beq_iff_eq] at hkeyword
  rcases hkeyword with rfl | rfl
  · exact absurd h (by decide)
  · exact absurd h (by decide)

namespace Label

theorem word_eq (l : Label) : ∃ c digits, l.word = c :: digits ∧ (c = 'v' ∨ c = 'c') ∧ digits ≠ []
    ∧ ∀ d ∈ digits, d.isDigit = true := by
  have hdigits (n : Nat) : ∀ d ∈ Nat.toDigits 10 n, d.isDigit = true := fun _ hd =>
    Nat.isDigit_of_mem_toDigits (by decide) (by decide) hd
  cases l with
  | function n =>
      exact ⟨'v', Nat.toDigits 10 n, by simp [word, text, functionName, String.toList_append],
        .inl rfl, Nat.toDigits_ne_nil, hdigits n⟩
  | constant n =>
      exact ⟨'c', Nat.toDigits 10 n, by simp [word, text, constantName, String.toList_append],
        .inr rfl, Nat.toDigits_ne_nil, hdigits n⟩

theorem isNumbered_word (l : Label) : isNumbered l.word = true := by
  obtain ⟨c, digits, hword, hc, hne, hdigits⟩ := l.word_eq
  rw [hword, isNumbered]
  rcases hc with rfl | rfl <;> simpa [hne] using hdigits

theorem isKeyword_word (l : Label) : isKeyword l.word = false := by
  refine Bool.eq_false_iff.mpr fun h => ?_
  exact absurd l.isNumbered_word (by simp [isNumbered_eq_false_of_keyword h])

theorem word_injective : Function.Injective word := by
  have hnumber {m n : Nat} (h : Nat.toDigits 10 m = Nat.toDigits 10 n) : m = n := by
    have hvalue := congrArg (Nat.ofDigitChars 10 · 0) h
    simpa [Nat.ofDigitChars_toDigits] using hvalue
  intro a b h
  cases a <;> cases b <;> simp [word, text, functionName, constantName, String.toList_append] at h
  · exact congrArg _ (hnumber h)
  · exact congrArg _ (hnumber h)

/-- The characters of a name are those of words. -/
theorem isWordChar_of_mem {l : Label} {c : Char} (h : c ∈ l.word) : isWordChar c = true := by
  obtain ⟨first, digits, hword, hfirst, -, hdigits⟩ := l.word_eq
  rw [hword] at h
  rcases List.mem_cons.mp h with rfl | h
  · rcases hfirst with rfl | rfl <;> rfl
  · simp [isWordChar, Char.isAlphanum, hdigits c h]

theorem isPlain_of_mem {l : Label} {c : Char} (h : c ∈ l.word) : isPlain c = true := by
  obtain ⟨first, digits, hword, hfirst, -, hdigits⟩ := l.word_eq
  rw [hword] at h
  rcases List.mem_cons.mp h with rfl | h
  · rcases hfirst with rfl | rfl <;> rfl
  · exact plain_of_isDigit (hdigits c h)

/-- A name is one token. -/
theorem codeTokens_word (l : Label) : Quoting.outside.after l.word = .outside ∧ codeTokens l.word = [l.word] := by
  have hquote : '"' ∉ l.word := fun h => absurd (isWordChar_of_mem h) (by decide)
  obtain ⟨hafter, hcode⟩ := Quoting.outside_of_noQuote hquote
  refine ⟨hafter, ?_⟩
  rw [codeTokens, hcode]
  obtain ⟨first, digits, hword, hfirst, -, -⟩ := l.word_eq
  refine tokens_word (by simp [hword]) (fun c hc => isWordChar_of_mem hc) ?_
  rw [hword]
  rcases hfirst with rfl | rfl <;> rfl

end Label

/-! ## Tokens that are known -/

/-- Tokens that are the emitter's own, numbers, or names from a list, and that declare certain names. -/
structure Fine (labels defined : List Label) (toks : List (List Char)) : Prop where
  known : ∀ t ∈ toks, isOwnToken t = true ∨ t.all isNumeral = true ∨ ∃ l ∈ labels, t = l.word
  defines : definitions toks = defined.map Label.word
  last : ∀ t ∈ toks.getLast?, isKeyword t = false

/-- Tokens of which no name is numbered declare none. -/
theorem definitions_eq_nil {toks : List (List Char)} (h : ∀ t ∈ toks, isNumbered t = false) :
    definitions toks = [] :=
  List.filter_eq_nil_iff.mpr fun t ht => by simp [h t (mem_of_mem_declared ht)]

namespace Fine

variable {labels labels' defined defined' : List Label}

theorem nil : Fine labels [] [] := ⟨by simp, rfl, by simp⟩

theorem mono {toks : List (List Char)} (h : Fine labels defined toks) (hsub : labels ⊆ labels') :
    Fine labels' defined toks where
  known t ht := (h.known t ht).imp_right (Or.imp_right fun ⟨l, hl, heq⟩ => ⟨l, hsub hl, heq⟩)
  defines := h.defines
  last := h.last

theorem append {a b : List (List Char)} (ha : Fine labels defined a) (hb : Fine labels defined' b) :
    Fine labels (defined ++ defined') (a ++ b) where
  known := List.forall_mem_append.mpr ⟨ha.known, hb.known⟩
  defines := by
    have hapart : declared isKeyword (a ++ b) = declared isKeyword a ++ declared isKeyword b := declared_append ha.last
    have hdefines := ha.defines
    have hdefines' := hb.defines
    unfold definitions at *
    rw [hapart, List.filter_append, hdefines, hdefines', List.map_append]
  last t ht := by
    rcases b.eq_nil_or_concat with rfl | ⟨front, last, rfl⟩
    · exact ha.last t (by simpa using ht)
    · exact hb.last t (by simpa using ht)

theorem ofOwn {toks : List (List Char)} (h : toks.all isOwnToken = true)
    (hlast : toks.getLast?.any isKeyword = false) : Fine labels [] toks where
  known t ht := .inl (List.all_eq_true.mp h t ht)
  defines := definitions_eq_nil fun t ht => isNumbered_eq_false_of_own (List.all_eq_true.mp h t ht)
  last t ht := by simpa [Option.mem_def.mp ht] using hlast

theorem ofNumerals {toks : List (List Char)} (h : ∀ t ∈ toks, t.all isNumeral = true) : Fine labels [] toks where
  known t ht := .inr (.inl (h t ht))
  defines := definitions_eq_nil fun t ht => isNumbered_eq_false_of_numeral (h t ht)
  last t ht := isKeyword_eq_false_of_numeral (h t (List.mem_of_getLast? ht))

theorem ofLabel {l : Label} (h : l ∈ labels) : Fine labels [] [l.word] where
  known t ht := .inr (.inr ⟨l, h, List.mem_singleton.mp ht⟩)
  defines := rfl
  last t ht := by
    obtain rfl : l.word = t := by simpa using ht
    exact l.isKeyword_word

/-- A keyword with a name behind it. -/
theorem ofKeyword {l : Label} (h : l ∈ labels) {keyword : List Char} (hown : isOwnToken keyword = true)
    (hkeyword : isKeyword keyword = true) : Fine labels [l] [keyword, l.word] where
  known := by
    simp only [List.forall_mem_cons, List.not_mem_nil, false_implies, implies_true, and_true]
    exact ⟨.inl hown, .inr (.inr ⟨l, h, rfl⟩)⟩
  defines := by
    have hword : l.word.all isWordChar = true := List.all_eq_true.mpr fun c hc => l.isWordChar_of_mem hc
    simp [definitions, declared, hkeyword, hword, l.isNumbered_word]
  last t ht := by
    obtain rfl : l.word = t := by simpa using ht
    exact l.isKeyword_word

/-- Names that occur are among those that may. -/
theorem mem_of_word {toks : List (List Char)} (h : Fine labels defined toks) {l : Label} (hl : l.word ∈ toks) :
    l ∈ labels := by
  rcases h.known _ hl with hown | hnumeral | ⟨l', hl', heq⟩
  · exact absurd (isNumbered_eq_false_of_own hown) (by simp [l.isNumbered_word])
  · exact absurd (isNumbered_eq_false_of_numeral hnumeral) (by simp [l.isNumbered_word])
  · exact Label.word_injective heq ▸ hl'

end Fine

/-! ## Sentences -/

/-- Text that is read as code, leads from open brackets to others, and has tokens that are known. -/
structure Sentence (labels : List Label) (stack : List Char) (s : String) (stack' : List Char) : Prop where
  takes : Takes stack s.toList stack'
  outside : Quoting.outside.after s.toList = .outside
  fine : Fine labels [] (codeTokens s.toList)

/-- Text that can stand wherever code can, as long as no word runs into it. -/
def Phrase (labels : List Label) (s : String) : Prop := ∀ stack, Sentence labels stack s stack

variable {labels : List Label}

theorem phrase_of_closed {s : String} (h : Closed s.toList) (houtside : Quoting.outside.after s.toList = .outside)
    (hfine : Fine labels [] (codeTokens s.toList)) : Phrase labels s :=
  fun stack => ⟨h.takes stack, houtside, hfine⟩

theorem phrase_label {l : Label} (h : l ∈ labels) : Phrase labels l.text := by
  obtain ⟨houtside, htokens⟩ := l.codeTokens_word
  refine phrase_of_closed (closed_of_plain fun c hc => l.isPlain_of_mem hc) houtside ?_
  show Fine labels [] (codeTokens l.word)
  rw [htokens]
  exact .ofLabel h

theorem phrase_numeral {s : String} (h : ∀ c ∈ s.toList, isNumeral c = true) : Phrase labels s := by
  have hquote : '"' ∉ s.toList := fun hc => absurd (h _ hc) (by decide)
  obtain ⟨hafter, hcode⟩ := Quoting.outside_of_noQuote hquote
  refine phrase_of_closed (closed_of_plain fun c hc => plain_of (by decide) (h c hc)) hafter
    (.ofNumerals fun t ht => List.all_eq_true.mpr fun c hc => ?_)
  rw [codeTokens, hcode] at ht
  exact h c (mem_of_mem_tokens ht hc)

/-! ## Text with holes -/

/-- A place in a line: the brackets that are open, and whether a word may run on. -/
structure Spot where
  stack : List Char
  word : Bool

/-- The brackets that are open for a reader between two tokens of code. -/
def stackOf (r : Reader) : Option (List Char) :=
  let stack := r.scanner.brackets.filterMap fun
    | .opened c => some c
    | .templateExpr => none
  if r = LexState.code.reader stack then some stack else none

/-- Behind fixed text, or behind a phrase; `none` where the text may not stand. -/
def Spot.next (spot : Spot) : Option (List Char) → Option Spot
  | none => if spot.word then none else some ⟨spot.stack, true⟩
  | some text =>
    let code := Quoting.outside.code text
    let toks := tokens code
    if Quoting.outside.after text == .outside && !code.isEmpty && !(spot.word && code.head?.any isWordChar)
        && toks.all isOwnToken && !toks.getLast?.any isKeyword then
      match (LexState.code.reader spot.stack).run text with
      | .ok r => (stackOf r).map fun stack => ⟨stack, code.getLast?.any isWordChar⟩
      | .error _ => none
    else none

/-- Behind a row of fixed texts, with holes for phrases. -/
def Spot.through (spot : Spot) (outline : List (Option (List Char))) : Option Spot := outline.foldlM next spot

/-- Text spelled from fixed text and phrases. -/
inductive Spells (labels : List Label) : String → List (Option (List Char)) → Prop where
  | own {s : String} {text : List Char} (h : s = String.ofList text) : Spells labels s [some text]
  | put {s : String} (h : Phrase labels s) : Spells labels s [none]
  | append {a b : String} {x y : List (Option (List Char))} (ha : Spells labels a x) (hb : Spells labels b y) :
      Spells labels (a ++ b) (x ++ y)

namespace Spells

/-- Fixed text behind what has been spelled. -/
theorem text {a s : String} {chars : List Char} {x : List (Option (List Char))} (h : Spells labels a x)
    (hs : s = String.ofList chars) : Spells labels (a ++ s) (x ++ [some chars]) := h.append (.own hs)

/-- A phrase behind what has been spelled. -/
theorem hole {a s : String} {x : List (Option (List Char))} (h : Spells labels a x) (hs : Phrase labels s) :
    Spells labels (a ++ s) (x ++ [none]) := h.append (.put hs)

end Spells

theorem reader_of_stackOf {r : Reader} {stack : List Char} (h : stackOf r = some stack) :
    r = LexState.code.reader stack := by
  simp only [stackOf] at h
  split_ifs at h with heq
  rw [← Option.some.inj h]
  exact heq

/-- A sentence between two places: no word runs into it from outside, or out of it. -/
structure Fits (labels : List Label) (spot : Spot) (s : String) (spot' : Spot) : Prop extends
    Sentence labels spot.stack s spot'.stack where
  head : spot.word = true → ∃ c ∈ (Quoting.outside.code s.toList).head?, isWordChar c = false
  tail : spot'.word = false → ∃ c ∈ (Quoting.outside.code s.toList).getLast?, isWordChar c = false

namespace Fits

variable {spot spot₁ spot' : Spot} {a b : String}

theorem append (ha : Fits labels spot a spot₁) (hb : Fits labels spot₁ b spot') : Fits labels spot (a ++ b) spot' := by
  have hcode : Quoting.outside.code (a ++ b).toList
      = Quoting.outside.code a.toList ++ Quoting.outside.code b.toList := by
    rw [String.toList_append, Quoting.code_append, ha.outside]
  have hapart : Apart (Quoting.outside.code a.toList) (Quoting.outside.code b.toList) := by
    cases hword : spot₁.word with
    | true =>
        obtain ⟨c, hc, hfalse⟩ := hb.head hword
        exact apart_of_head fun y hy => Option.mem_unique hc hy ▸ hfalse
    | false =>
        obtain ⟨c, hc, hfalse⟩ := ha.tail hword
        exact apart_of_last fun x hx => Option.mem_unique hc hx ▸ hfalse
  refine ⟨⟨?_, ?_, ?_⟩, fun hword => ?_, fun hword => ?_⟩
  · rw [String.toList_append]
    exact ha.takes.append hb.takes
  · rw [String.toList_append, Quoting.after_append, ha.outside, hb.outside]
  · rw [String.toList_append, codeTokens_append ha.outside hapart]
    exact ha.fine.append hb.fine
  · obtain ⟨c, hc, hfalse⟩ := ha.head hword
    rw [hcode]
    exact ⟨c, by simp [Option.mem_def.mp hc], hfalse⟩
  · obtain ⟨c, hc, hfalse⟩ := hb.tail hword
    rw [hcode]
    exact ⟨c, by simp [Option.mem_def.mp hc], hfalse⟩

theorem ofOwn {text : List Char} (h : spot.next (some text) = some spot') :
    Fits labels spot (String.ofList text) spot' := by
  simp only [Spot.next] at h
  split_ifs at h with hcheck
  simp only [Bool.and_eq_true, beq_iff_eq, Bool.not_eq_true', List.isEmpty_eq_false_iff] at hcheck
  obtain ⟨⟨⟨⟨houtside, hne⟩, hhead⟩, hown⟩, hlast⟩ := hcheck
  split at h
  · next r hrun =>
      obtain ⟨stack, hstack, rfl⟩ := Option.map_eq_some_iff.mp h
      rw [reader_of_stackOf hstack] at hrun
      refine ⟨⟨?_, ?_, ?_⟩, fun hword => ?_, fun hword => ?_⟩
      all_goals rw [String.toList_ofList]
      · exact hrun
      · exact houtside
      · exact .ofOwn hown hlast
      · have hfirst := List.head?_eq_some_head hne
        exact ⟨_, hfirst, by simpa [hword, hfirst] using hhead⟩
      · have hfinal := List.getLast?_eq_some_getLast hne
        exact ⟨_, hfinal, by simpa [hfinal] using hword⟩
  · exact absurd h (by simp)

theorem ofPhrase {s : String} (hs : Phrase labels s) (h : spot.next none = some spot') :
    Fits labels spot s spot' := by
  simp only [Spot.next] at h
  split_ifs at h with hword
  obtain rfl := Option.some.inj h
  exact ⟨hs spot.stack, fun h => absurd h hword, fun h => absurd h (by simp)⟩

end Fits

/-- **What is spelled fits where its outline may stand.** -/
theorem Spells.fits {s : String} {outline : List (Option (List Char))} (h : Spells labels s outline) :
    ∀ {spot spot' : Spot}, spot.through outline = some spot' → Fits labels spot s spot' := by
  induction h with
  | own heq =>
      intro spot spot' hthrough
      rw [heq]
      exact .ofOwn (by simpa [Spot.through] using hthrough)
  | put hs =>
      intro spot spot' hthrough
      exact .ofPhrase hs (by simpa [Spot.through] using hthrough)
  | append _ _ iha ihb =>
      intro spot spot' hthrough
      rw [Spot.through, List.foldlM_append] at hthrough
      obtain ⟨spot₁, hfirst, hrest⟩ := Option.bind_eq_some_iff.mp hthrough
      exact (iha hfirst).append (ihb hrest)

/-- The same with more brackets open outside. -/
theorem Fits.under {stack stack' : List Char} {word word' : Bool} {s : String}
    (h : Fits labels ⟨stack, word⟩ s ⟨stack', word'⟩) (more : List Char) :
    Fits labels ⟨stack ++ more, word⟩ s ⟨stack' ++ more, word'⟩ :=
  ⟨⟨h.takes.under more, h.outside, h.fine⟩, h.head, h.tail⟩

/-- A sentence by its outline, read with only the brackets open that it closes. -/
theorem Spells.sentence {s : String} {outline : List (Option (List Char))} {word : Bool}
    (h : Spells labels s outline) (stack stack' : List Char)
    (hthrough : Spot.through ⟨stack, false⟩ outline = some ⟨stack', word⟩) (more : List Char) :
    Sentence labels (stack ++ more) s (stack' ++ more) :=
  ((h.fits hthrough).under more).toSentence

/-- A phrase by its outline. -/
theorem Spells.phrase {s : String} {outline : List (Option (List Char))} {word : Bool}
    (h : Spells labels s outline) (hthrough : Spot.through ⟨[], false⟩ outline = some ⟨[], word⟩) :
    Phrase labels s := h.sentence [] [] hthrough

/-- Fixed text is a phrase where it may stand anywhere. -/
theorem phrase_own {s : String} {chars : List Char} {word : Bool} (hs : s = String.ofList chars)
    (hthrough : Spot.through ⟨[], false⟩ [some chars] = some ⟨[], word⟩) : Phrase labels s :=
  (Spells.own hs).phrase hthrough

/-! ## Literals -/

theorem inside_inner : ∀ {text : List Char}, (∀ c ∈ text, isInner true c = true) → Quoting.Inside text
  | [], _ => ⟨rfl, rfl⟩
  | c :: text, h => by
      obtain ⟨hc, htext⟩ := List.forall_mem_cons.mp h
      have hnext : Quoting.next .inside c = .inside := by
        simp only [isInner, quoteOf, Bool.and_eq_true, bne_iff_ne, if_true] at hc
        simp [Quoting.next, hc.1.2, hc.2]
      have hfirst : Quoting.Inside [c] := ⟨hnext, rfl⟩
      exact hfirst.append (inside_inner htext)

/-- How a character stands in a literal: no quote among it can end the literal. -/
theorem inside_escapeChar (c : Char) : Quoting.Inside (Json.Token.escapeChar c) := by
  unfold Json.Token.escapeChar
  split_ifs with hquote hback hbackspace hfeed hnewline hreturn htab hlow
  · exact ⟨rfl, rfl⟩
  · exact ⟨rfl, rfl⟩
  · exact ⟨rfl, rfl⟩
  · exact ⟨rfl, rfl⟩
  · exact ⟨rfl, rfl⟩
  · exact ⟨rfl, rfl⟩
  · exact ⟨rfl, rfl⟩
  · have hescape : Quoting.Inside ['\\', 'u'] := ⟨rfl, rfl⟩
    refine hescape.append (inside_inner ?_)
    simp only [List.forall_mem_cons, List.not_mem_nil, false_implies, implies_true, and_true]
    exact ⟨rfl, rfl, inner_hexDigit true _ (by omega), inner_hexDigit true _ (by omega)⟩
  · rw [beq_iff_eq] at hquote hback hnewline
    exact inside_inner (by simp [isInner, quoteOf, hquote, hback, hnewline])

theorem inside_escaped : ∀ text : List Char, Quoting.Inside (text.flatMap Json.Token.escapeChar)
  | [] => ⟨rfl, rfl⟩
  | c :: text => by
      rw [List.flatMap_cons]
      exact (inside_escapeChar c).append (inside_escaped text)

/-- Between quotes all that is seen outside is a quote. -/
theorem phrase_between {s : String} {text : List Char} (hs : s.toList = '"' :: text ++ ['"'])
    (hlex : Lexes (.quoted true) text (.quoted true) []) (h : Quoting.Inside text) : Phrase labels s := by
  obtain ⟨houtside, hcode⟩ := Quoting.outside_of_inside h
  have hquiet : Quiet ('"' :: text ++ ['"']) := quiet_between hlex
  rw [← hs] at houtside hcode hquiet
  refine phrase_of_closed hquiet.closed houtside ?_
  rw [codeTokens, hcode]
  exact .ofOwn rfl rfl

/-- **A string literal is a phrase, whatever its text.** -/
theorem phrase_stringLiteral (s : String) : Phrase labels (stringLiteral s) := by
  have htext : (stringLiteral s).toList = '"' :: s.toList.flatMap Json.Token.escapeChar ++ ['"'] := by
    simp [stringLiteral, Json.Token.quote, String.toList_append]
  exact phrase_between htext (lexes_flatMap lexes_tokenEscapeChar _) (inside_escaped _)

theorem inner_of_numeral {c : Char} (h : isNumeral c = true) : isInner true c = true := by
  have hne {d : Char} (hd : isNumeral d = false) : c ≠ d := by
    rintro rfl
    exact absurd (h.symm.trans hd) (by decide)
  have hnewline := hne (d := '\n') rfl
  have hback := hne (d := '\\') rfl
  have hquote := hne (d := '"') rfl
  simp [isInner, quoteOf, hnewline, hback, hquote]

/-- An index as it is added to a path. -/
theorem phrase_index (n : Nat) : Phrase labels ("\"[" ++ toString n ++ "]\"") := by
  have htext : ("\"[" ++ toString n ++ "]\"").toList = '"' :: ('[' :: (toString n).toList ++ [']']) ++ ['"'] := by
    simp [String.toList_append]
  have hinner : ∀ c ∈ '[' :: (toString n).toList ++ [']'], isInner true c = true := by
    simp only [List.cons_append, List.forall_mem_cons, List.forall_mem_append, List.not_mem_nil, false_implies,
      implies_true, and_true]
    exact ⟨rfl, fun c hc => inner_of_numeral (numeral_natText c hc), rfl⟩
  exact phrase_between htext (lexes_inner hinner) (inside_inner hinner)

/-! ## Texts joined -/

/-- Phrases with fixed text between them. -/
theorem phrase_intercalate (sep : String) {chars : List Char} (hsep : sep = String.ofList chars)
    (hthrough : Spot.through ⟨[], false⟩ [none, some chars, none] = some ⟨[], true⟩) :
    ∀ {texts : List String}, (∀ t ∈ texts, Phrase labels t) → Phrase labels (String.intercalate sep texts)
  | [], _ => fun stack => ⟨Takes.nil stack, rfl, .nil⟩
  | [t], h => by
      rw [String.intercalate_singleton]
      exact h t List.mem_cons_self
  | t :: u :: rest, h => by
      obtain ⟨ht, hrest⟩ := List.forall_mem_cons.mp h
      rw [String.intercalate_cons_cons]
      exact (Spells.put ht |>.text hsep |>.hole (phrase_intercalate sep hsep hthrough hrest)).phrase hthrough

mutual

/-- **JSON text is a phrase, whatever it says.** -/
theorem phrase_compact : ∀ j : Json, Phrase labels j.compact
  | .null => phrase_own rfl (by rfl)
  | .bool true => phrase_own rfl (by rfl)
  | .bool false => phrase_own rfl (by rfl)
  | .num n => phrase_numeral (numeral_toText n)
  | .str s => phrase_stringLiteral s
  | .arr items => by
      rw [Json.compact]
      have hitems := phrase_intercalate "," rfl (by rfl) (phrase_compactItems items)
      exact (Spells.own rfl |>.hole hitems |>.text rfl).phrase (by rfl)
  | .obj members => by
      rw [Json.compact]
      have hmembers := phrase_intercalate "," rfl (by rfl) (phrase_compactMembers members)
      exact (Spells.own rfl |>.hole hmembers |>.text rfl).phrase (by rfl)

theorem phrase_compactItems : ∀ items : List Json, ∀ t ∈ Json.compactItems items, Phrase labels t
  | [] => fun t ht => absurd ht (by simp [Json.compactItems])
  | v :: rest => by
      rw [Json.compactItems]
      exact List.forall_mem_cons.mpr ⟨phrase_compact v, phrase_compactItems rest⟩

theorem phrase_compactMembers : ∀ members : List (String × Json), ∀ t ∈ Json.compactMembers members,
    Phrase labels t
  | [] => fun t ht => absurd ht (by simp [Json.compactMembers])
  | (k, v) :: rest => by
      rw [Json.compactMembers]
      refine List.forall_mem_cons.mpr ⟨?_, phrase_compactMembers rest⟩
      exact (Spells.put (phrase_stringLiteral k) |>.text rfl |>.hole (phrase_compact v)).phrase (by rfl)

end

end DecoderForge.Standalone
