import DecoderForge.Proofs.Layout.Literals

/-!
# DecoderForge — code without comments and blanks

Comments and the blanks between the signs of code say nothing, and indentation changes nothing else.  What is left
of a text without them falls into pieces at the semicolons outside of all brackets and strings.

## The architecture

* **`squeezed`**, **`Squeezes`** — a text without comments and blanks, and texts one after another.
* **`Within`** — text that stays in its string.
* **`pieces`** — the pieces between semicolons.
* **`Unbroken`**, **`Enclosed`** — text that no semicolon takes apart, anywhere or between brackets.
* **`pieces_flatMap`** — unbroken texts with a semicolon behind each are the pieces.
-/

namespace DecoderForge.Layout

/-! ## Without comments and blanks -/

/-- What a character leaves: in a string it stays, and so it does in code unless it is blank or begins a comment. -/
def LexState.kept (st : LexState) (c : Char) : List Char :=
  match st with
  | .code => if c == '/' || Text.isBlank c then [] else [c]
  | .quoted _ | .escaped _ => [c]
  | .slash | .block | .star => []

/-- A text from a state on without comments and without blanks outside of strings, as far as it lexes. -/
def squeezed (st : LexState) : List Char → List Char
  | [] => []
  | c :: text => st.kept c ++ (st.step c).elim [] fun r => squeezed r.1 text

theorem squeezed_cons {st st' : LexState} {c : Char} {w : List Char} (h : st.step c = some (st', w))
    (text : List Char) : squeezed st (c :: text) = st.kept c ++ squeezed st' text := by
  rw [squeezed, h]
  rfl

/-- Texts one after another. -/
theorem squeezed_append : ∀ {a : List Char} {st st' : LexState} {w : List Char}, Lexes st a st' w →
    ∀ b : List Char, squeezed st (a ++ b) = squeezed st a ++ squeezed st' b
  | [], _, _, _, h, b => by
      obtain ⟨rfl, -⟩ := Prod.mk.inj (Option.some.inj h)
      rfl
  | c :: a, _, _, _, h, b => by
      obtain ⟨st₁, w₁, w₂, hstep, hlex, rfl⟩ := Lexes.cons_inv h
      rw [List.cons_append, squeezed_cons hstep, squeezed_cons hstep, squeezed_append hlex, List.append_assoc]

/-- A text without brackets of code of which nothing is left. -/
def Hidden (st : LexState) (text : List Char) (st' : LexState) : Prop := Lexes st text st' [] ∧ squeezed st text = []

namespace Hidden

variable {st st' st'' : LexState} {a b : List Char}

theorem nil (st : LexState) : Hidden st [] st := ⟨Lexes.nil st, rfl⟩

theorem cons {c : Char} (hstep : st.step c = some (st', [])) (hkept : st.kept c = []) (h : Hidden st' a st'') :
    Hidden st (c :: a) st'' := by
  refine ⟨Lexes.cons hstep h.1, ?_⟩
  rw [squeezed_cons hstep, hkept, h.2]
  rfl

theorem append (h : Hidden st a st') (h' : Hidden st' b st'') : Hidden st (a ++ b) st'' := by
  refine ⟨h.1.append h'.1, ?_⟩
  rw [squeezed_append h.1, h.2, h'.2]
  rfl

/-- Blanks are left out, in code and in comments. -/
theorem blanks (hst : st = .code ∨ st = .block) :
    ∀ {text : List Char}, (∀ c ∈ text, Text.isBlank c = true) → Hidden st text st
  | [], _ => nil st
  | c :: text, h => by
      obtain ⟨hblank, hrest⟩ := List.forall_mem_cons.mp h
      have hone : Lexes st [c] st [] := lexes_blanks hst (List.forall_mem_singleton.mpr hblank)
      have hkept : st.kept c = [] := by
        rcases hst with rfl | rfl
        · simp [LexState.kept, hblank]
        · rfl
      refine append (a := [c]) ⟨hone, ?_⟩ (blanks hst hrest)
      obtain ⟨st₁, _, _, hstep, -, -⟩ := Lexes.cons_inv hone
      rw [squeezed_cons hstep, hkept]
      rfl

end Hidden

/-- A text begins and ends in code, and that is left of it. -/
def Squeezes (text code : List Char) : Prop := (∃ w, Lexes .code text .code w) ∧ squeezed .code text = code

namespace Squeezes

variable {text code : List Char}

theorem append {text' code' : List Char} (h : Squeezes text code) (h' : Squeezes text' code') :
    Squeezes (text ++ text') (code ++ code') := by
  obtain ⟨⟨w, hlex⟩, rfl⟩ := h
  obtain ⟨⟨w', hlex'⟩, rfl⟩ := h'
  exact ⟨⟨w ++ w', hlex.append hlex'⟩, squeezed_append hlex text'⟩

theorem of_hidden (h : Hidden .code text .code) : Squeezes text [] := ⟨⟨[], h.1⟩, h.2⟩

/-- A sign of code. -/
theorem sign {c : Char} {w : List Char} (hstep : LexState.code.step c = some (.code, w))
    (hkept : LexState.code.kept c = [c]) : Squeezes [c] [c] :=
  ⟨⟨w ++ [], Lexes.cons hstep (Lexes.nil _)⟩, by rw [squeezed_cons hstep, hkept]; rfl⟩

/-- Plain text leaves its characters but for blanks. -/
theorem plain : ∀ {text : List Char}, (∀ c ∈ text, isPlain c = true) →
    Squeezes text (text.filter fun c => !Text.isBlank c)
  | [], _ => ⟨⟨[], Lexes.nil _⟩, rfl⟩
  | c :: text, h => by
      obtain ⟨hc, hrest⟩ := List.forall_mem_cons.mp h
      have hstep := step_code_plain hc
      have hslash : c ≠ '/' := by
        rintro rfl
        exact absurd hc (by decide)
      obtain ⟨⟨w, hlex⟩, hcode⟩ := plain hrest
      refine ⟨⟨[] ++ w, Lexes.cons hstep hlex⟩, ?_⟩
      rw [squeezed_cons hstep, hcode, LexState.kept]
      cases hblank : Text.isBlank c <;> simp [hslash, hblank]

end Squeezes

/-! ## Strings -/

/-- Whether a state is one of a string. -/
def LexState.inString : LexState → Bool
  | .quoted _ | .escaped _ => true
  | _ => false

/-- Text that leads from one place in a string to another and never out of it. -/
inductive Within : LexState → List Char → LexState → Prop where
  | nil {st : LexState} (h : st.inString = true) : Within st [] st
  | cons {st st' st'' : LexState} {c : Char} {text : List Char} (h : st.inString = true)
      (hstep : st.step c = some (st', [])) (hrest : Within st' text st'') : Within st (c :: text) st''

namespace Within

variable {st st' : LexState} {a b : List Char}

theorem append {st'' : LexState} (h : Within st a st') (h' : Within st' b st'') : Within st (a ++ b) st'' := by
  induction h with
  | nil _ => exact h'
  | cons h hstep _ ih => exact .cons h hstep (ih h')

theorem lexes (h : Within st a st') : Lexes st a st' [] := by
  induction h with
  | nil _ => exact Lexes.nil _
  | cons _ hstep _ ih => exact Lexes.cons hstep ih

/-- Nothing of a string is left out. -/
theorem squeezed_eq (h : Within st a st') : squeezed st a = a := by
  induction h with
  | nil _ => rfl
  | @cons st _ _ c text h hstep _ ih =>
      have hkept : st.kept c = [c] := by cases st <;> first | rfl | exact absurd h (by decide)
      rw [squeezed_cons hstep, hkept, ih]
      rfl

/-- Characters that stand for themselves. -/
theorem inner {double : Bool} : ∀ {text : List Char}, (∀ c ∈ text, isInner double c = true) →
    Within (.quoted double) text (.quoted double)
  | [], _ => .nil rfl
  | _ :: _, h => by
      obtain ⟨hc, hrest⟩ := List.forall_mem_cons.mp h
      exact .cons rfl (step_inner hc) (inner hrest)

/-- A character as a string literal spells it. -/
theorem escapeChar (double : Bool) (c : Char) :
    Within (.quoted double) (Style.escapeChar (quoteOf double) c) (.quoted double) := by
  rcases escapeChar_cases double c with ⟨a, text, heq, ha, htext⟩ | ⟨heq, hinner⟩
  · have hback : (LexState.quoted double).step '\\' = some (.escaped double, []) := rfl
    have hnext : (LexState.escaped double).step a = some (.quoted double, []) := by
      simp [LexState.step, ha]
    rw [heq]
    exact .cons rfl hback (.cons rfl hnext (inner htext))
  · rw [heq]
    exact inner (List.forall_mem_singleton.mpr hinner)

theorem escaped (double : Bool) : ∀ text : List Char,
    Within (.quoted double) (text.flatMap (Style.escapeChar (quoteOf double))) (.quoted double)
  | [] => .nil rfl
  | c :: text => by
      rw [List.flatMap_cons]
      exact (escapeChar double c).append (escaped double text)

end Within

/-- A quote begins a string in code and ends it. -/
theorem step_quote (double : Bool) : LexState.code.step (quoteOf double) = some (.quoted double, [])
    ∧ (LexState.quoted double).step (quoteOf double) = some (.code, []) := by
  cases double <;> exact ⟨rfl, rfl⟩

/-- **A string literal is left as it is.** -/
theorem squeezes_quoteChars (style : Style) (text : List Char) :
    Squeezes (style.quoteChars text) (style.quoteChars text) := by
  refine ⟨⟨[], quiet_quoteChars style text⟩, ?_⟩
  unfold Style.quoteChars
  rw [quoteMark_eq]
  generalize (!style.singleQuote) = double
  obtain ⟨hopen, hclose⟩ := step_quote double
  have hwithin := Within.escaped double text
  have hkept : LexState.code.kept (quoteOf double) = [quoteOf double] := by cases double <;> rfl
  rw [List.cons_append, squeezed_cons hopen, squeezed_append hwithin.lexes, hwithin.squeezed_eq,
    squeezed_cons hclose, hkept]
  rfl

/-! ## Pieces -/

/-- So many brackets are open behind some more; none where one is closed that is not open. -/
def nesting : (depth : Nat) → (brackets : List Char) → Option Nat
  | depth, [] => some depth
  | depth, c :: rest =>
    if isOpener c then nesting (depth + 1) rest
    else
      match depth with
      | 0 => none
      | depth + 1 => nesting depth rest

/-- A text in front of the first piece. -/
def inFront (a : List Char) : List (List Char) → List (List Char)
  | [] => []
  | first :: more => (a ++ first) :: more

/-- The pieces of a text between the semicolons of code outside of all brackets. -/
def pieces (st : LexState) (depth : Nat) : List Char → Option (List (List Char))
  | [] => if st = .code ∧ depth = 0 then some [[]] else none
  | c :: rest =>
    if st = .code ∧ depth = 0 ∧ c = ';' then (pieces .code 0 rest).map ([] :: ·)
    else
      (st.step c).bind fun r =>
        (nesting depth r.2).bind fun depth' => (pieces r.1 depth' rest).map (inFront [c])

/-- A text leads from one place to another without the end of a piece in between. -/
def Passes (st : LexState) (depth : Nat) (a : List Char) (st' : LexState) (depth' : Nat) : Prop :=
  ∀ rest, pieces st depth (a ++ rest) = (pieces st' depth' rest).map (inFront a)

theorem inFront_nil (ps : List (List Char)) : inFront [] ps = ps := by
  cases ps <;> rfl

theorem inFront_append (a b : List Char) (ps : List (List Char)) : inFront (a ++ b) ps = inFront a (inFront b ps) := by
  cases ps with
  | nil => rfl
  | cons first more => simp [inFront]

namespace Passes

variable {st st' : LexState} {depth depth' : Nat} {a b : List Char}

theorem nil (st : LexState) (depth : Nat) : Passes st depth [] st depth := fun rest => by
  have hid : inFront [] = id := funext inFront_nil
  rw [hid, Option.map_id]
  rfl

theorem append {st'' : LexState} {depth'' : Nat} (h : Passes st depth a st' depth')
    (h' : Passes st' depth' b st'' depth'') : Passes st depth (a ++ b) st'' depth'' := fun rest => by
  have hboth : inFront (a ++ b) = inFront a ∘ inFront b := funext (inFront_append a b)
  rw [List.append_assoc, h, h', Option.map_map, hboth]

/-- One character that does not end a piece. -/
theorem single {c : Char} {w : List Char} (hcut : ¬ (st = .code ∧ depth = 0 ∧ c = ';'))
    (hstep : st.step c = some (st', w)) (hnesting : nesting depth w = some depth') :
    Passes st depth [c] st' depth' := fun rest => by
  rw [List.singleton_append, pieces, if_neg hcut, hstep]
  show (nesting depth w).bind _ = _
  rw [hnesting]
  rfl

/-- Text that stays in its string. -/
theorem within (h : Within st a st') (depth : Nat) : Passes st depth a st' depth := by
  induction h with
  | nil _ => exact nil _ _
  | @cons st _ _ c text h hstep _ ih =>
      have hcut : ¬ (st = .code ∧ depth = 0 ∧ c = ';') := by
        rintro ⟨rfl, -, -⟩
        exact absurd h (by decide)
      exact (single hcut hstep rfl).append ih

end Passes

/-- Code that no semicolon takes apart, wherever it stands. -/
def Unbroken (code : List Char) : Prop := ∀ depth, Passes .code depth code .code depth

/-- Code that no semicolon takes apart between brackets. -/
def Enclosed (code : List Char) : Prop := ∀ depth, Passes .code (depth + 1) code .code (depth + 1)

theorem Unbroken.enclosed {code : List Char} (h : Unbroken code) : Enclosed code := fun depth => h (depth + 1)

theorem Unbroken.nil : Unbroken [] := Passes.nil .code

theorem Unbroken.append {a b : List Char} (ha : Unbroken a) (hb : Unbroken b) : Unbroken (a ++ b) := fun depth =>
  (ha depth).append (hb depth)

theorem Enclosed.append {a b : List Char} (ha : Enclosed a) (hb : Enclosed b) : Enclosed (a ++ b) := fun depth =>
  (ha depth).append (hb depth)

/-- A plain character. -/
theorem unbroken_plain {c : Char} (h : isPlain c = true) (hne : c ≠ ';') : Unbroken [c] := fun _ =>
  .single (fun hcut => hne hcut.2.2) (step_code_plain h) rfl

/-- Plain characters without a semicolon. -/
theorem unbroken_of_plain : ∀ {code : List Char}, (∀ c ∈ code, isPlain c = true) → ';' ∉ code → Unbroken code
  | [], _, _ => .nil
  | c :: code, h, hsemicolon => by
      obtain ⟨hc, hrest⟩ := List.forall_mem_cons.mp h
      obtain ⟨hne, hnone⟩ := not_or.mp (List.mem_cons.not.mp hsemicolon)
      exact (unbroken_plain hc (Ne.symm hne)).append (unbroken_of_plain hrest hnone)

/-- Between brackets a semicolon ends nothing. -/
theorem enclosed_semicolon : Enclosed [';'] := fun _ => .single (fun hcut => absurd hcut.2.1 (by simp)) rfl rfl

/-- **Brackets enclose what is between them.** -/
theorem Enclosed.between {code : List Char} (h : Enclosed code) {o c : Char}
    (ho : LexState.code.step o = some (.code, [o])) (hopen : isOpener o = true)
    (hc : LexState.code.step c = some (.code, [c])) (hclose : isOpener c = false) :
    Unbroken (o :: code ++ [c]) := fun depth => by
  have hsemicolon : LexState.code.step ';' = some (.code, []) := rfl
  have hne {d : Char} (hd : LexState.code.step d = some (.code, [d])) : d ≠ ';' := by
    rintro rfl
    rw [hsemicolon] at hd
    exact absurd hd (by simp)
  have hfirst : Passes .code depth [o] .code (depth + 1) :=
    .single (fun hcut => hne ho hcut.2.2) ho (by simp [nesting, hopen])
  have hlast : Passes .code (depth + 1) [c] .code depth :=
    .single (fun hcut => hne hc hcut.2.2) hc (by simp [nesting, hclose])
  exact (hfirst.append (h depth)).append hlast

/-- **No semicolon takes a string literal apart.** -/
theorem unbroken_quoteChars (style : Style) (text : List Char) : Unbroken (style.quoteChars text) := fun depth => by
  unfold Style.quoteChars
  rw [quoteMark_eq]
  generalize (!style.singleQuote) = double
  obtain ⟨hopen, hclose⟩ := step_quote double
  have hfirst : Passes .code depth [quoteOf double] (.quoted double) depth :=
    .single (fun hcut => by cases double <;> exact absurd hcut.2.2 (by decide)) hopen rfl
  have hlast : Passes (.quoted double) depth [quoteOf double] .code depth :=
    .single (fun hcut => absurd hcut.1 (by simp)) hclose rfl
  exact (hfirst.append (.within (Within.escaped double text) depth)).append hlast

/-- **Unbroken texts with a semicolon behind each are the pieces**, and nothing is behind the last. -/
theorem pieces_flatMap : ∀ {codes : List (List Char)}, (∀ code ∈ codes, Unbroken code) →
    pieces .code 0 (codes.flatMap (· ++ [';'])) = some (codes ++ [[]])
  | [], _ => rfl
  | code :: codes, h => by
      obtain ⟨hfirst, hrest⟩ := List.forall_mem_cons.mp h
      have hcut : pieces .code 0 (';' :: codes.flatMap (· ++ [';']))
          = (pieces .code 0 (codes.flatMap (· ++ [';']))).map ([] :: ·) := by
        rw [pieces, if_pos ⟨rfl, rfl, rfl⟩]
      rw [List.flatMap_cons, List.append_assoc, hfirst 0, List.singleton_append, hcut, pieces_flatMap hrest]
      simp [inFront]

end DecoderForge.Layout
