import DecoderForge.Proofs.Layout.Lexing

/-!
# DecoderForge — texts whose brackets match, or at least count out

Two things can be said of the brackets of a text.  They may match, so that the text can stand wherever
code can.  Or there may only be as many opening as closing ones; such a text can fail where it stands,
but if it does not, then nothing stays open behind it.

## The architecture

* **`Closed`** — the brackets match.
* **`Level`** — as many open as close.
* **`settle_flatten_iff`** — level brackets one after another settle exactly when each of them do.
* **`Level.of_parens`** — a level text stays level without an outer pair of parentheses.
-/

namespace DecoderForge.Layout

/-- Text that begins and ends in code and whose brackets match. -/
def Closed (text : List Char) : Prop :=
  ∃ w, Lexes .code text .code w ∧ ∀ stack, settle stack w = .ok stack

/-- Text that begins and ends in code and opens as many brackets as it closes. -/
def Level (text : List Char) : Prop :=
  ∃ w, Lexes .code text .code w ∧ 2 * w.countP isOpener = w.length

/-! ## Closed text -/

theorem Quiet.closed {text : List Char} (h : Quiet text) : Closed text := ⟨[], h, fun _ => rfl⟩

theorem Closed.append {a b : List Char} (ha : Closed a) (hb : Closed b) : Closed (a ++ b) := by
  obtain ⟨w, hlex, hsettle⟩ := ha
  obtain ⟨w', hlex', hsettle'⟩ := hb
  refine ⟨w ++ w', hlex.append hlex', fun stack => ?_⟩
  rw [settle_append, hsettle]
  exact hsettle' stack

/-- Between a pair of brackets. -/
theorem Closed.between {text : List Char} (h : Closed text) {o c : Char}
    (ho : LexState.code.step o = some (.code, [o])) (hopen : isOpener o = true)
    (hc : LexState.code.step c = some (.code, [c])) (hclose : isOpener c = false)
    (hpair : o = Scanner.opener c) : Closed (o :: text ++ [c]) := by
  obtain ⟨w, hlex, hsettle⟩ := h
  refine ⟨[o] ++ (w ++ [c]), Lexes.cons ho (hlex.append (Lexes.cons hc (Lexes.nil _))), fun stack => ?_⟩
  rw [settle_append, settle.eq_def]
  simp only [hopen, if_true]
  show settle (o :: stack) (w ++ [c]) = _
  rw [settle_append, hsettle]
  show settle (o :: stack) [c] = _
  rw [settle.eq_def]
  simp [hclose, hpair, settle]

theorem Closed.parens {text : List Char} (h : Closed text) : Closed ('(' :: text ++ [')']) :=
  h.between rfl rfl rfl rfl rfl

theorem Closed.square {text : List Char} (h : Closed text) : Closed ('[' :: text ++ [']']) :=
  h.between rfl rfl rfl rfl rfl

theorem Closed.braces {text : List Char} (h : Closed text) : Closed ('{' :: text ++ ['}']) :=
  h.between rfl rfl rfl rfl rfl

/-! ## Counting -/

/-- Settling changes the number of open brackets by the difference of opening and closing ones. -/
theorem length_of_settle : ∀ {w stack stack' : List Char}, settle stack w = .ok stack' →
    stack'.length + w.length = stack.length + 2 * w.countP isOpener
  | [], _, _, h => by
      obtain rfl := Except.ok.inj h
      simp
  | c :: w, stack, stack', h => by
      rw [settle.eq_def] at h
      by_cases hc : isOpener c = true
      · simp only [hc, if_true] at h
        have ih := length_of_settle h
        simp only [List.length_cons, List.countP_cons, hc, if_true] at ih ⊢
        omega
      · simp only [hc, Bool.false_eq_true, if_false] at h
        cases stack with
        | nil => exact absurd h (by simp)
        | cons o stack =>
            by_cases ho : (o == Scanner.opener c) = true
            · simp only [ho, if_true] at h
              have ih := length_of_settle h
              simp only [List.length_cons, List.countP_cons, hc, Bool.false_eq_true, if_false] at ih ⊢
              omega
            · simp only [ho, Bool.false_eq_true, if_false] at h
              exact absurd h (by simp)

/-- Level brackets that settle leave as many open as before. -/
theorem eq_nil_of_settle {w stack : List Char} (hlevel : 2 * w.countP isOpener = w.length)
    (h : settle [] w = .ok stack) : stack = [] := by
  have hlength := length_of_settle h
  rw [List.length_nil] at hlength
  exact List.length_eq_zero_iff.mp (by omega)

/-- **Level brackets one after another settle exactly when each of them do.**  What one of them leaves
open the next cannot close, as nothing is left open. -/
theorem settle_flatten_iff : ∀ {ws : List (List Char)},
    (∀ w ∈ ws, 2 * w.countP isOpener = w.length) →
      (settle [] ws.flatten = .ok [] ↔ ∀ w ∈ ws, settle [] w = .ok [])
  | [], _ => by simp [settle]
  | w :: ws, h => by
      have ih := settle_flatten_iff fun v hv => h v (List.mem_cons_of_mem w hv)
      rw [List.flatten_cons, settle_append, List.forall_mem_cons]
      cases hw : settle [] w with
      | error f => simp [Except.bind]
      | ok stack =>
          obtain rfl := eq_nil_of_settle (h w List.mem_cons_self) hw
          show settle [] ws.flatten = .ok [] ↔ _
          rw [ih]
          simp

/-! ## Level text -/

theorem Quiet.level {text : List Char} (h : Quiet text) : Level text := ⟨[], h, rfl⟩

theorem Level.append {a b : List Char} (ha : Level a) (hb : Level b) : Level (a ++ b) := by
  obtain ⟨w, hlex, hcount⟩ := ha
  obtain ⟨w', hlex', hcount'⟩ := hb
  refine ⟨w ++ w', hlex.append hlex', ?_⟩
  rw [List.countP_append, List.length_append]
  omega

/-- Between an opening and a closing bracket. -/
theorem Level.between {text : List Char} (h : Level text) {o c : Char}
    (ho : LexState.code.step o = some (.code, [o])) (hopen : isOpener o = true)
    (hc : LexState.code.step c = some (.code, [c])) (hclose : isOpener c = false) :
    Level (o :: text ++ [c]) := by
  obtain ⟨w, hlex, hcount⟩ := h
  refine ⟨[o] ++ (w ++ [c]), Lexes.cons ho (hlex.append (Lexes.cons hc (Lexes.nil _))), ?_⟩
  simp only [List.countP_append, List.countP_cons, List.countP_nil, hopen, hclose, List.length_append,
    List.length_cons, List.length_nil, if_true, Bool.false_eq_true, if_false]
  omega

theorem Level.parens {text : List Char} (h : Level text) : Level ('(' :: text ++ [')']) :=
  h.between rfl rfl rfl rfl

theorem Level.square {text : List Char} (h : Level text) : Level ('[' :: text ++ [']']) :=
  h.between rfl rfl rfl rfl

theorem Level.braces {text : List Char} (h : Level text) : Level ('{' :: text ++ ['}']) :=
  h.between rfl rfl rfl rfl

/-- Code is reached by a closing parenthesis from code only. -/
theorem eq_code_of_step_paren {st : LexState} {w : List Char} (h : st.step ')' = some (.code, w)) :
    st = .code ∧ w = [')'] := by
  cases st with
  | code => exact ⟨rfl, (Prod.mk.inj (Option.some.inj h)).2.symm⟩
  | quoted double => cases double <;> simp [LexState.step, quoteOf] at h
  | escaped _ | slash | block | star => simp [LexState.step] at h

/-- **A level text stays level without an outer pair of parentheses**, whether or not the two belong
together: the first character and the last are read as code. -/
theorem Level.of_parens {text : List Char} (h : Level ('(' :: text ++ [')'])) : Level text := by
  obtain ⟨w, hlex, hcount⟩ := h
  obtain ⟨st₁, w₁, w₂, hfirst, hrest, rfl⟩ := Lexes.cons_inv hlex
  obtain ⟨rfl, rfl⟩ := Prod.mk.inj (Option.some.inj hfirst)
  obtain ⟨st₂, w₃, w₄, htext, hlast, rfl⟩ := Lexes.append_inv hrest
  obtain ⟨st₃, w₅, w₆, hstep, hnil, rfl⟩ := Lexes.cons_inv hlast
  obtain ⟨rfl, rfl⟩ := Prod.mk.inj (Option.some.inj hnil)
  obtain ⟨rfl, rfl⟩ := eq_code_of_step_paren hstep
  refine ⟨w₃, htext, ?_⟩
  have hopen : isOpener '(' = true := rfl
  have hclose : isOpener ')' = false := rfl
  simp only [List.countP_append, List.countP_cons, List.countP_nil, hopen, hclose, List.length_append,
    List.length_cons, List.length_nil, if_true, Bool.false_eq_true, if_false] at hcount
  omega

/-! ## Texts joined -/

/-- What holds of texts and of the separator holds of the texts joined, if it holds of no text and of
texts one after another. -/
theorem joinWith_of_append {P : List Char → Prop} (hnil : P [])
    (happend : ∀ {a b}, P a → P b → P (a ++ b)) {sep : List Char} (hsep : P sep) :
    ∀ {texts : List (List Char)}, (∀ t ∈ texts, P t) → P (Text.joinWith sep texts)
  | [], _ => hnil
  | [t], h => h t List.mem_cons_self
  | t :: _ :: _, h =>
      happend (happend (h t List.mem_cons_self) hsep)
        (joinWith_of_append hnil happend hsep fun v hv => h v (List.mem_cons_of_mem t hv))

/-- The same for texts made from items. -/
theorem flatMap_of_append {α : Type} {P : List Char → Prop} (hnil : P [])
    (happend : ∀ {a b}, P a → P b → P (a ++ b)) {f : α → List Char} :
    ∀ {items : List α}, (∀ x ∈ items, P (f x)) → P (items.flatMap f)
  | [], _ => hnil
  | x :: _, h => by
      rw [List.flatMap_cons]
      exact happend (h x List.mem_cons_self)
        (flatMap_of_append hnil happend fun y hy => h y (List.mem_cons_of_mem x hy))

theorem Closed.joinWith {sep : List Char} (hsep : Closed sep) {texts : List (List Char)}
    (h : ∀ t ∈ texts, Closed t) : Closed (Text.joinWith sep texts) :=
  joinWith_of_append Quiet.nil.closed Closed.append hsep h

end DecoderForge.Layout
