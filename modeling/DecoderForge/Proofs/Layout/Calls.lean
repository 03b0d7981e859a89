import DecoderForge.Layout.Writer
import DecoderForge.Proofs.Layout.Brackets

/-!
# DecoderForge — reading what calls write

A call writes a line behind some indentation.  Between two calls the text is code with certain
brackets open, so that indentation does not matter and calls can be read one after another.

## The architecture

* **`Takes`** — a text read as code takes one list of open brackets to another.
* **`Takes.under`** — a text is read under more open brackets as under fewer.
* **`TakesAll`** — calls read one after another.
* **`Written`** — the texts that calls can write, at whatever level.
* **`takes_of_written`** — what calls write is read as the calls are.
-/

namespace DecoderForge.Layout

/-! ## Texts -/

/-- Text that leads from code to code and takes the open brackets from one list to another. -/
def Takes (stack text stack' : List Char) : Prop :=
  (LexState.code.reader stack).run text = .ok (LexState.code.reader stack')

theorem Takes.nil (stack : List Char) : Takes stack [] stack := rfl

theorem Takes.append {stack stack₁ stack₂ a b : List Char} (ha : Takes stack a stack₁)
    (hb : Takes stack₁ b stack₂) : Takes stack (a ++ b) stack₂ := by
  unfold Takes at *
  rw [Reader.run_append_ok ha, hb]

/-- Text that lexes, by its brackets. -/
theorem takes_of_lexes {text w stack stack' : List Char} (h : Lexes .code text .code w)
    (hsettle : settle stack w = .ok stack') : Takes stack text stack' := by
  unfold Takes
  rw [run_of_lexes h, hsettle]
  rfl

theorem Closed.takes {text : List Char} (h : Closed text) (stack : List Char) : Takes stack text stack := by
  obtain ⟨w, hlex, hsettle⟩ := h
  exact takes_of_lexes hlex (hsettle stack)

theorem takes_blanks {text : List Char} (h : ∀ c ∈ text, Text.isBlank c = true) (stack : List Char) :
    Takes stack text stack := takes_of_lexes (lexes_blanks (Or.inl rfl) h) (settle_nil stack)

theorem takes_newline (stack : List Char) : Takes stack ['\n'] stack := takes_blanks (by decide) stack

/-! ## More brackets -/

namespace Scanner

/-- The same scanner with more brackets open outside. -/
def under (s : Scanner) (more : List Bracket) : Scanner := { s with brackets := s.brackets ++ more }

/-- The same move. -/
def Move.under (more : List Bracket) : Move → Move
  | .fail f => .fail f
  | .endLine => .endLine
  | .one s => .one (s.under more)
  | .two s => .two (s.under more)

/-- A closing bracket that fits does so whatever is open outside. -/
theorem moveCode_under {s : Scanner} {c : Char} {next : Option Char} {more : List Bracket}
    (h : ∀ f, s.moveCode c next ≠ .fail f) :
    (s.under more).moveCode c next = (s.moveCode c next).under more := by
  unfold moveCode at h ⊢
  split_ifs at h ⊢
  all_goals try rfl
  -- a closing bracket, a curly one or another
  all_goals
    obtain ⟨regions, brackets⟩ := s
    rcases brackets with _ | ⟨o | _, rest⟩
    · exact absurd rfl (h _)
    · simp only [under, List.cons_append] at h ⊢
      by_cases ho : (o == opener c) = true
      · rw [if_pos ho, if_pos ho]
        rfl
      · exact absurd (if_neg ho) (h _)
    · rfl

theorem move_under {s : Scanner} {c : Char} {next : Option Char} {more : List Bracket}
    (h : ∀ f, s.move c next ≠ .fail f) : (s.under more).move c next = (s.move c next).under more := by
  have hregion : (s.under more).region = s.region := rfl
  unfold move at h ⊢
  rw [hregion]
  cases hs : s.region with
  | code =>
      rw [hs] at h
      exact moveCode_under h
  | single | double =>
      unfold moveString
      split_ifs <;> rfl
  | template =>
      unfold moveTemplate
      split_ifs <;> rfl
  | block =>
      unfold moveBlock
      split_ifs <;> rfl

end Scanner

namespace Reader

/-- The same reader with more brackets open outside. -/
def under (r : Reader) (more : List Bracket) : Reader := ⟨r.scanner.under more, r.pending⟩

theorem first_under {s : Scanner} {c : Char} {r : Reader} {more : List Bracket} (h : first s c = .ok r) :
    first (s.under more) c = .ok (r.under more) := by
  have hmove : (s.under more).move c none = (s.move c none).under more := by
    refine Scanner.move_under fun f hf => ?_
    simp only [first, hf] at h
    exact absurd h (by simp)
  have hleft : ∀ c, left (s.under more) c = left s c := fun _ => rfl
  unfold first at h ⊢
  rw [hmove]
  cases hm : s.move c none with
  | fail f => simp [hm] at h
  | endLine | one s' | two s' =>
      simp only [hm, Except.ok.injEq] at h
      subst h
      rfl

theorem step_under {r r' : Reader} {c : Char} {more : List Bracket} (h : r.step c = .ok r') :
    (r.under more).step c = .ok (r'.under more) := by
  obtain ⟨s, pending⟩ := r
  cases pending with
  | nothing => exact first_under h
  | slash =>
      simp only [step, under] at h ⊢
      split_ifs at h ⊢
      · obtain rfl := Except.ok.inj h
        rfl
      · obtain rfl := Except.ok.inj h
        rfl
      · exact first_under h
  | star =>
      simp only [step, under] at h ⊢
      split_ifs at h ⊢
      · obtain rfl := Except.ok.inj h
        rfl
      · exact first_under h
  | dollar =>
      simp only [step, under] at h ⊢
      split_ifs at h ⊢
      · obtain rfl := Except.ok.inj h
        rfl
      · exact first_under h
  | escape | comment =>
      obtain rfl := Except.ok.inj h
      rfl

theorem next_under {r r' : Reader} {c : Char} {more : List Bracket} (h : r.next c = .ok r') :
    (r.under more).next c = .ok (r'.under more) := by
  unfold next at h ⊢
  split_ifs at h ⊢
  · have hregion : (r.under more).scanner.region = r.scanner.region := rfl
    unfold endLine at h ⊢
    rw [hregion]
    cases hs : r.scanner.region with
    | single | double => simp [hs] at h
    | code | template | block =>
        simp only [hs, Except.ok.injEq] at h
        subst h
        rfl
  · exact step_under h

/-- **A text that is read is read under more brackets, too.** -/
theorem run_under {more : List Bracket} : ∀ {text : List Char} {r r' : Reader}, r.run text = .ok r' →
    (r.under more).run text = .ok (r'.under more)
  | [], r, r', h => by
      obtain rfl := Except.ok.inj h
      rfl
  | c :: text, r, r', h => by
      rw [run_cons] at h ⊢
      cases hnext : r.next c with
      | error f =>
          rw [hnext] at h
          exact absurd h (by simp [Except.bind])
      | ok r₁ =>
          rw [hnext] at h
          rw [next_under hnext]
          exact run_under h

end Reader

theorem Takes.under {stack text stack' : List Char} (h : Takes stack text stack') (more : List Char) :
    Takes (stack ++ more) text (stack' ++ more) := by
  have hreader : ∀ stack : List Char, (LexState.code.reader stack).under (more.map Bracket.opened)
      = LexState.code.reader (stack ++ more) := by
    intro stack
    simp [LexState.reader, Reader.under, Reader.fresh, Scanner.under]
  unfold Takes at *
  rw [← hreader, ← hreader]
  exact Reader.run_under h

/-! ## Calls -/

/-- What a call writes behind the indentation. -/
def Call.body : Call → List Char
  | .line s | .opening s | .closing s | .reopening s => s.toList ++ ['\n']
  | .blank => ['\n']
  | .raw s => if s.isEmpty || s.endsWith "\n" then s.toList else s.toList ++ ['\n']

/-- Calls read one after another, with code in between. -/
inductive TakesAll : List Char → List Call → List Char → Prop where
  | nil (stack : List Char) : TakesAll stack [] stack
  | cons {stack stack₁ stack₂ : List Char} {c : Call} {calls : List Call}
      (hc : Takes stack c.body stack₁) (h : TakesAll stack₁ calls stack₂) :
      TakesAll stack (c :: calls) stack₂

namespace TakesAll

theorem append {stack stack₁ stack₂ : List Char} {a b : List Call} (ha : TakesAll stack a stack₁)
    (hb : TakesAll stack₁ b stack₂) : TakesAll stack (a ++ b) stack₂ := by
  induction ha with
  | nil => exact hb
  | cons hc _ ih => exact .cons hc (ih hb)

theorem single {stack stack₁ : List Char} {c : Call} (hc : Takes stack c.body stack₁) :
    TakesAll stack [c] stack₁ := .cons hc (.nil _)

/-- Calls that leave the open brackets as they are. -/
theorem ofForall {stack : List Char} : ∀ {calls : List Call}, (∀ c ∈ calls, Takes stack c.body stack) →
    TakesAll stack calls stack
  | [], _ => .nil stack
  | c :: _, h => .cons (h c List.mem_cons_self) (ofForall fun d hd => h d (List.mem_cons_of_mem c hd))

end TakesAll

/-! ## Writing -/

/-- The texts that calls can write: each behind blanks. -/
inductive Written : List Call → List Char → Prop where
  | nil : Written [] []
  | cons {blanks text : List Char} {c : Call} {calls : List Call}
      (hblanks : ∀ b ∈ blanks, Text.isBlank b = true) (h : Written calls text) :
      Written (c :: calls) (blanks ++ c.body ++ text)

/-- **What calls write is read as the calls are.** -/
theorem takes_of_written {stack stack' text : List Char} {calls : List Call} (hw : Written calls text)
    (h : TakesAll stack calls stack') : Takes stack text stack' := by
  induction hw generalizing stack with
  | nil =>
      cases h with
      | nil => exact Takes.nil _
  | cons hblanks _ ih =>
      cases h with
      | cons hc h => exact ((takes_blanks hblanks stack).append hc).append (ih h)

/-- What calls write can be taken apart with the calls. -/
theorem written_append_inv {text : List Char} {a b : List Call} (h : Written (a ++ b) text) :
    ∃ ta tb, text = ta ++ tb ∧ Written a ta ∧ Written b tb := by
  induction a generalizing text with
  | nil => exact ⟨[], text, rfl, .nil, h⟩
  | cons c a ih =>
      cases h with
      | cons hblanks h =>
          obtain ⟨ta, tb, rfl, ha, hb⟩ := ih h
          exact ⟨_, tb, (List.append_assoc _ _ _).symm, .cons hblanks ha, hb⟩

/-- The indentation of a level is blank if one level is. -/
theorem blank_indentation {indent : String} (h : ∀ b ∈ indent.toList, Text.isBlank b = true) :
    ∀ depth : Nat, ∀ b ∈ (Writer.indentation indent depth).toList, Text.isBlank b = true
  | 0 => by simp [Writer.indentation]
  | depth + 1 => by
      rw [Writer.indentation, String.toList_append]
      intro b hb
      exact (List.mem_append.mp hb).elim (h b) (blank_indentation h depth b)

/-- A line, behind blanks. -/
theorem writeLine_text (w : Writer) (h : ∀ b ∈ w.indent.toList, Text.isBlank b = true) (s : String) :
    (w.writeLine s).indent = w.indent ∧ ∃ blanks, (∀ b ∈ blanks, Text.isBlank b = true)
      ∧ (w.writeLine s).text.toList = w.text.toList ++ (blanks ++ (s.toList ++ ['\n'])) := by
  unfold Writer.writeLine
  split
  · next hempty =>
      obtain rfl := String.isEmpty_iff.mp hempty
      exact ⟨rfl, [], by simp, by simp [String.toList_append]⟩
  · exact ⟨rfl, _, blank_indentation h w.depth, by simp [String.toList_append]⟩

/-- A call, behind blanks. -/
theorem step_text (w : Writer) (h : ∀ b ∈ w.indent.toList, Text.isBlank b = true) (c : Call) :
    (w.step c).indent = w.indent ∧ ∃ blanks, (∀ b ∈ blanks, Text.isBlank b = true)
      ∧ (w.step c).text.toList = w.text.toList ++ (blanks ++ c.body) := by
  cases c with
  | line s => exact writeLine_text w h s
  | opening s => exact writeLine_text w h s
  | closing s => exact writeLine_text w.shallower h s
  | reopening s => exact writeLine_text w.shallower h s
  | blank => exact ⟨rfl, [], by simp, by simp [Writer.step, Call.body, String.toList_append]⟩
  | raw s =>
      refine ⟨?_, [], by simp, ?_⟩
      · unfold Writer.step
        simp only
        split <;> rfl
      · unfold Writer.step Call.body
        simp only
        split <;> simp [String.toList_append]

/-- **What a list of calls adds to a text is what these calls can write.** -/
theorem run_text : ∀ (calls : List Call) (w : Writer), (∀ b ∈ w.indent.toList, Text.isBlank b = true) →
    ∃ text, (w.run calls).text.toList = w.text.toList ++ text ∧ Written calls text
  | [], w, _ => ⟨[], by simp [Writer.run], .nil⟩
  | c :: calls, w, h => by
      obtain ⟨hindent, blanks, hblanks, hstep⟩ := step_text w h c
      obtain ⟨text, htext, hwritten⟩ := run_text calls (w.step c) (by rwa [hindent])
      refine ⟨blanks ++ c.body ++ text, ?_, .cons hblanks hwritten⟩
      show ((w.step c).run calls).text.toList = _
      rw [htext, hstep]
      simp

theorem written_render {indent : String} (h : ∀ b ∈ indent.toList, Text.isBlank b = true)
    (calls : List Call) : Written calls (render indent calls).toList := by
  obtain ⟨text, htext, hwritten⟩ := run_text calls ⟨indent, 0, ""⟩ h
  have hrender : (render indent calls).toList = text := htext
  rwa [hrender]

end DecoderForge.Layout
