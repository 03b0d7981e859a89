import DecoderForge.Proofs.Json.Tokens
import DecoderForge.Proofs.Layout.Canonical

/-!
# DecoderForge — text whose lines are laid anew

A text whose lines neither end in blanks nor consist of them keeps its lines when it is formatted, whatever the
scanner makes of them: in a template they stay as they are, in code and in comments they are indented.  What may
change is the indentation and the line ends.  To JSON both are blanks.

## The architecture

* **`Tidy`** — text of such lines; kept by putting texts side by side and one below the other.
* **`Relaid`** — two texts with the same lines, save for the indentation and the line ends.
* **`Relaid.ofChars?_eq`** — they have the same JSON tokens.
* **`Leads.relaid`** — what the formatter makes of tidy text.
-/

namespace DecoderForge.Text

/-! ## Tidy text -/

/-- Text of one line that has something at both ends. -/
structure Trimmed (body : List Char) : Prop where
  first : body.head?.any (fun c => !isBlank c) = true
  last : body.getLast?.any (fun c => !isBlank c) = true
  single : '\n' ∉ body

/-- Lines with something at both ends, indented from the second one on. -/
inductive Tidy : List Char → Prop where
  | line {body : List Char} (h : Trimmed body) : Tidy body
  | lines {body front t : List Char} (h : Trimmed body) (hfront : Indents front) (ht : Tidy t) :
      Tidy (body ++ '\n' :: (front ++ t))

namespace Trimmed

variable {a b : List Char}

theorem ne_nil (h : Trimmed a) : a ≠ [] := by
  rintro rfl
  exact absurd h.first (by simp)

theorem append (ha : Trimmed a) {gap : List Char} (hgap : '\n' ∉ gap) (hb : Trimmed b) :
    Trimmed (a ++ (gap ++ b)) where
  first := by
    rw [List.head?_append_of_ne_nil _ ha.ne_nil]
    exact ha.first
  last := by
    rw [List.getLast?_append_of_ne_nil _ (by simp [hb.ne_nil]), List.getLast?_append_of_ne_nil _ hb.ne_nil]
    exact hb.last
  single h := by
    rcases List.mem_append.mp h with h | h
    · exact ha.single h
    · exact (List.mem_append.mp h).elim hgap hb.single

/-- Text without blanks. -/
theorem of_forall (hne : a ≠ []) (h : ∀ c ∈ a, isBlank c = false) : Trimmed a where
  first := by
    cases a with
    | nil => exact absurd rfl hne
    | cons c a => simpa using h c List.mem_cons_self
  last := by
    cases hlast : a.getLast? with
    | none => exact absurd (List.getLast?_eq_none_iff.mp hlast) hne
    | some c => simpa using h c (List.mem_of_getLast? hlast)
  single hmem := absurd (h _ hmem) (by decide)

/-- Text between two characters. -/
theorem between {first last : Char} (hfirst : isBlank first = false) (hlast : isBlank last = false)
    {text : List Char} (h : '\n' ∉ first :: text ++ [last]) : Trimmed (first :: text ++ [last]) where
  first := by simp [hfirst]
  last := by
    rw [List.getLast?_concat]
    simp [hlast]
  single := h

theorem trim_append (h : Trimmed a) {front : List Char} (hfront : Indents front) : trim (front ++ a) = a := by
  have htrim : trim a = a := by
    have hdrop : a.dropWhile isBlank = a := by
      cases a with
      | nil => rfl
      | cons c a => exact List.dropWhile_cons_of_neg (by simpa using h.first)
    unfold trim
    rw [hdrop]
    refine dropRightWhile_of_getLast? fun c hc => ?_
    have hlast := h.last
    rw [hc] at hlast
    simpa using hlast
  have hblanks := trim_blanks_append hfront.isBlank a
  rwa [htrim] at hblanks

/-- A carriage return at the end would be a blank. -/
theorem dropRightWhile_append (h : Trimmed a) (front : List Char) :
    dropRightWhile (· == '\r') (front ++ a) = front ++ a := by
  refine dropRightWhile_of_getLast? fun c hc => ?_
  rw [List.getLast?_append_of_ne_nil _ h.ne_nil] at hc
  have hlast := h.last
  rw [hc] at hlast
  rw [beq_eq_false_iff_ne]
  rintro rfl
  exact absurd hlast (by decide)

theorem dropReturn_append (h : Trimmed a) (front : List Char) : dropReturn (front ++ a) = front ++ a := by
  unfold dropReturn
  rw [List.getLast?_append_of_ne_nil _ h.ne_nil]
  split
  · next hreturn =>
    have hlast := h.last
    rw [beq_iff_eq.mp hreturn] at hlast
    exact absurd hlast (by decide)
  · rfl

end Trimmed

namespace Tidy

variable {a b : List Char}

/-- The begin of the first line. -/
theorem cons_line (ha : Trimmed a) {gap : List Char} (hgap : '\n' ∉ gap) (hb : Tidy b) :
    Tidy (a ++ (gap ++ b)) := by
  cases hb with
  | line hb => exact .line (ha.append hgap hb)
  | lines hb hfront ht =>
      rw [← List.append_assoc gap, ← List.append_assoc a]
      exact .lines (ha.append hgap hb) hfront ht

/-- One text beside the other. -/
theorem append (ha : Tidy a) (hb : Tidy b) : Tidy (a ++ b) := by
  induction ha with
  | line ha => exact cons_line ha List.not_mem_nil hb
  | lines ha hfront _ ih =>
      rw [List.append_assoc, List.cons_append, List.append_assoc]
      exact .lines ha hfront ih

/-- One text below the other. -/
theorem append_newline (ha : Tidy a) {front : List Char} (hfront : Indents front) (hb : Tidy b) :
    Tidy (a ++ '\n' :: (front ++ b)) := by
  induction ha with
  | line ha => exact .lines ha hfront hb
  | lines ha hfront' _ ih =>
      rw [List.append_assoc, List.cons_append, List.append_assoc]
      exact .lines ha hfront' ih

end Tidy

/-! ## Laid anew -/

/-- Two texts with the same lines, where the second has certain line ends.  Both may be indented from the second
line on. -/
inductive Relaid (newline : List Char) : List Char → List Char → Prop where
  | line (body : List Char) : Relaid newline body body
  | lines {body front front' s t : List Char} (hbody : '\n' ∉ body) (hfront : Indents front)
      (hfront' : Indents front') (h : Relaid newline s t) :
      Relaid newline (body ++ '\n' :: (front ++ s)) (body ++ newline ++ (front' ++ t))

namespace Relaid

/-- **The same JSON tokens.** -/
theorem ofChars?_eq {e : EndOfLine} {s t : List Char} (h : Relaid e.chars s t) :
    Json.Token.ofChars? t = Json.Token.ofChars? s := by
  have hblank {front : List Char} (hfront : Indents front) : ∀ c ∈ front, Json.Token.isBlank c = true := by
    intro c hc
    rcases hfront c hc with rfl | rfl <;> rfl
  induction h with
  | line body => rfl
  | @lines body front front' s t _ hfront hfront' _ ih =>
      have hend : Json.Token.ofChars? (body ++ e.chars ++ (front' ++ t))
          = (Json.Token.ofChars? body).bind fun ts => (Json.Token.ofChars? (front' ++ t)).map (ts ++ ·) := by
        cases e with
        | lf =>
            rw [EndOfLine.chars, List.append_assoc, List.singleton_append]
            exact Json.Token.ofChars?_append ⟨rfl, by decide⟩ body _
        | crlf =>
            rw [EndOfLine.chars, List.append_assoc]
            show Json.Token.ofChars? (body ++ '\r' :: '\n' :: (front' ++ t)) = _
            rw [Json.Token.ofChars?_append ⟨rfl, by decide⟩, Json.Token.ofChars?_blank rfl]
      rw [hend, Json.Token.ofChars?_append ⟨rfl, by decide⟩, Json.Token.ofChars?_blanks (hblank hfront'),
        Json.Token.ofChars?_blanks (hblank hfront), ih]

/-- What the first line begins with. -/
theorem of_append {newline pre s t : List Char} (hpre : '\n' ∉ pre) (h : Relaid newline (pre ++ s) t) :
    ∃ t', t = pre ++ t' ∧ Relaid newline s t' := by
  generalize hwhole : pre ++ s = whole at h
  cases h with
  | line body => exact ⟨s, hwhole.symm, .line s⟩
  | @lines body front front' u v hbody hfront hfront' h =>
      obtain ⟨body', rfl⟩ := prefix_of_append_cons hpre ⟨s, hwhole⟩
      rw [List.append_assoc] at hwhole
      obtain rfl := List.append_cancel_left hwhole
      refine ⟨body' ++ newline ++ (front' ++ v), by simp, .lines (fun hmem => ?_) hfront hfront' h⟩
      exact hbody (List.mem_append_right _ hmem)

/-- What the last line ends with. -/
theorem of_concat {newline s t : List Char} {c : Char} (hc : c ≠ '\n' ∧ c ≠ ' ' ∧ c ≠ '\t')
    (h : Relaid newline (s ++ [c]) t) : ∃ t', t = t' ++ [c] ∧ Relaid newline s t' := by
  generalize hwhole : s ++ [c] = whole at h
  induction h generalizing s with
  | line body => exact ⟨s, hwhole.symm, .line s⟩
  | @lines body front front' u v hbody hfront hfront' h ih =>
      -- the last line is not empty, since it ends with the character
      have hlast : ('\n' :: (front ++ u)).getLast? = some c := by
        have hlast := congrArg List.getLast? hwhole
        rw [List.getLast?_concat, List.getLast?_append_of_ne_nil _ (List.cons_ne_nil _ _)] at hlast
        exact hlast.symm
      have hu : u ≠ [] := by
        rintro rfl
        rw [List.append_nil] at hlast
        rcases List.mem_cons.mp (List.mem_of_getLast? hlast) with hnewline | hmem
        · exact absurd hnewline hc.1
        · exact absurd (hfront c hmem) (by simp [hc.2])
      rw [← List.cons_append, List.getLast?_append_of_ne_nil _ hu] at hlast
      obtain ⟨u', rfl⟩ := List.getLast?_eq_some_iff.mp hlast
      obtain ⟨t', rfl, ht⟩ := ih rfl
      have hs : s = body ++ '\n' :: (front ++ u') := by
        have hcancel : s ++ [c] = (body ++ '\n' :: (front ++ u')) ++ [c] := by simpa using hwhole
        exact List.append_cancel_right hcancel
      subst hs
      exact ⟨_, by simp, .lines hbody hfront hfront' ht⟩

end Relaid

end DecoderForge.Text

namespace DecoderForge.Layout

open Text

/-! ## Formatting -/

/-- What a run has written, each line with its line end. -/
def Progress.written (style : Style) (p : Progress) : List Char :=
  p.lines.reverse.flatMap (· ++ style.endOfLine.chars)

/-- A run that has just written a line that is not empty. -/
structure Progress.BehindLine (p : Progress) : Prop where
  blankRun : p.blankRun = false
  notEmpty : ∃ line rest, p.lines = line :: rest ∧ line ≠ []

/-- **A line with something at both ends keeps its text**, be it laid or left in a template. -/
theorem Adds.keeps {style : Style} {p p' : Progress} {front body : List Char} (hfront : Indents front)
    (hbody : Trimmed body) (h : Adds style.indentUnit p (front ++ body) p') :
    ∃ front', Indents front' ∧ p'.lines = (front' ++ body) :: p.lines ∧ p'.blankRun = false := by
  have hraw := hbody.dropRightWhile_append front
  cases h with
  | template hregion hscan => exact ⟨front, hfront, by rw [hraw], rfl⟩
  | empty hregion htrim hfirst =>
      rw [hraw, hbody.trim_append hfront] at htrim
      exact absurd htrim hbody.ne_nil
  | skipped hregion htrim hfirst =>
      rw [hraw, hbody.trim_append hfront] at htrim
      exact absurd htrim hbody.ne_nil
  | laid hregion htrim hscan =>
      obtain ⟨front', hlaid, hfront'⟩ := layLine_eq style p.scanner body
      refine ⟨front', hfront', ?_, rfl⟩
      rw [hraw, hbody.trim_append hfront, hlaid]

/-- **Tidy text is laid anew.** -/
theorem Leads.relaid {style : Style} {t : List Char} (ht : Tidy t) {p p' : Progress} {front : List Char}
    (hfront : Indents front)
    (h : Leads style.indentUnit p ((splitAt '\n' (front ++ t)).map dropReturn) p') :
    ∃ front' t', Indents front' ∧ Relaid style.endOfLine.chars t t' ∧ p'.BehindLine
      ∧ p'.written style = p.written style ++ (front' ++ t' ++ style.endOfLine.chars) := by
  induction ht generalizing p front with
  | @line body hbody =>
      have hsingle : '\n' ∉ front ++ body := fun hmem =>
        (List.mem_append.mp hmem).elim hfront.single hbody.single
      rw [splitAt_of_notMem hsingle, List.map_cons, hbody.dropReturn_append] at h
      obtain _ | ⟨hline, ⟨⟩⟩ := h
      obtain ⟨front', hfront', hlines, hrun⟩ := hline.keeps hfront hbody
      refine ⟨front', body, hfront', .line body, ⟨hrun, _, _, hlines, by simp [hbody.ne_nil]⟩, ?_⟩
      simp [Progress.written, hlines]
  | @lines body front₁ t hbody hfront₁ _ ih =>
      have hsingle : '\n' ∉ front ++ body := fun hmem =>
        (List.mem_append.mp hmem).elim hfront.single hbody.single
      rw [← List.append_assoc, splitAt_append_sep _ hsingle, List.map_cons, hbody.dropReturn_append] at h
      obtain _ | ⟨hline, hrest⟩ := h
      obtain ⟨front', hfront', hlines, -⟩ := hline.keeps hfront hbody
      obtain ⟨front'', t', hfront'', hrelaid, hbehind, hwritten⟩ := ih hfront₁ hrest
      refine ⟨front', body ++ style.endOfLine.chars ++ (front'' ++ t'), hfront',
        .lines hbody.single hfront₁ hfront'' hrelaid, hbehind, ?_⟩
      rw [hwritten]
      simp [Progress.written, hlines]

/-- An empty line behind one that is not empty stays. -/
theorem Adds.written_empty {style : Style} {p p' : Progress} (hp : p.BehindLine)
    (h : Adds style.indentUnit p [] p') : p'.written style = p.written style ++ style.endOfLine.chars := by
  obtain ⟨hrun, line, rest, hlines, -⟩ := hp
  cases h with
  | template hregion hscan => simp [Progress.written, dropRightWhile]
  | empty hregion htrim hfirst => simp [Progress.written]
  | skipped hregion htrim hfirst => exact absurd hfirst (by simp [hrun, hlines])
  | laid hregion htrim hscan => exact absurd rfl htrim

/-- What is written stays in front. -/
theorem Leads.written_prefix {unit : List Char} {p p' : Progress} {source : List (List Char)}
    (h : Leads unit p source p') : ∃ new, p'.lines = new ++ p.lines := by
  induction h with
  | nil => exact ⟨[], rfl⟩
  | @cons p p₁ p' raw rest hline _ ih =>
      obtain ⟨new, hnew⟩ := ih
      have hadd : ∃ new, p₁.lines = new ++ p.lines := by
        cases hline with
        | template => exact ⟨[_], rfl⟩
        | empty => exact ⟨[_], rfl⟩
        | skipped => exact ⟨[], rfl⟩
        | laid => exact ⟨[_], rfl⟩
      obtain ⟨more, hmore⟩ := hadd
      exact ⟨new ++ more, by rw [hnew, hmore, List.append_assoc]⟩

/-- **The text begins with what was written up to a line that is not empty.** -/
theorem Leads.text_eq {style : Style} {p p' : Progress} {source : List (List Char)}
    (h : Leads style.indentUnit p source p') (hp : p.BehindLine) :
    ∃ after, p'.text style = p.written style ++ after := by
  obtain ⟨new, hnew⟩ := h.written_prefix
  obtain ⟨-, line, rest, hlines, hline⟩ := hp
  -- empty lines are left out at the end only, behind the line that is not empty
  have hdrop (new : List (List Char)) :
      (new ++ p.lines).dropWhile List.isEmpty = new.dropWhile List.isEmpty ++ p.lines := by
    induction new with
    | nil =>
        rw [List.nil_append, hlines, List.dropWhile_cons_of_neg (by simpa using hline)]
        rfl
    | cons l new ih =>
        cases hl : l.isEmpty with
        | true => simp [hl, ih]
        | false => simp [hl]
  refine ⟨(new.dropWhile List.isEmpty).reverse.flatMap (· ++ style.endOfLine.chars), ?_⟩
  unfold Progress.text Progress.written
  rw [hnew, hdrop, List.reverse_append, joinWith_append_sep _ (by simp [hlines]), List.flatMap_append]

end DecoderForge.Layout
