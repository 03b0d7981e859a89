import DecoderForge.Layout.Writer
import DecoderForge.Proofs.Text.Delimited

/-!
# DecoderForge — calls are read off their text

Indentation only adds blanks in front of lines.  Where the first and the last character of every line say
which levels the line closes and opens, the calls can be read off the text that they write.

## The architecture

* **`layOut`** — the text of calls from a level on.
* **`Call.IsClear`** — a line whose ends show the call.
* **`render_append_injective`** — clear calls with the same text are the same, behind whatever stands before them.
-/

namespace DecoderForge.Layout

/-! ## Text of calls -/

/-- The indentation and the text of a call at a level; an empty line has none. -/
def Call.written (indent : String) (depth : Nat) : Call → List Char
  | .line s | .opening s =>
    if s.isEmpty then [] else (Writer.indentation indent depth).toList ++ s.toList
  | .closing s | .reopening s =>
    if s.isEmpty then [] else (Writer.indentation indent (depth - 1)).toList ++ s.toList
  | .blank | .raw _ => []

/-- The level behind a call. -/
def Call.behind (depth : Nat) : Call → Nat
  | .line _ | .blank | .raw _ => depth
  | .opening _ => depth + 1
  | .closing _ => depth - 1
  | .reopening _ => depth - 1 + 1

/-- The text of calls from a level on. -/
def layOut (indent : String) : Nat → List Call → List Char
  | _, [] => []
  | depth, c :: rest => c.written indent depth ++ '\n' :: layOut indent (c.behind depth) rest

/-- Calls that are no foreign text. -/
def Call.isOwn : Call → Bool
  | .raw _ => false
  | _ => true

/-- A call writes its line. -/
theorem step_written (w : Writer) {c : Call} (hown : c.isOwn = true) :
    (w.step c).indent = w.indent ∧ (w.step c).depth = c.behind w.depth
      ∧ (w.step c).text.toList = w.text.toList ++ (c.written w.indent w.depth ++ ['\n']) := by
  have hline (w : Writer) (s : String) : (w.writeLine s).indent = w.indent
      ∧ (w.writeLine s).depth = w.depth ∧ (w.writeLine s).text.toList = w.text.toList
        ++ ((if s.isEmpty then [] else (Writer.indentation w.indent w.depth).toList ++ s.toList)
          ++ ['\n']) := by
    unfold Writer.writeLine
    split
    · exact ⟨rfl, rfl, by simp [String.toList_append]⟩
    · exact ⟨rfl, rfl, by simp [String.toList_append]⟩
  cases c with
  | line s => exact hline w s
  | opening s =>
      obtain ⟨hindent, hdepth, htext⟩ := hline w s
      exact ⟨hindent, congrArg (· + 1) hdepth, htext⟩
  | closing s => exact hline w.shallower s
  | reopening s =>
      obtain ⟨hindent, hdepth, htext⟩ := hline w.shallower s
      exact ⟨hindent, congrArg (· + 1) hdepth, htext⟩
  | blank => exact ⟨rfl, rfl, by simp [Writer.step, Call.written, String.toList_append]⟩
  | raw s => exact absurd hown (by simp [Call.isOwn])

theorem run_layOut : ∀ (calls : List Call) (w : Writer), (∀ c ∈ calls, c.isOwn = true) →
    (w.run calls).text.toList = w.text.toList ++ layOut w.indent w.depth calls
  | [], w, _ => by simp [Writer.run, layOut]
  | c :: rest, w, h => by
      obtain ⟨hindent, hdepth, htext⟩ := step_written w (h c List.mem_cons_self)
      have ih := run_layOut rest (w.step c) fun d hd => h d (List.mem_cons_of_mem c hd)
      show ((w.step c).run rest).text.toList = _
      rw [ih, htext, hindent, hdepth]
      simp [layOut]

/-- **The text of calls** that hold no foreign text. -/
theorem render_toList {indent : String} {calls : List Call} (h : ∀ c ∈ calls, c.isOwn = true) :
    (render indent calls).toList = layOut indent 0 calls := by
  have hrun := run_layOut calls ⟨indent, 0, ""⟩ h
  simpa [render] using hrun

/-! ## Clear calls -/

/-- Text of one line that is not indented further. -/
structure IsLine (text : List Char) : Prop where
  nonempty : text ≠ []
  unindented : text.head? ≠ some ' '
  single : '\n' ∉ text

/-- Whether a line closes a level. -/
def closesLevel (text : List Char) : Bool := text.head? == some '}'

/-- Whether a line opens a level. -/
def opensLevel (text : List Char) : Bool := text.getLast? == some '{'

/-- The levels that a call closes and opens. -/
def Call.levels : Call → Bool × Bool
  | .line _ | .blank | .raw _ => (false, false)
  | .opening _ => (false, true)
  | .closing _ => (true, false)
  | .reopening _ => (true, true)

/-- The text of a call. -/
def Call.text : Call → List Char
  | .line s | .opening s | .closing s | .reopening s | .raw s => s.toList
  | .blank => []

/-- A call that the two ends of its line show. -/
def Call.IsClear (c : Call) : Prop :=
  c = .blank ∨ (c.isOwn = true ∧ IsLine c.text ∧ c.levels = (closesLevel c.text, opensLevel c.text))

theorem Call.IsClear.isOwn {c : Call} (h : c.IsClear) : c.isOwn = true := by
  rcases h with rfl | ⟨h, -⟩
  · rfl
  · exact h

/-- A call that is not blank writes its text behind blanks. -/
theorem written_of_isLine (depth : Nat) {c : Call} (hown : c.isOwn = true) (hline : IsLine c.text) :
    ∃ n, c.written "  " depth = List.replicate n ' ' ++ c.text := by
  have hindentation : ∀ depth, (Writer.indentation "  " depth).toList = List.replicate (2 * depth) ' ' := by
    intro depth
    induction depth with
    | zero => rfl
    | succ depth ih =>
        rw [Writer.indentation, String.toList_append, ih]
        rfl
  have hempty {s : String} (h : s.toList ≠ []) : s.isEmpty = false := by
    rw [Bool.eq_false_iff]
    intro hs
    exact h (by rw [String.isEmpty_iff.mp hs]; rfl)
  cases c with
  | line s | opening s =>
      refine ⟨2 * depth, ?_⟩
      rw [← hindentation, Call.written, hempty hline.nonempty]
      rfl
  | closing s | reopening s =>
      refine ⟨2 * (depth - 1), ?_⟩
      rw [← hindentation, Call.written, hempty hline.nonempty]
      rfl
  | blank => exact absurd rfl hline.nonempty
  | raw s => exact absurd hown (by simp [Call.isOwn])

/-- Blanks in front of a line can be told from the line. -/
theorem text_eq_of_blanks {n m : Nat} {a b : List Char} (ha : IsLine a) (hb : IsLine b)
    (h : List.replicate n ' ' ++ a = List.replicate m ' ' ++ b) : a = b := by
  have hdrop {n : Nat} {a : List Char} (ha : IsLine a) :
      (List.replicate n ' ' ++ a).dropWhile (· == ' ') = a := by
    rw [List.dropWhile_append_of_pos (by simp)]
    cases a with
    | nil => exact absurd rfl ha.nonempty
    | cons c rest =>
        have hc : (c == ' ') = false := by
          rw [beq_eq_false_iff_ne]
          rintro rfl
          exact ha.unindented rfl
        rw [List.dropWhile_cons, hc]
        rfl
  rw [← hdrop ha, h, hdrop hb]

/-- The levels give the kind of a call, the text its argument. -/
theorem eq_of_text_of_levels {c d : Call} (hc : c.isOwn = true) (hd : d.isOwn = true) (hne : c.text ≠ [])
    (htext : c.text = d.text) (hlevels : c.levels = d.levels) : c = d := by
  cases c <;> cases d <;>
    simp_all [Call.text, Call.levels, Call.isOwn, String.toList_inj]

/-- **A clear call is read off its line.** -/
theorem Call.IsClear.eq_of_written {depth : Nat} {c d : Call} (hc : c.IsClear) (hd : d.IsClear)
    (h : c.written "  " depth = d.written "  " depth) : c = d := by
  have hblank {c : Call} (hown : c.isOwn = true) (hline : IsLine c.text) : c.written "  " depth ≠ [] := by
    obtain ⟨n, hn⟩ := written_of_isLine depth hown hline
    rw [hn]
    simp [hline.nonempty]
  rcases hc with rfl | ⟨hcown, hcline, hclevels⟩ <;> rcases hd with rfl | ⟨hdown, hdline, hdlevels⟩
  · rfl
  · exact absurd h.symm (hblank hdown hdline)
  · exact absurd h (hblank hcown hcline)
  · obtain ⟨n, hn⟩ := written_of_isLine depth hcown hcline
    obtain ⟨m, hm⟩ := written_of_isLine depth hdown hdline
    have htext : c.text = d.text := text_eq_of_blanks hcline hdline (by rw [← hn, h, hm])
    have hlevels : c.levels = d.levels := by rw [hclevels, hdlevels, htext]
    exact eq_of_text_of_levels hcown hdown hcline.nonempty htext hlevels

/-- The line of a clear call has no line end inside. -/
theorem Call.IsClear.single {depth : Nat} {c : Call} (hc : c.IsClear) : '\n' ∉ c.written "  " depth := by
  rcases hc with rfl | ⟨hown, hline, -⟩
  · simp [Call.written]
  · obtain ⟨n, hn⟩ := written_of_isLine depth hown hline
    rw [hn, List.mem_append]
    rintro (h | h)
    · exact absurd (List.eq_of_mem_replicate h) (by decide)
    · exact hline.single h

theorem layOut_injective : ∀ {a b : List Call} (depth : Nat), (∀ c ∈ a, c.IsClear) → (∀ c ∈ b, c.IsClear) →
    layOut "  " depth a = layOut "  " depth b → a = b
  | [], [], _, _, _, _ => rfl
  | [], d :: b, _, _, _, h => by simp [layOut] at h
  | c :: a, [], _, _, _, h => by simp [layOut] at h
  | c :: a, d :: b, depth, ha, hb, h => by
      have hc := ha c List.mem_cons_self
      have hd := hb d List.mem_cons_self
      obtain ⟨hwritten, hrest⟩ := Text.append_cons_inj hc.single hd.single h
      obtain rfl := hc.eq_of_written hd hwritten
      rw [layOut_injective _ (fun e he => ha e (List.mem_cons_of_mem c he))
        (fun e he => hb e (List.mem_cons_of_mem c he)) hrest]

theorem layOut_append (indent : String) : ∀ (depth : Nat) (a b : List Call), layOut indent depth (a ++ b)
    = layOut indent depth a ++ layOut indent (a.foldl Call.behind depth) b
  | _, [], _ => rfl
  | depth, c :: a, b => by
      rw [List.cons_append, layOut, layOut, layOut_append indent _ a b, List.foldl_cons]
      simp

/-- **Clear calls behind the same calls are the same** where the text is. -/
theorem render_append_injective {front a b : List Call} (hfront : ∀ c ∈ front, c.isOwn = true)
    (ha : ∀ c ∈ a, c.IsClear) (hb : ∀ c ∈ b, c.IsClear)
    (h : render "  " (front ++ a) = render "  " (front ++ b)) : a = b := by
  have hlaid {rest : List Call} (hrest : ∀ c ∈ rest, c.IsClear) : (render "  " (front ++ rest)).toList
      = layOut "  " 0 front ++ layOut "  " (front.foldl Call.behind 0) rest := by
    rw [render_toList (List.forall_mem_append.mpr ⟨hfront, fun c hc => (hrest c hc).isOwn⟩), layOut_append]
  have htext := congrArg String.toList h
  rw [hlaid ha, hlaid hb] at htext
  exact layOut_injective _ ha hb (List.append_cancel_left htext)

end DecoderForge.Layout
