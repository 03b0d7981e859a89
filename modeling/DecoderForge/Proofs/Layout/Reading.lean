import DecoderForge.Layout.Scanner
import DecoderForge.Proofs.Text.Lines

/-!
# DecoderForge — the scanner as a reader of single characters

The scanner looks one character ahead.  Said the other way round, it reads one character at a time and
remembers when the last one may begin a pair.  Read like this a text can be taken apart anywhere, and
a line end is a character like any other.

## The architecture

* **`Reader`**, **`Reader.step`** — a scanner with what the last character left over, and one character.
* **`Scanner.advance_eq_read`**, **`Scanner.scan_eq_read`** — a line scanned is a line read.
* **`Reader.step_blank`** — a blank leaves the scanner as it is.
* **`Scanner.scan_trim`** — hence blanks at the ends of a line do not matter.
-/

namespace DecoderForge.Layout

/-- What a character leaves to the next. -/
inductive Pending where
  | nothing
  /-- A slash of code, which may begin a comment. -/
  | slash
  /-- A star in a comment, which may end it. -/
  | star
  /-- A dollar sign in a template, which may begin code. -/
  | dollar
  /-- A backslash: the next character means nothing. -/
  | escape
  /-- A line comment: the rest of the line means nothing. -/
  | comment
deriving DecidableEq, Repr

/-- A scanner between two characters. -/
structure Reader where
  scanner : Scanner
  pending : Pending
deriving DecidableEq, Repr

namespace Reader

/-- Nothing is left over. -/
def fresh (s : Scanner) : Reader := ⟨s, .nothing⟩

/-- What a character leaves over that does nothing by itself. -/
def left (s : Scanner) (c : Char) : Pending :=
  match s.region with
  | .code => if c == '/' then .slash else .nothing
  | .block => if c == '*' then .star else .nothing
  | .template => if c == '$' then .dollar else .nothing
  | .single | .double => .nothing

/-- A character to which nothing was left. -/
def first (s : Scanner) (c : Char) : Except LineFault Reader :=
  match s.move c none with
  | .fail f => .error f
  | .endLine => .ok ⟨s, .comment⟩
  | .one s' => .ok ⟨s', left s c⟩
  | .two s' => .ok ⟨s', .escape⟩

/-- A character. -/
def step (r : Reader) (c : Char) : Except LineFault Reader :=
  match r.pending with
  | .nothing => first r.scanner c
  | .slash =>
    if c == '/' then .ok ⟨r.scanner, .comment⟩
    else if c == '*' then .ok (fresh (r.scanner.enter .block))
    else first r.scanner c
  | .star => if c == '/' then .ok (fresh r.scanner.leave) else first r.scanner c
  | .dollar =>
    if c == '{' then .ok (fresh ⟨.code :: r.scanner.regions, .templateExpr :: r.scanner.brackets⟩)
    else first r.scanner c
  | .escape => .ok (fresh r.scanner)
  | .comment => .ok r

/-- The characters of a line. -/
def read (r : Reader) (line : List Char) : Except LineFault Reader := line.foldlM step r

/-- The end of a line: a string has to end on it. -/
def endLine (r : Reader) : Except LineFault Reader :=
  match r.scanner.region with
  | .single | .double => .error .unterminatedString
  | _ => .ok (fresh r.scanner)

theorem read_nil (r : Reader) : r.read [] = .ok r := rfl

theorem read_cons (r : Reader) (c : Char) (line : List Char) :
    r.read (c :: line) = (r.step c).bind fun r' => r'.read line := by
  unfold read
  rw [List.foldlM_cons]
  rfl

theorem read_append (r : Reader) (a b : List Char) :
    r.read (a ++ b) = (r.read a).bind fun r' => r'.read b := by
  unfold read
  rw [List.foldlM_append]
  rfl

/-- A character that can be read, and what is read from there. -/
theorem read_cons_of_step {r r' : Reader} {c : Char} (h : r.step c = .ok r') (line : List Char) :
    r.read (c :: line) = r'.read line := by
  rw [read_cons, h]
  rfl

/-- A text that can be read, and what is read from there. -/
theorem read_append_of_read {r r' : Reader} {a : List Char} (h : r.read a = .ok r') (b : List Char) :
    r.read (a ++ b) = r'.read b := by
  rw [read_append, h]
  rfl

/-- In a line comment nothing is read. -/
theorem read_comment (s : Scanner) : ∀ line : List Char, read ⟨s, .comment⟩ line = .ok ⟨s, .comment⟩
  | [] => rfl
  | c :: line => by
      rw [read_cons]
      exact read_comment s line

end Reader

/-! ## The scanner reads

A move with one character of lookahead is one step, or two steps that take a pair. -/

namespace Scanner

open Reader

/-- The scanner behind a move on the last character of a line. -/
theorem advance_singleton (s : Scanner) (c : Char) :
    s.advance [c] = ((fresh s).step c).map Reader.scanner := by
  show (match s.move c none with
    | .fail f => .error f
    | .endLine => .ok s
    | .one s' | .two s' => .ok s') = (first s c).map Reader.scanner
  unfold first
  cases s.move c none <;> rfl

/-- What one move does to two characters, by way of single steps. -/
inductive MoveReads (s : Scanner) (c d : Char) : Move → Prop where
  | fail {f : LineFault} (h : (fresh s).step c = .error f) : MoveReads s c d (.fail f)
  | endLine (h : (fresh s).read [c, d] = .ok ⟨s, .comment⟩) : MoveReads s c d .endLine
  | one {s' : Scanner} {p : Pending} (h : (fresh s).step c = .ok ⟨s', p⟩)
      (h' : step ⟨s', p⟩ d = (fresh s').step d) : MoveReads s c d (.one s')
  | two {s' : Scanner} (h : (fresh s).read [c, d] = .ok (fresh s')) : MoveReads s c d (.two s')

/-- Without a next character no line comment begins. -/
theorem move_none_ne_endLine (s : Scanner) (c : Char) : s.move c none ≠ .endLine := by
  have hcode : s.moveCode c none ≠ .endLine := by
    have h₁ : (c == '/' && (none : Option Char) == some '/') = false := by simp
    have h₂ : (c == '/' && (none : Option Char) == some '*') = false := by simp
    unfold moveCode
    rw [h₁, h₂]
    simp only [Bool.false_eq_true, if_false]
    repeat' split
    all_goals exact Move.noConfusion
  unfold move
  split
  · exact hcode
  · unfold moveString
    repeat' split
    all_goals exact Move.noConfusion
  · unfold moveString
    repeat' split
    all_goals exact Move.noConfusion
  · unfold moveTemplate
    repeat' split
    all_goals exact Move.noConfusion
  · unfold moveBlock
    repeat' split
    all_goals exact Move.noConfusion

/-- A move that the next character does not change is a single step.  What it leaves over must be nothing
to that character. -/
theorem moveReads_of_eq {s : Scanner} {c d : Char} (hsame : s.move c (some d) = s.move c none)
    (hleft : ∀ s', s.move c none = .one s' → step ⟨s', left s c⟩ d = (fresh s').step d) :
    MoveReads s c d (s.move c (some d)) := by
  have hfirst : (fresh s).step c = first s c := rfl
  rw [hsame]
  cases hmove : s.move c none with
  | fail f => exact .fail (by rw [hfirst, first, hmove])
  | endLine => exact absurd hmove (move_none_ne_endLine s c)
  | one s' => exact .one (by rw [hfirst, first, hmove]) (hleft s' hmove)
  | two s' =>
      refine .two ?_
      rw [read_cons, hfirst, first, hmove]
      rfl

/-- A move that leaves nothing over. -/
theorem moveReads_of_left {s : Scanner} {c d : Char} (hsame : s.move c (some d) = s.move c none)
    (hleft : left s c = .nothing) : MoveReads s c d (s.move c (some d)) :=
  moveReads_of_eq hsame fun _ _ => by rw [hleft]; rfl

/-- A move on a character of code. -/
theorem moveReads_code {s : Scanner} (hs : s.region = .code) (c d : Char) :
    MoveReads s c d (s.move c (some d)) := by
  have hmove : ∀ next, s.move c next = s.moveCode c next := fun next => by rw [move, hs]
  by_cases hc : c = '/'
  · subst hc
    have hleft : left s '/' = .slash := by rw [left, hs]; rfl
    have hone : s.move '/' none = .one s := by rw [hmove]; rfl
    have hstep : (fresh s).step '/' = .ok ⟨s, .slash⟩ := by
      show first s '/' = _
      rw [first, hone, hleft]
    by_cases hline : d = '/'
    · subst hline
      rw [hmove]
      refine .endLine ?_
      rw [read_cons, hstep]
      rfl
    · by_cases hblock : d = '*'
      · subst hblock
        rw [hmove]
        refine .two ?_
        rw [read_cons, hstep]
        rfl
      · refine moveReads_of_eq ?_ fun s' heq => ?_
        · rw [hmove, hmove]
          simp [moveCode, hline, hblock]
        · obtain rfl := Move.one.inj (hone.symm.trans heq)
          rw [hleft]
          simp [step, fresh, hline, hblock]
  · refine moveReads_of_left ?_ ?_
    · rw [hmove, hmove]
      simp [moveCode, hc]
    · rw [left, hs]
      simp [hc]

/-- A move on a character of a template. -/
theorem moveReads_template {s : Scanner} (hs : s.region = .template) (c d : Char) :
    MoveReads s c d (s.move c (some d)) := by
  have hmove : ∀ next, s.move c next = s.moveTemplate c next := fun next => by rw [move, hs]
  by_cases hc : c = '$'
  · subst hc
    have hleft : left s '$' = .dollar := by rw [left, hs]; rfl
    have hone : s.move '$' none = .one s := by rw [hmove]; rfl
    have hstep : (fresh s).step '$' = .ok ⟨s, .dollar⟩ := by
      show first s '$' = _
      rw [first, hone, hleft]
    by_cases hopen : d = '{'
    · subst hopen
      rw [hmove]
      refine .two ?_
      rw [read_cons, hstep]
      rfl
    · refine moveReads_of_eq ?_ fun s' heq => ?_
      · rw [hmove, hmove]
        simp [moveTemplate, hopen]
      · obtain rfl := Move.one.inj (hone.symm.trans heq)
        rw [hleft]
        simp [step, fresh, hopen]
  · refine moveReads_of_left ?_ ?_
    · rw [hmove, hmove]
      simp [moveTemplate, hc]
    · rw [left, hs]
      simp [hc]

/-- A move on a character of a comment. -/
theorem moveReads_block {s : Scanner} (hs : s.region = .block) (c d : Char) :
    MoveReads s c d (s.move c (some d)) := by
  have hmove : ∀ next, s.move c next = s.moveBlock c next := fun next => by rw [move, hs]
  by_cases hc : c = '*'
  · subst hc
    have hleft : left s '*' = .star := by rw [left, hs]; rfl
    have hone : s.move '*' none = .one s := by rw [hmove]; rfl
    have hstep : (fresh s).step '*' = .ok ⟨s, .star⟩ := by
      show first s '*' = _
      rw [first, hone, hleft]
    by_cases hclose : d = '/'
    · subst hclose
      rw [hmove]
      refine .two ?_
      rw [read_cons, hstep]
      rfl
    · refine moveReads_of_eq ?_ fun s' heq => ?_
      · rw [hmove, hmove]
        simp [moveBlock, hclose]
      · obtain rfl := Move.one.inj (hone.symm.trans heq)
        rw [hleft]
        simp [step, fresh, hclose]
  · refine moveReads_of_left ?_ ?_
    · rw [hmove, hmove]
      simp [moveBlock, hc]
    · rw [left, hs]
      simp [hc]

/-- **Every move is read by single steps.**  In a string the next character plays no part. -/
theorem moveReads (s : Scanner) (c d : Char) : MoveReads s c d (s.move c (some d)) := by
  cases hs : s.region with
  | code => exact moveReads_code hs c d
  | template => exact moveReads_template hs c d
  | block => exact moveReads_block hs c d
  | single | double => exact moveReads_of_left (by rw [move, move, hs]) (by rw [left, hs])

/-- **A line scanned is a line read**, the leftovers of its last character dropped. -/
theorem advance_eq_read : ∀ (line : List Char) (s : Scanner),
    s.advance line = ((fresh s).read line).map Reader.scanner
  | [], _ => rfl
  | [c], s => by
      rw [advance_singleton, read_cons]
      cases (fresh s).step c <;> rfl
  | c :: d :: rest, s => by
      have hread : (fresh s).read (c :: d :: rest)
          = ((fresh s).read [c, d]).bind fun r => r.read rest := by
        rw [← read_append]
        rfl
      have hmoves := moveReads s c d
      rw [advance]
      cases hmove : s.move c (some d) with
      | fail f =>
          rw [hmove] at hmoves
          cases hmoves with
          | fail h => rw [read_cons, h]; rfl
      | endLine =>
          rw [hmove] at hmoves
          cases hmoves with
          | endLine h =>
              rw [hread, h]
              show _ = (read ⟨s, .comment⟩ rest).map Reader.scanner
              rw [read_comment]
              rfl
      | one s' =>
          rw [hmove] at hmoves
          cases hmoves with
          | one h h' =>
              show advance s' (d :: rest) = _
              rw [advance_eq_read (d :: rest) s', read_cons, read_cons, h]
              show _ = ((step _ d).bind _).map _
              rw [h']
              rfl
      | two s' =>
          rw [hmove] at hmoves
          cases hmoves with
          | two h =>
              show advance s' rest = _
              rw [advance_eq_read rest s', hread, h]
              rfl

/-- A whole line, read and ended. -/
theorem scan_eq_read (s : Scanner) (line : List Char) :
    s.scan line = (((fresh s).read line).bind endLine).map Reader.scanner := by
  unfold scan
  rw [advance_eq_read]
  cases (fresh s).read line with
  | error f => rfl
  | ok r =>
      show (match r.scanner.region with
        | .single | .double => .error .unterminatedString
        | _ => .ok r.scanner) = (endLine r).map Reader.scanner
      unfold endLine
      cases r.scanner.region <;> rfl

end Scanner

/-! ## Blanks -/

/-- A blank is none of the characters that the scanner knows. -/
theorem ne_of_isBlank {c d : Char} (hc : Text.isBlank c = true) (hd : Text.isBlank d = false) :
    c ≠ d := by
  rintro rfl
  rw [hd] at hc
  exact Bool.noConfusion hc

namespace Reader

/-- A blank to which nothing was left does nothing. -/
theorem first_blank (s : Scanner) {c : Char} (hc : Text.isBlank c = true) :
    first s c = .ok (fresh s) := by
  have hslash : c ≠ '/' := ne_of_isBlank hc rfl
  have hstar : c ≠ '*' := ne_of_isBlank hc rfl
  have hdollar : c ≠ '$' := ne_of_isBlank hc rfl
  have hback : c ≠ '\\' := ne_of_isBlank hc rfl
  have hsingle : c ≠ '\'' := ne_of_isBlank hc rfl
  have hdouble : c ≠ '"' := ne_of_isBlank hc rfl
  have htick : c ≠ '\x60' := ne_of_isBlank hc rfl
  have hbrackets : c ≠ '{' ∧ c ≠ '(' ∧ c ≠ '[' ∧ c ≠ '}' ∧ c ≠ ')' ∧ c ≠ ']' :=
    ⟨ne_of_isBlank hc rfl, ne_of_isBlank hc rfl, ne_of_isBlank hc rfl, ne_of_isBlank hc rfl,
      ne_of_isBlank hc rfl, ne_of_isBlank hc rfl⟩
  have hmove : s.move c none = .one s := by
    unfold Scanner.move
    cases s.region with
    | code => simp [Scanner.moveCode, hsingle, hdouble, htick, hbrackets]
    | single => simp [Scanner.moveString, hback, hsingle]
    | double => simp [Scanner.moveString, hback, hdouble]
    | template => simp [Scanner.moveTemplate, hback, htick]
    | block => simp [Scanner.moveBlock]
  have hleft : left s c = .nothing := by
    unfold left
    cases s.region <;> simp [hslash, hstar, hdollar]
  rw [first, hmove]
  show Except.ok (⟨s, left s c⟩ : Reader) = _
  rw [hleft]
  rfl

/-- **A blank leaves the scanner as it is**, whatever was left over. -/
theorem step_blank (r : Reader) {c : Char} (hc : Text.isBlank c = true) :
    ∃ r', r.step c = .ok r' ∧ r'.scanner = r.scanner := by
  have hslash : (c == '/') = false := by simpa using ne_of_isBlank hc rfl
  have hstar : (c == '*') = false := by simpa using ne_of_isBlank hc rfl
  have hopen : (c == '{') = false := by simpa using ne_of_isBlank hc rfl
  have hfirst := first_blank r.scanner hc
  unfold step
  cases r.pending with
  | nothing => exact ⟨_, hfirst, rfl⟩
  | slash => exact ⟨fresh r.scanner, by simpa [hslash, hstar] using hfirst, rfl⟩
  | star => exact ⟨fresh r.scanner, by simpa [hslash] using hfirst, rfl⟩
  | dollar => exact ⟨fresh r.scanner, by simpa [hopen] using hfirst, rfl⟩
  | escape => exact ⟨_, rfl, rfl⟩
  | comment => exact ⟨_, rfl, rfl⟩

/-- Blanks leave the scanner as it is. -/
theorem read_blanks : ∀ (blanks : List Char) (r : Reader),
    (∀ c ∈ blanks, Text.isBlank c = true) →
      ∃ r', r.read blanks = .ok r' ∧ r'.scanner = r.scanner
  | [], r, _ => ⟨r, rfl, rfl⟩
  | c :: rest, r, h => by
      obtain ⟨r₁, hstep, hscanner⟩ := step_blank r (h c List.mem_cons_self)
      obtain ⟨r₂, hread, hscanner'⟩ := read_blanks rest r₁ fun d hd => h d (List.mem_cons_of_mem c hd)
      exact ⟨r₂, (read_cons_of_step hstep rest).trans hread, hscanner'.trans hscanner⟩

/-- Blanks in front of anything else do nothing at all. -/
theorem read_blanks_fresh (s : Scanner) : ∀ blanks : List Char,
    (∀ c ∈ blanks, Text.isBlank c = true) → (fresh s).read blanks = .ok (fresh s)
  | [], _ => rfl
  | c :: rest, h => by
      have hblank : (fresh s).step c = .ok (fresh s) := first_blank s (h c List.mem_cons_self)
      rw [read_cons_of_step hblank]
      exact read_blanks_fresh s rest fun d hd => h d (List.mem_cons_of_mem c hd)

end Reader

/-! ## The ends of a line -/

namespace Scanner

open Reader

/-- Blanks at the end of a line do not matter. -/
theorem scan_append_blanks (s : Scanner) (line : List Char) {blanks : List Char}
    (h : ∀ c ∈ blanks, Text.isBlank c = true) : s.scan (line ++ blanks) = s.scan line := by
  rw [scan_eq_read, scan_eq_read, read_append]
  cases (fresh s).read line with
  | error f => rfl
  | ok r =>
      obtain ⟨r', hread, hscanner⟩ := read_blanks blanks r h
      show ((r.read blanks).bind endLine).map Reader.scanner = (endLine r).map Reader.scanner
      rw [hread]
      show (endLine r').map Reader.scanner = _
      unfold endLine
      rw [hscanner]

/-- Blanks at the beginning of a line do not matter. -/
theorem scan_blanks_append (s : Scanner) {blanks : List Char}
    (h : ∀ c ∈ blanks, Text.isBlank c = true) (line : List Char) :
    s.scan (blanks ++ line) = s.scan line := by
  rw [scan_eq_read, scan_eq_read, read_append, read_blanks_fresh s blanks h]
  rfl

/-- A line without some of the blanks at its end. -/
theorem scan_dropRightWhile (s : Scanner) {p : Char → Bool}
    (hp : ∀ c, p c = true → Text.isBlank c = true) (line : List Char) :
    s.scan (Text.dropRightWhile p line) = s.scan line := by
  obtain ⟨blanks, heq, hblanks⟩ := Text.dropRightWhile_append p line
  have happend := scan_append_blanks s (Text.dropRightWhile p line)
    (fun c hc => hp c (hblanks c hc))
  rw [heq] at happend
  exact happend.symm

/-- **A trimmed line reads as the line.** -/
theorem scan_trim (s : Scanner) (line : List Char) : s.scan (Text.trim line) = s.scan line := by
  have hblanks : ∀ c ∈ line.takeWhile Text.isBlank, Text.isBlank c = true :=
    fun _ hc => List.mem_takeWhile_imp hc
  have hfront := scan_blanks_append s hblanks (line.dropWhile Text.isBlank)
  rw [List.takeWhile_append_dropWhile] at hfront
  unfold Text.trim
  rw [scan_dropRightWhile s fun _ h => h, hfront]

end Scanner

end DecoderForge.Layout
