import DecoderForge.Json.Token
import Mathlib.Data.List.TakeWhile

/-!
# DecoderForge — texts that show where they end

Generated lines are made of fixed text and of parts that vary: numerals and quoted strings.  Each kind of
part shows where it ends, so that the parts can be read off the line one after another.

## The architecture

* **`run_append_inj`** — a row of characters of one kind ends at the first character of another.
* **`separated_append_inj`** — texts with a separator between them.
* **`numeral_append_inj`** — numerals.
* **`quote_append_inj`** — quoted strings.
-/

namespace DecoderForge.Text

/-! ## Rows of characters -/

/-- A row of characters, or anything else, of a kind is found again in front of others. -/
theorem takeWhile_run {α : Type} {p : α → Bool} {a r : List α} (ha : ∀ c ∈ a, p c = true)
    (hr : ∀ c ∈ r.head?, p c = false) : (a ++ r).takeWhile p = a := by
  rw [List.takeWhile_append_of_pos ha]
  cases r with
  | nil => simp
  | cons c r => simp [hr c rfl]

/-- **A row of characters of one kind ends at the first character of another.** -/
theorem run_append_inj {α : Type} {p : α → Bool} {a b r r' : List α} (ha : ∀ c ∈ a, p c = true)
    (hb : ∀ c ∈ b, p c = true) (hr : ∀ c ∈ r.head?, p c = false) (hr' : ∀ c ∈ r'.head?, p c = false)
    (h : a ++ r = b ++ r') : a = b ∧ r = r' := by
  have hab : a = b := by rw [← takeWhile_run ha hr, h, takeWhile_run hb hr']
  subst hab
  exact ⟨rfl, List.append_cancel_left h⟩

/-- What stands in front of the first of a character can be told from what follows. -/
theorem append_cons_inj {c : Char} {a b r r' : List Char} (ha : c ∉ a) (hb : c ∉ b)
    (h : a ++ c :: r = b ++ c :: r') : a = b ∧ r = r' := by
  have hne {a : List Char} (ha : c ∉ a) : ∀ d ∈ a, (d != c) = true := by
    intro d hd
    rw [bne_iff_ne]
    rintro rfl
    exact ha hd
  obtain ⟨hab, hr⟩ := run_append_inj (hne ha) (hne hb) (by simp) (by simp) h
  exact ⟨hab, (List.cons.inj hr).2⟩

/-- What a text without a character begins with stands in front of that character. -/
theorem prefix_of_append_cons {c : Char} {w a b : List Char} (hw : c ∉ w) (h : w <+: a ++ c :: b) : w <+: a := by
  obtain ⟨t, h⟩ := h
  rcases List.append_eq_append_iff.mp h with ⟨rest, ha, -⟩ | ⟨rest, rfl, hrest⟩
  · exact ⟨rest, ha.symm⟩
  · cases rest with
    | nil => simp
    | cons d rest =>
        obtain ⟨rfl, -⟩ := List.cons.inj hrest
        exact absurd (by simp) hw

/-! ## Separated texts -/

section Separated

variable {α : Type} {text : α → String} {sep : String} {close : Char} {follows : Char → Prop} {r r' : List Char}

/-- What stands behind the first of things with a separator between them. -/
def separatedTail (sep : String) (text : α → String) (xs : List α) : List Char :=
  xs.flatMap fun x => sep.toList ++ (text x).toList

theorem toList_separated (x : α) (xs : List α) :
    (String.intercalate sep ((x :: xs).map text)).toList = (text x).toList ++ separatedTail sep text xs := by
  induction xs generalizing x with
  | nil => simp [separatedTail]
  | cons y ys ih =>
      have hrest := ih y
      rw [List.map_cons, List.map_cons, String.intercalate_cons_cons, String.toList_append, String.toList_append,
        ← List.map_cons, hrest]
      simp [separatedTail]

/-- Things of which each shows where it ends, if a character that may follow does. -/
def ShowEnds (text : α → String) (follows : Char → Prop) (xs ys : List α) : Prop :=
  ∀ x ∈ xs, ∀ y ∈ ys, ∀ r r', (∀ c ∈ r.head?, follows c) → (∀ c ∈ r'.head?, follows c) →
    (text x).toList ++ r = (text y).toList ++ r' → x = y ∧ r = r'

/-- How things are separated and closed: by characters that may follow, and that can be told apart. -/
structure Separates (sep : String) (close : Char) (follows : Char → Prop) : Prop where
  first : ∃ c rest, sep.toList = c :: rest ∧ c ≠ close ∧ follows c
  close : follows close

theorem Separates.follows_tail (h : Separates sep close follows) (xs : List α) (r : List Char) :
    ∀ c ∈ (separatedTail sep text xs ++ close :: r).head?, follows c := by
  intro c hc
  cases xs with
  | nil =>
      obtain rfl : close = c := by simpa [separatedTail] using hc
      exact h.close
  | cons x xs =>
      obtain ⟨d, rest, hsep, -, hd⟩ := h.first
      obtain rfl : d = c := by simpa [separatedTail, hsep] using hc
      exact hd

theorem separatedTail_append_inj (h : Separates sep close follows) : ∀ {xs ys : List α}, ShowEnds text follows xs ys →
    separatedTail sep text xs ++ close :: r = separatedTail sep text ys ++ close :: r' → xs = ys ∧ r = r'
  | [], [], _, heq => ⟨rfl, (List.cons.inj heq).2⟩
  | [], _ :: _, _, heq => by
      obtain ⟨d, rest, hsep, hne, -⟩ := h.first
      simp only [separatedTail, List.flatMap_nil, List.flatMap_cons, hsep] at heq
      exact absurd (List.cons.inj heq).1.symm hne
  | _ :: _, [], _, heq => by
      obtain ⟨d, rest, hsep, hne, -⟩ := h.first
      simp only [separatedTail, List.flatMap_nil, List.flatMap_cons, hsep] at heq
      exact absurd (List.cons.inj heq).1 hne
  | x :: xs, y :: ys, hends, heq => by
      simp only [separatedTail, List.flatMap_cons, List.append_assoc] at heq
      obtain ⟨rfl, hrest⟩ := hends x List.mem_cons_self y List.mem_cons_self _ _ (h.follows_tail xs r)
        (h.follows_tail ys r') (List.append_cancel_left heq)
      obtain ⟨rfl, hr⟩ := separatedTail_append_inj h
        (fun x hx y hy => hends x (List.mem_cons_of_mem _ hx) y (List.mem_cons_of_mem _ hy)) hrest
      exact ⟨rfl, hr⟩

/-- **Texts with a separator between them show where they end**, if none begins like what is behind them. -/
theorem separated_append_inj (h : Separates sep close follows)
    (hfirst : ∀ x : α, ∃ c rest, (text x).toList = c :: rest ∧ c ≠ close) {xs ys : List α}
    (hends : ShowEnds text follows xs ys)
    (heq : (String.intercalate sep (xs.map text)).toList ++ close :: r
      = (String.intercalate sep (ys.map text)).toList ++ close :: r') : xs = ys ∧ r = r' := by
  cases xs with
  | nil =>
      cases ys with
      | nil => exact ⟨rfl, (List.cons.inj heq).2⟩
      | cons y ys =>
          obtain ⟨c, rest, htext, hne⟩ := hfirst y
          rw [toList_separated, htext] at heq
          exact absurd (List.cons.inj heq).1.symm hne
  | cons x xs =>
      cases ys with
      | nil =>
          obtain ⟨c, rest, htext, hne⟩ := hfirst x
          rw [toList_separated, htext] at heq
          exact absurd (List.cons.inj heq).1 hne
      | cons y ys =>
          rw [toList_separated, toList_separated, List.append_assoc, List.append_assoc] at heq
          obtain ⟨rfl, hrest⟩ := hends x List.mem_cons_self y List.mem_cons_self _ _ (h.follows_tail xs r)
            (h.follows_tail ys r') heq
          obtain ⟨rfl, hr⟩ := separatedTail_append_inj h
            (fun x hx y hy => hends x (List.mem_cons_of_mem _ hx) y (List.mem_cons_of_mem _ hy)) hrest
          exact ⟨rfl, hr⟩

end Separated

/-! ## Numerals -/

theorem isDigit_of_mem_numeral {n : Nat} : ∀ c ∈ (toString n).toList, c.isDigit = true := by
  intro c hc
  rw [Nat.toString_eq_repr, Nat.toList_repr] at hc
  exact Nat.isDigit_of_mem_toDigits (by decide : 0 < 10) (by decide : 10 ≤ 10) hc

/-- **A numeral ends at the first character that is no digit.** -/
theorem numeral_append_inj {n m : Nat} {r r' : List Char} (hr : ∀ c ∈ r.head?, c.isDigit = false)
    (hr' : ∀ c ∈ r'.head?, c.isDigit = false)
    (h : (toString n).toList ++ r = (toString m).toList ++ r') : n = m ∧ r = r' := by
  obtain ⟨hnm, hr⟩ := run_append_inj isDigit_of_mem_numeral isDigit_of_mem_numeral hr hr' h
  rw [Nat.toString_eq_repr, Nat.toString_eq_repr, Nat.toList_repr, Nat.toList_repr] at hnm
  have hread := congrArg (Nat.ofDigitChars 10 · 0) hnm
  simp only [Nat.ofDigitChars_ten_toDigits] at hread
  exact ⟨hread, hr⟩

/-! ## Quoted strings -/

open Json.Token (escapeChar hex4? hexDigit quote readEscape readString)

/-- The hexadecimal digits of a control character read back. -/
theorem hex4?_control : ∀ n < 0x20, hex4? '0' '0' (hexDigit (n / 16)) (hexDigit (n % 16)) = some n := by
  decide

/-- What a string gives, and the text behind it. -/
def readOff (cs before : List Char) : Option (String × List Char) :=
  (readString cs before).map fun p => (p.1, p.2.1)

/-- An escape reads back. -/
theorem readOff_escape {cs rest before : List Char} {c : Char} {h : rest.length < cs.length}
    (hread : readEscape cs = some (c, ⟨rest, h⟩)) :
    readOff ('\\' :: cs) before = readOff rest (c :: before) := by
  unfold readOff
  rw [readString.eq_def]
  simp only [hread, Option.map_map]
  rfl

/-- A quote ends a string. -/
theorem readOff_quote (r before : List Char) :
    readOff ('"' :: r) before = some (String.ofList before.reverse, r) := by
  unfold readOff
  rw [readString.eq_def]
  rfl

/-- A character that is neither quote nor backslash is read as it is, but for control characters. -/
theorem readOff_other {d : Char} (hquote : d ≠ '"') (hbackslash : d ≠ '\\') (r before : List Char) :
    readOff (d :: r) before = if d.toNat < 0x20 then none else readOff r (d :: before) := by
  unfold readOff
  rw [readString]
  · split
    · rfl
    · rw [Option.map_map]
      rfl
  · exact hquote
  · exact hbackslash

/-- An escaped character reads back. -/
theorem readOff_escapeChar (c : Char) (rest before : List Char) :
    readOff (escapeChar c ++ rest) before = readOff rest (c :: before) := by
  have hescape (e : List Char) (h : ∃ h, readEscape (e ++ rest) = some (c, ⟨rest, h⟩)) :
      readOff ('\\' :: e ++ rest) before = readOff rest (c :: before) := by
    obtain ⟨_, h⟩ := h
    exact readOff_escape h
  unfold escapeChar
  split_ifs with h₁ h₂ h₃ h₄ h₅ h₆ h₇ h₈
  · obtain rfl := beq_iff_eq.mp h₁
    exact hescape ['"'] ⟨_, rfl⟩
  · obtain rfl := beq_iff_eq.mp h₂
    exact hescape ['\\'] ⟨_, rfl⟩
  · obtain rfl := beq_iff_eq.mp h₃
    exact hescape ['b'] ⟨_, rfl⟩
  · obtain rfl := beq_iff_eq.mp h₄
    exact hescape ['f'] ⟨_, rfl⟩
  · obtain rfl := beq_iff_eq.mp h₅
    exact hescape ['n'] ⟨_, rfl⟩
  · obtain rfl := beq_iff_eq.mp h₆
    exact hescape ['r'] ⟨_, rfl⟩
  · obtain rfl := beq_iff_eq.mp h₇
    exact hescape ['t'] ⟨_, rfl⟩
  · refine hescape ['u', '0', '0', hexDigit (c.toNat / 16), hexDigit (c.toNat % 16)] ?_
    have hlow : ¬ 0xDC00 ≤ c.toNat := by omega
    have hhigh : ¬ 0xD800 ≤ c.toNat := by omega
    exact ⟨by simp; omega, by simp [readEscape, hex4?_control c.toNat h₈, hlow, hhigh, Char.ofNat_toNat]⟩
  · -- a character that is not escaped is neither quote nor backslash
    have hquote : c ≠ '"' := by simpa using h₁
    have hbackslash : c ≠ '\\' := by simpa using h₂
    rw [List.singleton_append, readOff_other hquote hbackslash, if_neg h₈]

/-- **A quoted string reads back**, whatever follows it. -/
theorem readOff_escaped : ∀ (cs r before : List Char),
    readOff (cs.flatMap escapeChar ++ '"' :: r) before = some (String.ofList (before.reverse ++ cs), r)
  | [], r, before => by
      rw [List.flatMap_nil, List.nil_append, readOff_quote, List.append_nil]
  | c :: cs, r, before => by
      rw [List.flatMap_cons, List.append_assoc, readOff_escapeChar, readOff_escaped cs r (c :: before)]
      simp

/-- **A quoted string shows where it ends.** -/
theorem quote_append_inj {s t : String} {r r' : List Char}
    (h : (quote s).toList ++ r = (quote t).toList ++ r') : s = t ∧ r = r' := by
  have hquote (s : String) (r : List Char) :
      (quote s).toList ++ r = '"' :: (s.toList.flatMap escapeChar ++ '"' :: r) := by
    simp [quote, String.toList_append]
  rw [hquote, hquote] at h
  have hread := congrArg (readOff · []) (List.cons.inj h).2
  simp only [readOff_escaped, List.reverse_nil, List.nil_append, Option.some.injEq, Prod.mk.injEq] at hread
  exact ⟨by simpa using hread.1, hread.2⟩

/-- A quoted string stands on one line. -/
theorem newline_notMem_quote (s : String) : '\n' ∉ (quote s).toList := by
  have hescape (c : Char) : '\n' ∉ escapeChar c := by
    unfold escapeChar
    have hdigit : ∀ n < 16, hexDigit n ≠ '\n' := by decide
    split_ifs with h₁ h₂ h₃ h₄ h₅ h₆ h₇ h₈
    all_goals try decide
    · have hhigh := hdigit (c.toNat / 16) (by omega)
      have hlow := hdigit (c.toNat % 16) (by omega)
      simp [hhigh.symm, hlow.symm]
    · have hne : c ≠ '\n' := by simpa using h₅
      simp [hne.symm]
  simp [quote, String.toList_append, hescape]

end DecoderForge.Text
