import DecoderForge.Text.Case
import Mathlib.Tactic.Common

/-!
# DecoderForge — images of characters in capitals and in small letters

An image in capitals or in small letters comes from a table of a few characters, from a span of shifted code
points, or from ASCII.  What is checked of the two tables and of ASCII so holds of every image.  Small forms
are their own small forms, for no span moves a code point to where another span begins.

## The architecture

* **`shift_cases`** — a shifted code point stays or is moved by one span.
* **`holds_mapped`** — what holds beyond ASCII and of a few images holds of every image.
* **`toLower_of_mem_toLower`** — a small form is its own small form.
* **`lowerCased_lowerCased`** — and so is a whole text.
-/

namespace DecoderForge.Text

/-! ## Shifts -/

/-- **A shifted code point stays or is moved by one span**, of which it is a member. -/
theorem shift_cases : ∀ (spans : List (Nat × Nat × Nat × Int)) (n : Nat),
    shift spans n = n ∨ ∃ first last step distance, (first, last, step, distance) ∈ spans
      ∧ first ≤ n ∧ n ≤ last ∧ (n - first) % step = 0 ∧ shift spans n = ((n : Int) + distance).toNat
  | [], _ => .inl rfl
  | (first, last, step, distance) :: rest, n => by
      unfold shift
      by_cases hbefore : n < first
      · exact .inl (if_pos hbefore)
      rw [if_neg hbefore]
      by_cases hin : n ≤ last
      · rw [if_pos hin]
        by_cases hstep : (n - first) % step = 0
        · refine .inr ⟨first, last, step, distance, List.mem_cons_self, by omega, hin, hstep, ?_⟩
          rw [if_pos (beq_iff_eq.mpr hstep)]
        · exact .inl (if_neg (mt beq_iff_eq.mp hstep))
      · rw [if_neg hin]
        -- the span lies below, so the rest of them decide
        rcases shift_cases rest n with hstays | ⟨first, last, step, distance, hmem, hmoved⟩
        · exact .inl hstays
        · exact .inr ⟨first, last, step, distance, List.mem_cons_of_mem _ hmem, hmoved⟩

/-- Whether a list of spans moves no code point from `first` to `last`, or, where these `alternate`, none of
the parity of `first`. -/
def rests (first last : Nat) (alternate : Bool) : List (Nat × Nat × Nat × Int) → Bool
  | [] => true
  | (a, b, step, _) :: rest =>
    Nat.blt last a
      || ((Nat.blt b first || alternate && step == 2 && (first + a) % 2 == 1) && rests first last alternate rest)

/-- A code point between the bounds rests, if it is of the right parity. -/
theorem shift_of_rests {first last : Nat} {alternate : Bool} :
    ∀ {spans : List (Nat × Nat × Nat × Int)}, rests first last alternate spans = true →
      ∀ {n : Nat}, first ≤ n → n ≤ last → (alternate = true → (n - first) % 2 = 0) → shift spans n = n
  | [], _, _, _, _, _ => rfl
  | (a, b, step, distance) :: rest, h, n, hfirst, hlast, hparity => by
      simp only [rests, Bool.or_eq_true, Bool.and_eq_true, Nat.blt_eq, beq_iff_eq] at h
      unfold shift
      by_cases hbefore : n < a
      · exact if_pos hbefore
      rw [if_neg hbefore]
      obtain hbelow | ⟨hspan, hrest⟩ := h
      · omega
      by_cases hin : n ≤ b
      · rw [if_pos hin]
        -- a span that reaches this far goes past every second code point, and past this one
        obtain hbehind | ⟨⟨halternate, rfl⟩, hodd⟩ := hspan
        · omega
        have := hparity halternate
        exact if_neg (by simp only [beq_iff_eq]; omega)
      · rw [if_neg hin]
        exact shift_of_rests hrest hfirst hlast hparity

/-! ## Properties of all images -/

section Images

variable {p : Char → Bool}

/-- Whether all images of a span of shifts are beyond ASCII, or the one that is not has a property. -/
def shiftsInto (p : Char → Bool) : Nat × Nat × Nat × Int → Bool
  | (first, last, _, distance) =>
    0x80 ≤ (first : Int) + distance
      || (first == last && p (Char.ofNat ((first : Int) + distance).toNat))

/-- A character beyond ASCII is shifted to one with the property. -/
theorem holds_shift (hp : ∀ n, 0x80 ≤ n → p (Char.ofNat n) = true)
    {spans : List (Nat × Nat × Nat × Int)} (h : spans.all (shiftsInto p) = true) {n : Nat} (hn : 0x80 ≤ n) :
    p (Char.ofNat (shift spans n)) = true := by
  rcases shift_cases spans n with hstays | ⟨first, last, step, distance, hmem, hfirst, hlast, -, hmoved⟩
  · rw [hstays]
    exact hp n hn
  · rw [hmoved]
    have hspan := List.all_eq_true.mp h _ hmem
    simp only [shiftsInto, Bool.or_eq_true, decide_eq_true_eq, Bool.and_eq_true, beq_iff_eq] at hspan
    rcases hspan with hhigh | ⟨rfl, hone⟩
    · exact hp _ (by omega)
    · obtain rfl : n = first := by omega
      exact hone

/-- What a table of characters with several images holds. -/
theorem holds_of_lookup {q : Char → Prop} {table : List (Nat × List Nat)}
    (h : ∀ e ∈ table, ∀ n ∈ e.2, q (Char.ofNat n)) {n : Nat} {codes : List Nat}
    (hlookup : table.lookup n = some codes) : ∀ d ∈ codes.map Char.ofNat, q d := by
  obtain ⟨l₁, l₂, rfl, -⟩ := List.lookup_eq_some_iff.mp hlookup
  intro d hd
  obtain ⟨m, hm, rfl⟩ := List.mem_map.mp hd
  exact h (n, codes) (by simp) m hm

/-- **What holds beyond ASCII and of a few images holds of every image** of a character, if it holds of the
image that the character has within ASCII. -/
theorem holds_mapped (hp : ∀ n, 0x80 ≤ n → p (Char.ofNat n) = true) {f : Char → Char}
    {many : List (Nat × List Nat)} {shifts : List (Nat × Nat × Nat × Int)}
    (hmany : ∀ e ∈ many, ∀ n ∈ e.2, p (Char.ofNat n) = true) (hshifts : shifts.all (shiftsInto p) = true)
    {c : Char} (hascii : c.toNat < 0x80 → p (f c) = true) :
    ∀ d ∈ (if c.toNat < 0x80 then [f c]
      else match many.lookup c.toNat with
        | some codes => codes.map Char.ofNat
        | none => [Char.ofNat (shift shifts c.toNat)]), p d = true := by
  intro d hd
  by_cases hlow : c.toNat < 0x80
  · rw [if_pos hlow] at hd
    obtain rfl := List.mem_singleton.mp hd
    exact hascii hlow
  · rw [if_neg hlow] at hd
    split at hd
    · rename_i codes hlookup
      exact holds_of_lookup (q := fun d => p d = true) hmany hlookup d hd
    · obtain rfl := List.mem_singleton.mp hd
      exact holds_shift hp hshifts (by omega)

/-- A class that has the characters beyond ASCII has every number beyond ASCII read as a character. -/
theorem holds_ofNat (hp : ∀ c : Char, 0x80 ≤ c.toNat → p c = true) (hzero : p '\x00' = true) :
    ∀ n, 0x80 ≤ n → p (Char.ofNat n) = true := by
  intro n h
  by_cases hvalid : n.isValidChar
  · refine hp _ ?_
    rw [Char.ofNat, dif_pos hvalid]
    exact h
  · rw [Char.ofNat, dif_neg hvalid]
    exact hzero

/-- What is shown for all code points of ASCII holds of every character of ASCII. -/
theorem ascii_of_all {q : Char → Prop} (h : ∀ n < 0x80, q (Char.ofNat n)) {c : Char} (hc : c.toNat < 0x80) :
    q c := by
  rw [← Char.ofNat_toNat c]
  exact h _ hc

end Images

/-! ## Small letters -/

/-- Where a span of small forms ends up: behind the capitals of ASCII, off the one character with several small
forms, and where no span moves anything. -/
def landsOnSmall : Nat × Nat × Nat × Int → Bool
  | (first, last, step, distance) =>
    let first' := ((first : Int) + distance).toNat
    let last' := ((last : Int) + distance).toNat
    Nat.blt 0x5A first' && (Nat.blt last' 304 || Nat.blt 304 first')
      && rests first' last' (first == last || step == 2) lowerShifts

/-- Every span of small forms does. -/
theorem lowerShifts_landOnSmall : lowerShifts.all landsOnSmall = true := by decide +kernel

/-- A character of ASCII behind the capitals is its own small form. -/
theorem toLower_ofNat_of_lt {n : Nat} (hcapitals : 0x5A < n) (h : n < 0x80) :
    toLower (Char.ofNat n) = [Char.ofNat n] :=
  (by decide : ∀ m < 0x80, 0x5A < m → toLower (Char.ofNat m) = [Char.ofNat m]) n h hcapitals

/-- What no span moves and no table holds is its own small form. -/
theorem toLower_ofNat_of_shift {n : Nat} (hcapitals : 0x5A < n) (hmany : n ≠ 304) (h : shift lowerShifts n = n) :
    toLower (Char.ofNat n) = [Char.ofNat n] := by
  by_cases hvalid : n.isValidChar
  · by_cases hlow : n < 0x80
    · exact toLower_ofNat_of_lt hcapitals hlow
    have htoNat : (Char.ofNat n).toNat = n := by
      rw [Char.ofNat, dif_pos hvalid]
      rfl
    have hlookup : lowerMany.lookup n = none := by
      simp [lowerMany, List.lookup_cons, beq_false_of_ne hmany]
    simp only [toLower, htoNat, if_neg hlow, hlookup, h]
  · rw [Char.ofNat, dif_neg hvalid]
    decide

/-- **A small form is its own small form.** -/
theorem toLower_of_mem_toLower {c d : Char} (h : d ∈ toLower c) : toLower d = [d] := by
  unfold toLower at h
  by_cases hlow : c.toNat < 0x80
  · rw [if_pos hlow] at h
    obtain rfl := List.mem_singleton.mp h
    exact ascii_of_all (q := fun c => toLower c.toLower = [c.toLower]) (by decide) hlow
  rw [if_neg hlow] at h
  split at h
  · rename_i codes hlookup
    exact holds_of_lookup (q := fun d => toLower d = [d]) (by decide) hlookup d h
  · rename_i hlookup
    obtain rfl := List.mem_singleton.mp h
    rcases shift_cases lowerShifts c.toNat with
      hstays | ⟨first, last, step, distance, hmem, hfirst, hlast, hstep, hmoved⟩
    · rw [hstays, Char.ofNat_toNat]
      simp only [toLower, if_neg hlow, hlookup, hstays, Char.ofNat_toNat]
    · have hsmall := List.all_eq_true.mp lowerShifts_landOnSmall _ hmem
      simp only [landsOnSmall, Bool.and_eq_true, Bool.or_eq_true, Nat.blt_eq] at hsmall
      obtain ⟨⟨hcapitals, hmany⟩, hrests⟩ := hsmall
      rw [hmoved]
      refine toLower_ofNat_of_shift (by omega) (by omega) (shift_of_rests hrests (by omega) (by omega) ?_)
      -- the images of a span with one code point, or with every second, are as far apart as the code points
      intro halternate
      rcases Bool.or_eq_true_iff.mp halternate with hone | htwo
      · have : first = last := beq_iff_eq.mp hone
        omega
      · obtain rfl : step = 2 := beq_iff_eq.mp htwo
        omega

theorem toLower_of_mem_toLowerWithin {before after : List Char} {c d : Char}
    (h : d ∈ toLowerWithin before c after) : toLower d = [d] := by
  unfold toLowerWithin at h
  split at h
  · obtain rfl := List.mem_singleton.mp h
    split <;> decide
  · exact toLower_of_mem_toLower h

/-- The characters of a text in small letters are their own small forms. -/
theorem toLower_of_mem_lowerCased {d : Char} :
    ∀ {s before : List Char}, d ∈ lowerCased before s → toLower d = [d]
  | [], _, h => absurd h List.not_mem_nil
  | _ :: _, _, h => (List.mem_append.mp h).elim toLower_of_mem_toLowerWithin toLower_of_mem_lowerCased

/-- A text of characters that are their own small forms is its own small form. -/
theorem lowerCased_eq_self :
    ∀ {s before : List Char}, (∀ c ∈ s, toLower c = [c]) → lowerCased before s = s
  | [], _, _ => rfl
  | c :: rest, before, h => by
      have hc : toLower c = [c] := h c List.mem_cons_self
      have hsigma : ¬ (c == 'Σ') = true := by
        intro heq
        rw [beq_iff_eq.mp heq] at hc
        exact absurd hc (by decide)
      have hrest : lowerCased (c :: before) rest = rest :=
        lowerCased_eq_self fun d hd => h d (List.mem_cons_of_mem _ hd)
      rw [lowerCased, toLowerWithin, if_neg hsigma, hc, hrest]
      rfl

/-- **A text in small letters is its own small form**, wherever it stands. -/
theorem lowerCased_lowerCased (s before before' : List Char) :
    lowerCased before (lowerCased before' s) = lowerCased before' s :=
  lowerCased_eq_self fun _ => toLower_of_mem_lowerCased

end DecoderForge.Text
