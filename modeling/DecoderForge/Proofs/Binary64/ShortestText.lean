import DecoderForge.Proofs.Binary64.Intervals
import DecoderForge.Proofs.Text.Delimited

/-!
# DecoderForge — numbers are read off their text

The text of a float shows the value of a decimal, in the positional layout as in the scientific one, and
that decimal reads back to one float only.

## The architecture

* **`value_eq_of_plain_eq`**, **`value_eq_of_scientific_eq`** — the layouts show the value.
* **`Binary64.toText_injective`** — floats with the same text are the same.
-/

namespace DecoderForge

namespace Decimal

/-! ## Digits -/

theorem isDigit_of_mem_digitChars {n : ℕ} : ∀ c ∈ digitChars n, c.isDigit = true := fun _ hc =>
  Nat.isDigit_of_mem_toDigits (by decide) (by decide) hc

theorem digitChars_ne_nil (n : ℕ) : digitChars n ≠ [] := Nat.toDigits_ne_nil

/-- A row of digits as a natural number. -/
def rowValue (ds : List Char) : ℕ := Nat.ofDigitChars 10 ds 0

theorem rowValue_digitChars (n : ℕ) : rowValue (digitChars n) = n := Nat.ofDigitChars_ten_toDigits

theorem rowValue_append_zeros (ds : List Char) (n : ℕ) :
    rowValue (ds ++ List.replicate n '0') = 10 ^ n * rowValue ds := by
  unfold rowValue
  rw [Nat.ofDigitChars_append, Nat.ofDigitChars_replicate_zero]

theorem rowValue_zeros_append (n : ℕ) (ds : List Char) :
    rowValue (List.replicate n '0' ++ ds) = rowValue ds := by
  unfold rowValue
  rw [Nat.ofDigitChars_append, Nat.ofDigitChars_replicate_zero, Nat.mul_zero]

/-! ## The positional layout -/

/-- The digits in front of the point and behind it, where they show a value. -/
structure Shows (whole fraction : List Char) (v : ℚ) : Prop where
  whole_digits : ∀ c ∈ whole, c.isDigit = true
  whole_ne_nil : whole ≠ []
  fraction_digits : ∀ c ∈ fraction, c.isDigit = true
  value : v = rowValue (whole ++ fraction) * (10 : ℚ) ^ (-(fraction.length : ℤ))

/-- **The positional layout shows the value.** -/
theorem plain_shows (d : Decimal) :
    ∃ whole fraction, (d.plain ".0").toList = whole ++ '.' :: fraction ∧ Shows whole fraction d.value := by
  have hdigits := isDigit_of_mem_digitChars (n := d.digits)
  have hzeros : ∀ n, ∀ c ∈ List.replicate n '0', c.isDigit = true := by
    intro n c hc
    obtain rfl := List.eq_of_mem_replicate hc
    rfl
  have hrow := rowValue_digitChars d.digits
  unfold plain
  simp only
  split_ifs with hexp hlen
  · refine ⟨digitChars d.digits ++ List.replicate d.exponent.toNat '0', ['0'], ?_, ?_, ?_, ?_, ?_⟩
    · simp [String.toList_append]
    · exact fun c hc => (List.mem_append.mp hc).elim (hdigits c) (hzeros _ c)
    · simp [digitChars_ne_nil]
    · simp
    · have hone : ['0'] = List.replicate 1 '0' := rfl
      rw [hone, rowValue_append_zeros, rowValue_append_zeros, hrow]
      unfold value
      conv_lhs => rw [← Int.toNat_of_nonneg hexp, zpow_natCast]
      push_cast
      norm_num
      ring
  · refine ⟨(digitChars d.digits).take ((digitChars d.digits).length - (-d.exponent).toNat),
      (digitChars d.digits).drop ((digitChars d.digits).length - (-d.exponent).toNat), ?_, ?_, ?_, ?_, ?_⟩
    · simp [String.toList_append]
    · exact fun c hc => hdigits c (List.mem_of_mem_take hc)
    · simp only [ne_eq, List.take_eq_nil_iff, digitChars_ne_nil, or_false]
      omega
    · exact fun c hc => hdigits c (List.mem_of_mem_drop hc)
    · rw [List.take_append_drop, hrow, List.length_drop]
      unfold value
      congr 2
      omega
  · refine ⟨['0'], List.replicate ((-d.exponent).toNat - (digitChars d.digits).length) '0'
      ++ digitChars d.digits, ?_, ?_, ?_, ?_, ?_⟩
    · simp [String.toList_append]
    · simp
    · simp
    · exact fun c hc => (List.mem_append.mp hc).elim (hzeros _ c) (hdigits c)
    · have hone : ['0'] = List.replicate 1 '0' := rfl
      rw [hone, rowValue_zeros_append, rowValue_zeros_append, hrow, List.length_append,
        List.length_replicate]
      unfold value
      congr 2
      omega

theorem point_notMem_of_digits {ds : List Char} (h : ∀ c ∈ ds, c.isDigit = true) : '.' ∉ ds := by
  intro hmem
  exact absurd (h '.' hmem) (by decide)

theorem e_notMem_of_digits {ds : List Char} (h : ∀ c ∈ ds, c.isDigit = true) : 'e' ∉ ds := by
  intro hmem
  exact absurd (h 'e' hmem) (by decide)

theorem value_eq_of_plain_eq {d d' : Decimal} (h : (d.plain ".0").toList = (d'.plain ".0").toList) :
    d.value = d'.value := by
  obtain ⟨whole, fraction, htext, hshows⟩ := plain_shows d
  obtain ⟨whole', fraction', htext', hshows'⟩ := plain_shows d'
  rw [htext, htext'] at h
  obtain ⟨rfl, rfl⟩ := Text.append_cons_inj (point_notMem_of_digits hshows.whole_digits)
    (point_notMem_of_digits hshows'.whole_digits) h
  rw [hshows.value, hshows'.value]

theorem e_notMem_plain (d : Decimal) : 'e' ∉ (d.plain ".0").toList := by
  obtain ⟨whole, fraction, htext, hshows⟩ := plain_shows d
  rw [htext]
  simp [e_notMem_of_digits hshows.whole_digits, e_notMem_of_digits hshows.fraction_digits]

theorem point_mem_plain (d : Decimal) : '.' ∈ (d.plain ".0").toList := by
  obtain ⟨whole, fraction, htext, -⟩ := plain_shows d
  rw [htext]
  simp

theorem head_plain (d : Decimal) : ∀ c ∈ (d.plain ".0").toList.head?, c.isDigit = true := by
  obtain ⟨whole, fraction, htext, hshows⟩ := plain_shows d
  rw [htext]
  cases whole with
  | nil => exact absurd rfl hshows.whole_ne_nil
  | cons c whole =>
      intro e he
      obtain rfl : c = e := by simpa using he
      exact hshows.whole_digits c List.mem_cons_self

/-! ## The scientific layout -/

/-- The digits with a point behind the first. -/
def pointed : List Char → List Char
  | [] => []
  | [c] => [c]
  | c :: rest => c :: '.' :: rest

theorem scientific_toList (d : Decimal) :
    d.scientific.toList = pointed (digitChars d.digits)
      ++ 'e' :: (if d.leadingExponent < 0 then '-' else '+') :: (toString d.leadingExponent.natAbs).toList := by
  have hmark : (if d.leadingExponent < 0 then "e-" else "e+").toList
      = ['e', if d.leadingExponent < 0 then '-' else '+'] := by
    split <;> rfl
  unfold scientific
  simp only [String.toList_append, hmark]
  cases digitChars d.digits with
  | nil => simp [pointed]
  | cons c rest =>
      cases rest with
      | nil => simp [pointed]
      | cons c' rest => simp [pointed, String.toList_append]

theorem filter_pointed {ds : List Char} (h : ∀ c ∈ ds, c.isDigit = true) :
    (pointed ds).filter Char.isDigit = ds := by
  have hall : ds.filter Char.isDigit = ds := List.filter_eq_self.mpr h
  have hpoint : ('.' : Char).isDigit = false := by decide
  cases ds with
  | nil => rfl
  | cons c rest =>
      cases rest with
      | nil => exact hall
      | cons c' rest => simpa [pointed, List.filter_cons, hpoint] using hall

/-- What holds of digits and of the point holds of digits with a point. -/
theorem pointed_chars {p : Char → Bool} (hdigit : ∀ {c : Char}, c.isDigit = true → p c = true)
    (hpoint : p '.' = true) {ds : List Char} (h : ∀ c ∈ ds, c.isDigit = true) :
    ∀ c ∈ pointed ds, p c = true := by
  intro c hc
  by_cases hc' : c = '.'
  · rwa [hc']
  · refine hdigit (h c ?_)
    cases ds with
    | nil => exact hc
    | cons d rest =>
        cases rest with
        | nil => exact hc
        | cons d' rest => simpa [pointed, hc'] using hc

theorem e_notMem_pointed {ds : List Char} (h : ∀ c ∈ ds, c.isDigit = true) : 'e' ∉ pointed ds := by
  have hdigit {c : Char} (hc : c.isDigit = true) : (c != 'e') = true := by
    rw [bne_iff_ne]
    rintro rfl
    exact absurd hc (by decide)
  exact fun hmem => absurd (pointed_chars hdigit rfl h 'e' hmem) (by decide)

theorem value_eq_of_scientific_eq {d d' : Decimal} (h : d.scientific.toList = d'.scientific.toList) :
    d.value = d'.value := by
  rw [scientific_toList, scientific_toList] at h
  obtain ⟨hpointed, hexp⟩ := Text.append_cons_inj (e_notMem_pointed isDigit_of_mem_digitChars)
    (e_notMem_pointed isDigit_of_mem_digitChars) h
  have hchars : digitChars d.digits = digitChars d'.digits := by
    rw [← filter_pointed isDigit_of_mem_digitChars, hpointed, filter_pointed isDigit_of_mem_digitChars]
  have hdigits : d.digits = d'.digits := by
    rw [← rowValue_digitChars d.digits, hchars, rowValue_digitChars]
  obtain ⟨hsign, hnumeral⟩ := List.cons.inj hexp
  have habs : d.leadingExponent.natAbs = d'.leadingExponent.natAbs :=
    (Text.numeral_append_inj (by simp) (by simp) (congrArg (· ++ []) hnumeral)).1
  have hneg : (d.leadingExponent < 0) ↔ (d'.leadingExponent < 0) := by
    by_cases h₁ : d.leadingExponent < 0 <;> by_cases h₂ : d'.leadingExponent < 0
    · exact iff_of_true h₁ h₂
    · exact absurd hsign (by simp [h₁, h₂])
    · exact absurd hsign (by simp [h₁, h₂])
    · exact iff_of_false h₁ h₂
  have hexponent : d.exponent = d'.exponent := by
    have hleading : d.leadingExponent = d'.leadingExponent := by omega
    unfold leadingExponent at hleading
    rw [hchars] at hleading
    omega
  unfold value
  rw [hdigits, hexponent]

theorem e_mem_scientific (d : Decimal) : 'e' ∈ d.scientific.toList := by
  rw [scientific_toList]
  simp

theorem head_scientific (d : Decimal) : ∀ c ∈ d.scientific.toList.head?, c.isDigit = true := by
  rw [scientific_toList]
  have hdigits := isDigit_of_mem_digitChars (n := d.digits)
  have hne := digitChars_ne_nil d.digits
  cases hchars : digitChars d.digits with
  | nil => exact absurd hchars hne
  | cons c rest =>
      rw [hchars] at hdigits
      have hc := hdigits c List.mem_cons_self
      cases rest <;> simpa [pointed] using hc

end Decimal

/-! ## Floats -/

namespace Binary64

/-- The text behind the sign. -/
def unsignedText (x : Binary64) : List Char :=
  if -5 ≤ x.shortest.leadingExponent ∧ x.shortest.leadingExponent < 16 then (x.shortest.plain ".0").toList
  else x.shortest.scientific.toList

/-- Zero is written like any other number. -/
theorem toText_toList (x : Binary64) :
    x.toText.toList = (if x.negative then ['-'] else []) ++ x.unsignedText := by
  have hsign : (if x.negative then "-" else "").toList = if x.negative then ['-'] else [] := by
    split <;> rfl
  unfold toText unsignedText
  simp only
  cases hzero : x.isZero with
  | true =>
      have hshortest : x.shortest = ⟨0, 0⟩ := by
        unfold shortest
        rw [hzero]
        rfl
      rw [if_pos rfl, String.toList_append, hsign, hshortest]
      congr 1
  | false =>
      rw [if_neg (by simp), String.toList_append, hsign]
      congr 1
      by_cases h : -5 ≤ x.shortest.leadingExponent ∧ x.shortest.leadingExponent < 16
      · rw [if_pos h, if_pos (by simpa using h)]
      · rw [if_neg h, if_neg (by simpa using h)]

theorem head_unsignedText (x : Binary64) : ∀ c ∈ x.unsignedText.head?, c.isDigit = true := by
  unfold unsignedText
  split
  · exact x.shortest.head_plain
  · exact x.shortest.head_scientific

/-- A float shows that it is none of the integers. -/
theorem mark_mem_toText (x : Binary64) : '.' ∈ x.toText.toList ∨ 'e' ∈ x.toText.toList := by
  have hunsigned : '.' ∈ x.unsignedText ∨ 'e' ∈ x.unsignedText := by
    unfold unsignedText
    split
    · exact Or.inl x.shortest.point_mem_plain
    · exact Or.inr x.shortest.e_mem_scientific
  rw [toText_toList]
  exact hunsigned.imp (List.mem_append_right _) (List.mem_append_right _)

/-- The text shows the value of the shortest decimal. -/
theorem value_eq_of_unsignedText_eq {x y : Binary64} (h : x.unsignedText = y.unsignedText) :
    x.shortest.value = y.shortest.value := by
  unfold unsignedText at h
  split_ifs at h
  · exact Decimal.value_eq_of_plain_eq h
  · exact absurd (h ▸ y.shortest.e_mem_scientific) x.shortest.e_notMem_plain
  · exact absurd (h ▸ x.shortest.e_mem_scientific) y.shortest.e_notMem_plain
  · exact Decimal.value_eq_of_scientific_eq h

/-- **Floats with the same text are the same.** -/
theorem toText_injective {x y : Binary64} (hx : x.IsCanonical) (hy : y.IsCanonical)
    (h : x.toText = y.toText) : x = y := by
  have hlist := congrArg String.toList h
  rw [toText_toList, toText_toList] at hlist
  have hminus (z : Binary64) : ∀ c ∈ z.unsignedText.head?, (c == '-') = false := by
    intro c hc
    have hdigit := head_unsignedText z c hc
    rw [beq_eq_false_iff_ne]
    rintro rfl
    exact absurd hdigit (by decide)
  have hsigns (z : Binary64) : ∀ c ∈ (if z.negative then ['-'] else []), (c == '-') = true := by
    split <;> simp
  obtain ⟨hsign, htext⟩ := Text.run_append_inj (hsigns x) (hsigns y) (hminus x) (hminus y) hlist
  have hnegative : x.negative = y.negative := by
    cases hxn : x.negative <;> cases hyn : y.negative <;> simp_all
  have hvalue := value_eq_of_unsignedText_eq htext
  have hzeroValue {z : Binary64} (hz : z.isZero = true) : z.shortest.value = 0 := by
    unfold shortest
    rw [hz]
    simp [Decimal.value]
  have hpos {z : Binary64} (hz : z.isZero = false) : 0 < z.shortest.value :=
    value_pos_of_readsBack hz (readsBack_shortest hz)
  have hsame : x.mantissa = y.mantissa ∧ x.exponent = y.exponent := by
    cases hxz : x.isZero with
    | true =>
        cases hyz : y.isZero with
        | true =>
            have hx0 : x.mantissa = 0 := by simpa [isZero] using hxz
            have hy0 : y.mantissa = 0 := by simpa [isZero] using hyz
            unfold IsCanonical at hx hy
            omega
        | false => exact absurd (hpos hyz) (by rw [← hvalue, hzeroValue hxz]; exact lt_irrefl 0)
    | false =>
        cases hyz : y.isZero with
        | true => exact absurd (hpos hxz) (by rw [hvalue, hzeroValue hyz]; exact lt_irrefl 0)
        | false =>
            exact readsBack_unique hx hy (readsBack_shortest hxz)
              (readsBack_of_value_eq hvalue.symm (readsBack_shortest hyz))
  obtain ⟨xn, xm, xe⟩ := x
  obtain ⟨yn, ym, ye⟩ := y
  simp_all

end Binary64

end DecoderForge
