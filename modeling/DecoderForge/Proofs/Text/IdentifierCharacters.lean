import DecoderForge.Proofs.Text.Case
import Mathlib.Data.List.Sort
import Mathlib.Data.List.TakeWhile

/-!
# DecoderForge — the characters of identifiers in Unicode

The properties ID_Start and ID_Continue of Unicode 16, put together from general categories and a few code points
of their own.  Among letters and numbers those that cannot go on an identifier have neither capital nor small
forms, and the forms of all others can go on one.

## The architecture

* **`isIdStart`**, **`isIdContinue`** — what an identifier may begin with, and go on with.
* **`Spans.covers`**, **`Spans.hasNone`** — whether spans have others in them, or nothing of a span.
* **`startSpans`**, **`startsOnly`** — first characters, and what has no others.
* **`Settled`** — a form that is its character, or an identifier made of one.
* **`settled_mapped`** — a whole case mapping is settled, told from its tables.
-/

namespace DecoderForge.Text

/-! ## Tables -/

/-- Code points of general category Nl: numbers that are letters. -/
def letterNumbers : Spans := Spans.ofTriples [
  (5870, 5872, 1), (8544, 8578, 1), (8581, 8584, 1), (12295, 12295, 1), (12321, 12329, 1),
  (12344, 12346, 1), (42726, 42735, 1), (65856, 65908, 1), (66369, 66369, 1), (66378, 66378, 1),
  (66513, 66517, 1), (74752, 74862, 1)]

/-- Code points of general category Me: marks that enclose what they follow. -/
def enclosingMarks : Spans := Spans.ofTriples [
  (1160, 1161, 1), (6846, 6846, 1), (8413, 8416, 1), (8418, 8420, 1), (42608, 42610, 1)]

/-- Code points with property Other_ID_Start. -/
def otherIdStart : Spans := Spans.ofTriples [
  (6277, 6278, 1), (8472, 8472, 1), (8494, 8494, 1), (12443, 12444, 1)]

/-- Code points with property Other_ID_Continue. -/
def otherIdContinue : Spans := Spans.ofTriples [
  (183, 183, 1), (903, 903, 1), (4969, 4977, 1), (6618, 6618, 1), (8204, 8205, 1),
  (12539, 12539, 1), (65381, 65381, 1)]

/-- Code points with property Pattern_Syntax. -/
def patternSyntax : Spans := Spans.ofTriples [
  (33, 47, 1), (58, 64, 1), (91, 94, 1), (96, 96, 1), (123, 126, 1), (161, 167, 1), (169, 169, 1),
  (171, 172, 1), (174, 174, 1), (176, 177, 1), (182, 182, 1), (187, 187, 1), (191, 191, 1),
  (215, 215, 1), (247, 247, 1), (8208, 8231, 1), (8240, 8254, 1), (8257, 8275, 1), (8277, 8286, 1),
  (8592, 9311, 1), (9472, 10101, 1), (10132, 11263, 1), (11776, 11903, 1), (12289, 12291, 1),
  (12296, 12320, 1), (12336, 12336, 1), (64830, 64831, 1), (65093, 65094, 1)]

/-- Code points with property Pattern_White_Space. -/
def patternWhiteSpace : Spans := Spans.ofTriples [
  (9, 13, 1), (32, 32, 1), (133, 133, 1), (8206, 8207, 1), (8232, 8233, 1)]

/-- Whether a code point belongs to the syntax of patterns, which no identifier has. -/
def isPattern (n : Nat) : Bool := patternSyntax.has n || patternWhiteSpace.has n

/-- Code points with property ID_Start. -/
def idStart (n : Nat) : Bool := (letters.has n || letterNumbers.has n || otherIdStart.has n) && !isPattern n

/-- Code points with property ID_Continue. -/
def idContinue (n : Nat) : Bool :=
  idStart n
    || ((marks.has n && !enclosingMarks.has n) || decimalDigits.has n || connectors.has n || otherIdContinue.has n)
      && !isPattern n

/-- What an identifier may begin with. -/
def isIdStart (c : Char) : Bool := idStart c.toNat

/-- What an identifier may go on with. -/
def isIdContinue (c : Char) : Bool := idContinue c.toNat

/-! ## Spans -/

/-- Whether a code point is one of a span. -/
def Span.holds (s : Span) (n : Nat) : Bool :=
  Nat.ble s.first n && Nat.ble n s.last && Nat.beq ((n - s.first) % s.step) 0

theorem Span.holds_iff {s : Span} {n : Nat} :
    s.holds n = true ↔ s.first ≤ n ∧ n ≤ s.last ∧ (n - s.first) % s.step = 0 := by
  simp [holds, and_assoc]

/-- Whether the code points of a span are among those of another. -/
def Span.includes (s t : Span) : Bool :=
  Nat.ble t.last s.last && (Nat.ble s.first t.first && (Nat.beq ((t.first - s.first) % s.step) 0
    && (Nat.beq (t.step % s.step) 0 || Nat.beq t.first t.last)))

theorem Span.holds_of_includes {s t : Span} (h : s.includes t = true) {n : Nat} (hn : t.holds n = true) :
    s.holds n = true := by
  simp only [includes, Bool.and_eq_true, Bool.or_eq_true, Nat.ble_eq, Nat.beq_eq] at h
  obtain ⟨hlast, hfirst, hoffset, hsteps⟩ := h
  obtain ⟨hnfirst, hnlast, hnstep⟩ := holds_iff.mp hn
  have hdvd : s.step ∣ n - t.first := by
    rcases hsteps with hsteps | hone
    · exact Nat.dvd_trans (Nat.dvd_of_mod_eq_zero hsteps) (Nat.dvd_of_mod_eq_zero hnstep)
    · exact ⟨0, by omega⟩
  have hsum : (n - t.first) + (t.first - s.first) = n - s.first := by omega
  refine holds_iff.mpr ⟨by omega, by omega, Nat.mod_eq_zero_of_dvd ?_⟩
  rw [← hsum]
  exact Nat.dvd_add hdvd (Nat.dvd_of_mod_eq_zero hoffset)

/-- The span of one code point. -/
def Span.point (n : Nat) : Span := ⟨n, n, 0⟩

theorem Span.holds_point (n : Nat) : (point n).holds n = true :=
  holds_iff.mpr ⟨Nat.le_refl n, Nat.le_refl n, by simp [point]⟩

/-- A short span with gaps as its code points, any other as it is. -/
def Span.pieces (s : Span) : Spans :=
  bif Nat.blt 1 s.step && Nat.blt s.last (s.first + 8) then
    (List.range ((s.last - s.first) / s.step + 1)).map fun i => point (s.first + i * s.step)
  else [s]

theorem Span.exists_piece {s : Span} {n : Nat} (h : s.holds n = true) : ∃ t ∈ s.pieces, t.holds n = true := by
  unfold pieces
  cases Nat.blt 1 s.step && Nat.blt s.last (s.first + 8) with
  | true =>
      obtain ⟨hfirst, hlast, hstep⟩ := holds_iff.mp h
      have hdiv := Nat.div_add_mod (n - s.first) s.step
      rw [hstep, Nat.mul_comm] at hdiv
      have hle : (n - s.first) / s.step ≤ (s.last - s.first) / s.step := Nat.div_le_div_right (by omega)
      have hpoint : s.first + (n - s.first) / s.step * s.step = n := by omega
      refine ⟨point n, ?_, holds_point n⟩
      rw [cond_true]
      exact List.mem_map.mpr ⟨(n - s.first) / s.step, List.mem_range.mpr (by omega), by rw [hpoint]⟩
  | false => exact ⟨s, List.mem_singleton_self s, h⟩

namespace Spans

/-- What spans have is held by one of them. -/
theorem exists_of_has : ∀ {spans : Spans} {n : Nat}, spans.has n = true → ∃ s ∈ spans, s.holds n = true
  | [], _, h => absurd h (by simp [has])
  | s :: rest, n, h => by
      unfold has at h
      split at h
      · exact absurd h (by simp)
      · split at h
        · next hfirst hlast =>
          exact ⟨s, List.mem_cons_self, Span.holds_iff.mpr ⟨by omega, hlast, beq_iff_eq.mp h⟩⟩
        · obtain ⟨t, ht, hholds⟩ := exists_of_has h
          exact ⟨t, List.mem_cons_of_mem s ht, hholds⟩

/-- Whether spans come in ascending order. -/
def ascending : Spans → Bool
  | [] => true
  | [s] => Nat.ble s.first s.last
  | s :: t :: rest => Nat.ble s.first s.last && Nat.blt s.last t.first && ascending (t :: rest)

theorem lt_of_ascending : ∀ {s : Span} {rest : Spans}, ascending (s :: rest) = true →
    ascending rest = true ∧ s.first ≤ s.last ∧ ∀ t ∈ rest, s.last < t.first
  | s, [], h => by simpa [ascending] using h
  | s, t :: rest, h => by
      simp only [ascending, Bool.and_eq_true, Nat.ble_eq, Nat.blt_eq] at h
      obtain ⟨⟨hs, hst⟩, hrest⟩ := h
      obtain ⟨-, ht, hlt⟩ := lt_of_ascending hrest
      refine ⟨hrest, hs, List.forall_mem_cons.mpr ⟨hst, fun u hu => ?_⟩⟩
      have := hlt u hu
      omega

/-- Ascending spans have what one of them holds. -/
theorem has_of_holds : ∀ {spans : Spans}, spans.ascending = true → ∀ {s : Span} {n : Nat}, s ∈ spans →
    s.holds n = true → spans.has n = true
  | t :: rest, hascending, s, n, hs, hholds => by
      obtain ⟨hrest, ht, hlt⟩ := lt_of_ascending hascending
      obtain ⟨hfirst, hlast, hstep⟩ := Span.holds_iff.mp hholds
      unfold has
      rcases List.mem_cons.mp hs with rfl | hs
      · rw [if_neg (by omega), if_pos hlast, hstep]
        rfl
      · have := hlt s hs
        rw [if_neg (by omega), if_neg (by omega)]
        exact has_of_holds hrest hs hholds

/-- Whether spans hold no code point from `first` to `last`. -/
def hasNone (first last : Nat) : Spans → Bool
  | [] => true
  | s :: rest => Nat.blt last s.first || Nat.blt s.last first && hasNone first last rest

theorem has_of_hasNone : ∀ {spans : Spans} {first last : Nat}, spans.hasNone first last = true →
    ∀ {n : Nat}, first ≤ n → n ≤ last → spans.has n = false
  | [], _, _, _, _, _, _ => rfl
  | s :: rest, first, last, h, n, hfirst, hlast => by
      simp only [hasNone, Bool.or_eq_true, Bool.and_eq_true, Nat.blt_eq] at h
      unfold has
      by_cases hbefore : n < s.first
      · exact if_pos hbefore
      · obtain hbelow | ⟨habove, hrest⟩ := h
        · omega
        · rw [if_neg hbefore, if_neg (by omega)]
          exact has_of_hasNone hrest hfirst hlast

/-- Whether spans that come in the same order are each included in one. -/
def covers : Spans → Spans → Bool
  | [], ts => ts.isEmpty
  | s :: rest, ts => covers rest (ts.dropWhile s.includes)

theorem exists_of_covers : ∀ {spans ts : Spans}, spans.covers ts = true →
    ∀ {t : Span} {n : Nat}, t ∈ ts → t.holds n = true → ∃ s ∈ spans, s.holds n = true
  | [], ts, h, t, _, ht, _ => by
      rw [covers, List.isEmpty_iff] at h
      rw [h] at ht
      exact absurd ht List.not_mem_nil
  | s :: rest, ts, h, t, n, ht, hn => by
      rw [← List.takeWhile_append_dropWhile (p := s.includes) (l := ts)] at ht
      rcases List.mem_append.mp ht with ht | ht
      · exact ⟨s, List.mem_cons_self, Span.holds_of_includes (List.mem_takeWhile_imp ht) hn⟩
      · have hrest : covers rest (ts.dropWhile s.includes) = true := h
        obtain ⟨u, hu, hholds⟩ := exists_of_covers hrest ht hn
        exact ⟨u, List.mem_cons_of_mem s hu, hholds⟩

end Spans

/-! ## First characters -/

/-- The spans of letters in which some letter has a capital or a small form, or is one. -/
def casedLetters : Spans := Spans.ofTriples [
  (65, 90, 1), (97, 122, 1), (181, 181, 1), (192, 214, 1), (216, 246, 1), (248, 705, 1),
  (880, 884, 1), (886, 887, 1), (890, 893, 1), (895, 895, 1), (902, 902, 1), (904, 906, 1),
  (908, 908, 1), (910, 929, 1), (931, 1013, 1), (1015, 1153, 1), (1162, 1327, 1), (1329, 1366, 1),
  (1376, 1416, 1), (4256, 4293, 1), (4295, 4295, 1), (4301, 4301, 1), (4304, 4346, 1),
  (4348, 4680, 1), (5024, 5109, 1), (5112, 5117, 1), (7296, 7306, 1), (7312, 7354, 1),
  (7357, 7359, 1), (7424, 7615, 1), (7680, 7957, 1), (7960, 7965, 1), (7968, 8005, 1),
  (8008, 8013, 1), (8016, 8023, 1), (8025, 8029, 2), (8031, 8061, 1), (8064, 8116, 1),
  (8118, 8124, 1), (8126, 8126, 1), (8130, 8132, 1), (8134, 8140, 1), (8144, 8147, 1),
  (8150, 8155, 1), (8160, 8172, 1), (8178, 8180, 1), (8182, 8188, 1), (8484, 8488, 2),
  (8490, 8493, 1), (8495, 8505, 1), (8526, 8526, 1), (8579, 8580, 1), (11264, 11492, 1),
  (11499, 11502, 1), (11506, 11507, 1), (11520, 11557, 1), (11559, 11559, 1), (11565, 11565, 1),
  (42560, 42606, 1), (42623, 42653, 1), (42786, 42888, 1), (42891, 42957, 1), (42960, 42961, 1),
  (42965, 42972, 1), (42994, 43009, 1), (43824, 43866, 1), (43888, 44002, 1), (64256, 64262, 1),
  (64275, 64279, 1), (65313, 65338, 1), (65345, 65370, 1), (66560, 66717, 1), (66736, 66771, 1),
  (66776, 66811, 1), (66928, 66938, 1), (66940, 66954, 1), (66956, 66962, 1), (66964, 66965, 1),
  (66967, 66977, 1), (66979, 66993, 1), (66995, 67001, 1), (67003, 67004, 1), (68736, 68786, 1),
  (68800, 68850, 1), (68938, 68965, 1), (68975, 68997, 1), (71840, 71903, 1), (93760, 93823, 1),
  (125184, 125251, 1)]

/-- The Roman numerals: the letter numbers that have capital or small forms are among them. -/
def romanNumerals : Span := ⟨0x2160, 0x2182, 1⟩

/-- Spans of letters and of letter numbers in ascending order, with all that have a capital or a small form.
They are a small part of all letters, so that each table of forms is checked along a short list. -/
def startSpans : Spans :=
  casedLetters.takeWhile (fun s => Nat.blt s.first romanNumerals.first)
    ++ romanNumerals :: casedLetters.dropWhile fun s => Nat.blt s.first romanNumerals.first

set_option maxRecDepth 20000 in
/-- The spans are of letters, come in order, have nothing of the syntax of patterns, and are of characters. -/
theorem startSpans_checked :
    (letters.ascending = true ∧ letters.covers casedLetters = true) ∧ startSpans.ascending = true
      ∧ (patternSyntax ++ patternWhiteSpace).all (fun t => startSpans.hasNone t.first t.last) = true
      ∧ startSpans.hasNone 0xD800 0xDFFF = true ∧ startSpans.all (fun s => Nat.blt s.last 0x110000) = true := by
  decide +kernel

theorem isPattern_of_startSpans {n : Nat} (h : startSpans.has n = true) : isPattern n = false := by
  obtain ⟨-, -, hnoPattern, -⟩ := startSpans_checked
  by_contra hpattern
  have hholds : ∃ t ∈ patternSyntax ++ patternWhiteSpace, t.holds n = true := by
    rcases Bool.or_eq_true_iff.mp (eq_true_of_ne_false hpattern) with hsigns | hspaces
    · obtain ⟨t, ht, hn⟩ := Spans.exists_of_has hsigns
      exact ⟨t, List.mem_append_left _ ht, hn⟩
    · obtain ⟨t, ht, hn⟩ := Spans.exists_of_has hspaces
      exact ⟨t, List.mem_append_right _ ht, hn⟩
  obtain ⟨t, ht, hn⟩ := hholds
  obtain ⟨hfirst, hlast, -⟩ := Span.holds_iff.mp hn
  rw [Spans.has_of_hasNone (List.all_eq_true.mp hnoPattern t ht) hfirst hlast] at h
  exact absurd h Bool.false_ne_true

/-- What a span of first characters holds is a first character. -/
theorem isIdStart_of_holds {s : Span} (hs : s ∈ startSpans) {n : Nat} (hn : s.holds n = true) :
    isIdStart (Char.ofNat n) = true := by
  obtain ⟨⟨hletters, hcased⟩, hstarts, -, hsurrogates, hbound⟩ := startSpans_checked
  have hstart : startSpans.has n = true := Spans.has_of_holds hstarts hs hn
  obtain ⟨hfirst, hlast, -⟩ := Span.holds_iff.mp hn
  have hvalid : n.isValidChar := by
    have hlow : s.last < 0x110000 := by simpa using List.all_eq_true.mp hbound s hs
    by_contra hinvalid
    unfold Nat.isValidChar at hinvalid
    rw [Spans.has_of_hasNone hsurrogates (by omega) (by omega)] at hstart
    exact absurd hstart Bool.false_ne_true
  have htoNat : (Char.ofNat n).toNat = n := by
    rw [Char.ofNat, dif_pos hvalid]
    rfl
  -- a span of `casedLetters` is a part of a span of all letters
  have hmem : s ∈ casedLetters → letters.has n = true := by
    intro hs
    obtain ⟨t, ht, hholds⟩ := Spans.exists_of_covers hcased hs hn
    exact Spans.has_of_holds hletters ht hholds
  have hletter : (letters.has n || letterNumbers.has n) = true := by
    rw [Bool.or_eq_true]
    rcases List.mem_append.mp hs with hs | hs
    · exact .inl (hmem ((List.takeWhile_prefix _).subset hs))
    rcases List.mem_cons.mp hs with rfl | hs
    · exact .inr (Spans.has_of_holds (by decide) (.tail _ (.head _) : romanNumerals ∈ letterNumbers) hn)
    · exact .inl (hmem ((List.dropWhile_suffix _).subset hs))
  rw [isIdStart, htoNat, idStart, hletter, isPattern_of_startSpans hstart]
  rfl

/-- Whether spans, put in order, have first characters only. -/
def startsOnly (ts : Spans) : Bool :=
  startSpans.covers ((ts.insertionSort fun s t => Nat.ble s.first t.first = true).flatMap Span.pieces)

theorem isIdStart_of_startsOnly {ts : Spans} (h : startsOnly ts = true) {t : Span} (ht : t ∈ ts) {n : Nat}
    (hn : t.holds n = true) : isIdStart (Char.ofNat n) = true := by
  obtain ⟨u, hu, hpiece⟩ := Span.exists_piece hn
  obtain ⟨s, hs, hholds⟩ := Spans.exists_of_covers h
    (List.mem_flatMap.mpr ⟨t, (List.mem_insertionSort _).mpr ht, hu⟩) hpiece
  exact isIdStart_of_holds hs hholds

theorem isIdContinue_of_isIdStart {c : Char} (h : isIdStart c = true) : isIdContinue c = true := by
  rw [isIdContinue, idContinue, show idStart c.toNat = true from h, Bool.true_or]

/-- A letter that can go on an identifier can begin one. -/
theorem isIdStart_of_isLetter {c : Char} (hletter : isLetter c = true) (h : isIdContinue c = true) :
    isIdStart c = true := by
  simp only [isIdContinue, idContinue, Bool.or_eq_true, Bool.and_eq_true] at h
  rcases h with h | ⟨-, hpattern⟩
  · exact h
  · simp [isIdStart, idStart, show letters.has c.toNat = true from hletter, hpattern]

/-! ## Case forms -/

/-- Whether characters are an identifier without dollar sign and underscore. -/
def isName : List Char → Bool
  | [] => false
  | c :: rest => isIdStart c && rest.all isIdContinue

/-- A form of a character is the character, or both are identifiers. -/
def Settled (c : Char) (form : List Char) : Prop := form = [c] ∨ isIdStart c = true ∧ isName form = true

/-- Code points that have a capital or a small form and are neither letters nor numbers. -/
def wordless : Spans := Spans.ofTriples [(0x345, 0x345, 1), (0x24B6, 0x24E9, 1)]

/-- Whether a span has only code points that are neither letters nor numbers. -/
def Span.isWordless (s : Span) : Bool := wordless.any fun t => Nat.ble t.first s.first && Nat.ble s.last t.last

set_option maxRecDepth 20000 in
theorem wordless_hasNone :
    wordless.all (fun t => letters.hasNone t.first t.last && numbers.hasNone t.first t.last) = true := by
  decide +kernel

theorem not_word_of_isWordless {s : Span} (hs : s.isWordless = true) {c : Char} (h : s.holds c.toNat = true) :
    (isLetter c || isNumeric c) = false := by
  obtain ⟨t, ht, hbounds⟩ := List.any_eq_true.mp hs
  simp only [Bool.and_eq_true, Nat.ble_eq] at hbounds
  obtain ⟨hfirst, hlast, -⟩ := Span.holds_iff.mp h
  have hnone := List.all_eq_true.mp wordless_hasNone t ht
  obtain ⟨hletters, hnumbers⟩ := Bool.and_eq_true_iff.mp hnone
  rw [isLetter, isNumeric, Spans.has_of_hasNone hletters (by omega) (by omega),
    Spans.has_of_hasNone hnumbers (by omega) (by omega)]
  rfl

/-- The code points that a span of shifts moves. -/
def sourceOf : Nat × Nat × Nat × Int → Span
  | (first, last, step, _) => ⟨first, last, step⟩

/-- The code points to which it moves them. -/
def imageOf : Nat × Nat × Nat × Int → Span
  | (first, last, step, distance) => ⟨((first : Int) + distance).toNat, ((last : Int) + distance).toNat, step⟩

/-- The spans of shifts that move letters or numbers. -/
def worded (shifts : List (Nat × Nat × Nat × Int)) : List (Nat × Nat × Nat × Int) :=
  shifts.filter fun e => !(sourceOf e).isWordless

/-- Whether shifts move letters and numbers that can begin an identifier to others that can. -/
def movesStarts (shifts : List (Nat × Nat × Nat × Int)) : Bool :=
  startsOnly ((worded shifts).map sourceOf) && startsOnly ((worded shifts).map imageOf)
    && (worded shifts).all fun (first, _, _, distance) => decide (0 ≤ (first : Int) + distance)

/-- A shifted letter or number is settled. -/
theorem settled_shift {shifts : List (Nat × Nat × Nat × Int)} (h : movesStarts shifts = true) {c : Char}
    (hword : (isLetter c || isNumeric c) = true) : Settled c [Char.ofNat (shift shifts c.toNat)] := by
  rcases shift_cases shifts c.toNat with
    hstays | ⟨first, last, step, distance, hmem, hfirst, hlast, hstep, hmoved⟩
  · rw [hstays, Char.ofNat_toNat]
    exact .inl rfl
  have hsource : (sourceOf (first, last, step, distance)).holds c.toNat = true :=
    Span.holds_iff.mpr ⟨hfirst, hlast, hstep⟩
  by_cases hwordless : (sourceOf (first, last, step, distance)).isWordless = true
  · -- circled letters and the mark of an iota below have forms, but are neither letters nor numbers
    rw [not_word_of_isWordless hwordless hsource] at hword
    exact absurd hword Bool.false_ne_true
  have hworded : (first, last, step, distance) ∈ worded shifts :=
    List.mem_filter.mpr ⟨hmem, by simp [hwordless]⟩
  simp only [movesStarts, Bool.and_eq_true] at h
  obtain ⟨⟨hsources, himages⟩, hnonneg⟩ := h
  have hzero : 0 ≤ (first : Int) + distance := by simpa using List.all_eq_true.mp hnonneg _ hworded
  have himage : (imageOf (first, last, step, distance)).holds ((c.toNat : Int) + distance).toNat = true := by
    refine Span.holds_iff.mpr ⟨?_, ?_, ?_⟩
    · simp only [imageOf]; omega
    · simp only [imageOf]; omega
    · have hsame : ((c.toNat : Int) + distance).toNat - ((first : Int) + distance).toNat = c.toNat - first := by
        omega
      simp only [imageOf, hsame, hstep]
  refine .inr ⟨?_, ?_⟩
  · simpa only [Char.ofNat_toNat] using isIdStart_of_startsOnly hsources (List.mem_map_of_mem hworded) hsource
  · rw [hmoved, isName, isIdStart_of_startsOnly himages (List.mem_map_of_mem hworded) himage]
    rfl

/-- Whether a table of characters with several images makes identifiers of what can begin one. -/
def makesNames (many : List (Nat × List Nat)) : Bool :=
  startsOnly (many.map fun e => Span.point e.1) && startsOnly (many.map fun e => Span.point (e.2.headD 0))
    && many.all fun e => !e.2.isEmpty && e.2.tail.all fun n => isIdContinue (Char.ofNat n)

/-- A letter or a number with several images is settled. -/
theorem settled_lookup {many : List (Nat × List Nat)} (h : makesNames many = true) {c : Char}
    {codes : List Nat} (hlookup : many.lookup c.toNat = some codes) : Settled c (codes.map Char.ofNat) := by
  obtain ⟨l₁, l₂, heq, -⟩ := List.lookup_eq_some_iff.mp hlookup
  have hmem : (c.toNat, codes) ∈ many := by simp [heq]
  simp only [makesNames, Bool.and_eq_true] at h
  obtain ⟨⟨hsources, hheads⟩, htails⟩ := h
  have hsource : isIdStart (Char.ofNat c.toNat) = true :=
    isIdStart_of_startsOnly hsources (List.mem_map_of_mem hmem) (Span.holds_point _)
  have hhead : isIdStart (Char.ofNat (codes.headD 0)) = true :=
    isIdStart_of_startsOnly hheads (List.mem_map_of_mem hmem) (Span.holds_point _)
  have htail := List.all_eq_true.mp htails _ hmem
  rw [Char.ofNat_toNat] at hsource
  refine .inr ⟨hsource, ?_⟩
  cases codes with
  | nil => simp at htail
  | cons n rest =>
      rw [List.headD_cons] at hhead
      rw [List.map_cons, isName, hhead]
      simpa using htail

set_option maxRecDepth 20000 in
/-- The tables of capital and of small forms move first characters to such, and make names of them. -/
theorem tables_checked :
    (movesStarts upperShifts = true ∧ makesNames upperMany = true)
      ∧ movesStarts lowerShifts = true ∧ makesNames lowerMany = true := by
  decide +kernel

/-- **The form of a letter or a number is settled**, if its tables move identifiers to identifiers and it is
settled within ASCII. -/
theorem settled_mapped {f : Char → Char} {many : List (Nat × List Nat)} {shifts : List (Nat × Nat × Nat × Int)}
    (hmany : makesNames many = true) (hshifts : movesStarts shifts = true) {c : Char}
    (hword : (isLetter c || isNumeric c) = true) (hascii : c.toNat < 0x80 → Settled c [f c]) :
    Settled c (if c.toNat < 0x80 then [f c]
      else match many.lookup c.toNat with
        | some codes => codes.map Char.ofNat
        | none => [Char.ofNat (shift shifts c.toNat)]) := by
  by_cases hlow : c.toNat < 0x80
  · rw [if_pos hlow]
    exact hascii hlow
  rw [if_neg hlow]
  split
  · next codes hlookup => exact settled_lookup hmany hlookup
  · exact settled_shift hshifts hword

/-- **The capital form of a letter or a number is settled.** -/
theorem settled_toUpper {c : Char} (h : (isLetter c || isNumeric c) = true) : Settled c (toUpper c) :=
  settled_mapped tables_checked.1.2 tables_checked.1.1 h fun hlow =>
    ascii_of_all (q := fun c => (isLetter c || isNumeric c) = true → Settled c [c.toUpper])
      (by unfold Settled; decide) hlow h

/-- **The small form of a letter or a number is settled.** -/
theorem settled_toLower {c : Char} (h : (isLetter c || isNumeric c) = true) : Settled c (toLower c) :=
  settled_mapped tables_checked.2.2 tables_checked.2.1 h fun hlow =>
    ascii_of_all (q := fun c => (isLetter c || isNumeric c) = true → Settled c [c.toLower])
      (by unfold Settled; decide) hlow h

namespace Settled

variable {c : Char} {form : List Char}

/-- A settled form can go on an identifier as a whole, if its character can. -/
theorem forall_isIdContinue (h : Settled c form) (hc : isIdContinue c = true) :
    ∀ d ∈ form, isIdContinue d = true := by
  rcases h with rfl | ⟨-, hname⟩
  · simpa using hc
  · cases form with
    | nil => simp
    | cons d rest =>
        obtain ⟨hd, hrest⟩ := Bool.and_eq_true_iff.mp hname
        exact List.forall_mem_cons.mpr ⟨isIdContinue_of_isIdStart hd, List.all_eq_true.mp hrest⟩

/-- The first character of a settled form can begin an identifier, if it is not a number. -/
theorem head (h : Settled c form) (hword : (isLetter c || isNumeric c) = true) (hc : isIdContinue c = true) :
    ∀ d ∈ form.head?, isIdStart d = true ∨ isNumeric d = true := by
  rcases h with rfl | ⟨-, hname⟩
  · rintro d ⟨⟩
    exact (Bool.or_eq_true_iff.mp hword).imp_left fun hletter => isIdStart_of_isLetter hletter hc
  · cases form with
    | nil => simp
    | cons d rest =>
        rintro e ⟨⟩
        exact .inl (Bool.and_eq_true_iff.mp hname).1

/-- What cannot go on an identifier is its own form. -/
theorem eq_self (h : Settled c form) (hc : isIdContinue c = false) : form = [c] := by
  rcases h with h | ⟨hstart, -⟩
  · exact h
  · rw [isIdContinue_of_isIdStart hstart] at hc
    exact absurd hc Bool.noConfusion

end Settled

end DecoderForge.Text
