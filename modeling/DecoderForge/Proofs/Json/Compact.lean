import DecoderForge.Proofs.Json.Printed
import DecoderForge.Proofs.Schema.Inside

/-!
# DecoderForge — values are read off their compact text

Compact text shows the value that it was written for.  The first character tells what kind of value begins, a
string ends at its quote, a list or an object at its bracket, and a number at the comma or bracket behind it.

## The architecture

* **`Number.toText_injective`** — numbers with the same text are the same.
* **`Ends`** — text that may follow a value.
* **`compact_append_inj`** — a value shows where it ends, by induction on the values inside it.
* **`compact_injective`** — values with the same text are the same.
-/

namespace DecoderForge.Json

open Layout (isNumeral numeral_toText toList_intercalate)

/-! ## Numbers -/

/-- Floats in the form that every float has. -/
def Number.IsCanonical : Number → Prop
  | .int _ => True
  | .float x => x.IsCanonical

instance : DecidablePred Number.IsCanonical
  | .int _ => inferInstanceAs (Decidable True)
  | .float x => inferInstanceAs (Decidable x.IsCanonical)

theorem Number.intText_toList (i : Int) :
    (toString i).toList = (if i < 0 then ['-'] else []) ++ (toString i.natAbs).toList := by
  cases i with
  | ofNat n => rfl
  | negSucc n =>
      show ("-" ++ toString (n + 1)).toList = _
      rw [String.toList_append, if_pos (Int.negSucc_lt_zero n)]
      rfl

/-- Integers with the same text are the same: the sign is no digit. -/
theorem Number.intText_injective {i j : Int} (h : toString i = toString j) : i = j := by
  have hlist := congrArg String.toList h
  rw [intText_toList, intText_toList] at hlist
  have hminus (n : Nat) : ∀ c ∈ (toString n).toList.head?, (c == '-') = false := by
    intro c hc
    have hdigit := Text.isDigit_of_mem_numeral c (List.mem_of_mem_head? hc)
    rw [beq_eq_false_iff_ne]
    rintro rfl
    exact absurd hdigit (by decide)
  have hsigns (i : Int) : ∀ c ∈ (if i < 0 then ['-'] else []), (c == '-') = true := by
    split <;> simp
  obtain ⟨hsign, hnumeral⟩ := Text.run_append_inj (hsigns i) (hsigns j) (hminus _) (hminus _) hlist
  have habs : i.natAbs = j.natAbs := (Text.numeral_append_inj (by simp) (by simp) (congrArg (· ++ []) hnumeral)).1
  have hneg : i < 0 ↔ j < 0 := by
    by_cases hi : i < 0 <;> by_cases hj : j < 0 <;> simp [hi, hj] at hsign ⊢
  omega

/-- An integer has neither point nor exponent. -/
theorem Number.mark_notMem_intText (i : Int) : '.' ∉ (toString i).toList ∧ 'e' ∉ (toString i).toList := by
  have hsign {c : Char} (hc : c ≠ '-') : c ∉ (if i < 0 then ['-'] else []) := by
    split <;> simp [hc]
  have hdigits {c : Char} (hc : c.isDigit = false) : c ∉ (toString i.natAbs).toList := fun h =>
    absurd (Text.isDigit_of_mem_numeral c h) (by simp [hc])
  rw [intText_toList, List.mem_append, List.mem_append, not_or, not_or]
  exact ⟨⟨hsign (by decide), hdigits rfl⟩, hsign (by decide), hdigits rfl⟩

/-- **Numbers with the same text are the same.** -/
theorem Number.toText_injective {n m : Number} (hn : n.IsCanonical) (hm : m.IsCanonical)
    (h : n.toText = m.toText) : n = m := by
  -- a float has a point or an exponent, which an integer has not
  have hapart {i : Int} {x : Binary64} (h : toString i = x.toText) : False := by
    obtain ⟨hpoint, he⟩ := mark_notMem_intText i
    rw [h] at hpoint he
    exact x.mark_mem_toText.elim hpoint he
  cases n with
  | int i => cases m with
    | int j => exact congrArg Number.int (intText_injective h)
    | float y => exact (hapart h).elim
  | float x => cases m with
    | int j => exact (hapart h.symm).elim
    | float y => exact congrArg Number.float (Binary64.toText_injective hn hm h)

/-! ## Values -/

/-- Whether all floats in a value, at any depth, have the form that every float has. -/
def HasCanonicalNumbers (v : Json) : Prop := ∀ n, .num n ∈ v.values → n.IsCanonical

theorem HasCanonicalNumbers.inside {w v : Json} (h : v.HasCanonicalNumbers) (hw : Inside w v) :
    w.HasCanonicalNumbers := fun n hn => h n (hw.values_subset hn)

/-- Text that may follow a value: nothing, or a comma or bracket. -/
def Ends (r : List Char) : Prop := ∀ c ∈ r.head?, c = ',' ∨ c = ']' ∨ c = '\x7d'

theorem Ends.isNumeral {r : List Char} (h : Ends r) : ∀ c ∈ r.head?, isNumeral c = false := by
  intro c hc
  rcases h c hc with rfl | rfl | rfl <;> rfl

/-- Values and members stand between commas, and a bracket behind them. -/
theorem separates_comma {close : Char} (hclose : close = ']' ∨ close = '\x7d') :
    Text.Separates "," close fun c => c = ',' ∨ c = ']' ∨ c = '\x7d' where
  first := ⟨',', [], rfl, by rcases hclose with rfl | rfl <;> decide, Or.inl rfl⟩
  close := Or.inr hclose

/-- The kind of value that begins with a character. -/
def kindOf (c : Char) : Kind :=
  if c = 'n' then .null
  else if c = 't' ∨ c = 'f' then .boolean
  else if c = '"' then .string
  else if c = '[' then .array
  else if c = '\x7b' then .object
  else .number

theorem kindOf_numeral {c : Char} (h : isNumeral c = true) : kindOf c = .number := by
  have hne {d : Char} (hd : isNumeral d = false) : c ≠ d := by
    rintro rfl
    exact absurd (h.symm.trans hd) (by simp)
  unfold kindOf
  rw [if_neg (hne rfl), if_neg (not_or.mpr ⟨hne rfl, hne rfl⟩), if_neg (hne rfl), if_neg (hne rfl), if_neg (hne rfl)]

theorem compactItems_eq_map (items : List Json) : compactItems items = items.map compact := by
  induction items with
  | nil => rfl
  | cons v rest ih => rw [compactItems, List.map_cons, ih]

/-- The text of a member. -/
def memberText (m : String × Json) : String := Token.quote m.1 ++ ":" ++ m.2.compact

theorem compactMembers_eq_map (members : Members) : compactMembers members = members.map memberText := by
  induction members with
  | nil => rfl
  | cons m rest ih =>
      obtain ⟨k, v⟩ := m
      rw [compactMembers, List.map_cons, ih]
      rfl

theorem toList_compact_arr (items : List Json) :
    (compact (.arr items)).toList = '[' :: ((String.intercalate "," (items.map compact)).toList ++ [']']) := by
  rw [compact, compactItems_eq_map, String.toList_append, String.toList_append]
  rfl

theorem toList_compact_obj (members : Members) :
    (compact (.obj members)).toList
      = '\x7b' :: ((String.intercalate "," (members.map memberText)).toList ++ ['\x7d']) := by
  rw [compact, compactMembers_eq_map, String.toList_append, String.toList_append]
  rfl

theorem toList_memberText (m : String × Json) :
    (memberText m).toList = (Token.quote m.1).toList ++ ':' :: m.2.compact.toList := by
  rw [memberText, String.toList_append, String.toList_append, List.append_assoc]
  rfl

/-- The first character of a text tells the kind of the value. -/
theorem exists_compact (v : Json) :
    ∃ c rest, v.compact.toList = c :: rest ∧ kindOf c = v.kind ∧ c ≠ ']' := by
  cases v with
  | null => exact ⟨'n', _, rfl, rfl, by decide⟩
  | bool b => cases b with
    | true => exact ⟨'t', _, rfl, rfl, by decide⟩
    | false => exact ⟨'f', _, rfl, rfl, by decide⟩
  | num n =>
      cases htext : n.toText.toList with
      | nil => exact absurd htext (trimmed_number n).ne_nil
      | cons c rest =>
          have hc := numeral_toText n c (by simp [htext])
          refine ⟨c, rest, htext, kindOf_numeral hc, ?_⟩
          rintro rfl
          exact absurd hc (by decide)
  | str s =>
      refine ⟨'"', s.toList.flatMap Token.escapeChar ++ ['"'], ?_, rfl, by decide⟩
      simp [compact, Token.quote, String.toList_append]
  | arr items => exact ⟨'[', _, toList_compact_arr items, rfl, by decide⟩
  | obj members => exact ⟨'\x7b', _, toList_compact_obj members, rfl, by decide⟩

/-- **A value shows where it ends.** -/
theorem compact_append_inj {a b : Json} (ha : a.HasCanonicalNumbers) (hb : b.HasCanonicalNumbers) {r r' : List Char}
    (hr : Ends r) (hr' : Ends r') (h : a.compact.toList ++ r = b.compact.toList ++ r') : a = b ∧ r = r' := by
  induction a using inside_induction generalizing b r r' with
  | _ a ih =>
  obtain ⟨c, rest, hfirst, hkind, -⟩ := exists_compact a
  obtain ⟨c', rest', hfirst', hkind', -⟩ := exists_compact b
  have hkinds : a.kind = b.kind := by
    have hhead := h
    rw [hfirst, hfirst'] at hhead
    rw [← hkind, ← hkind', (List.cons.inj hhead).1]
  cases a with
  | null => cases b with
    | null => exact ⟨rfl, List.append_cancel_left h⟩
    | _ => cases hkinds
  | bool x => cases b with
    | bool y =>
        cases x <;> cases y
        · exact ⟨rfl, List.append_cancel_left h⟩
        · exact absurd (List.cons.inj h).1 (by decide)
        · exact absurd (List.cons.inj h).1 (by decide)
        · exact ⟨rfl, List.append_cancel_left h⟩
    | _ => cases hkinds
  | num n => cases b with
    | num m =>
        obtain ⟨htext, hrest⟩ := Text.run_append_inj (numeral_toText n) (numeral_toText m) hr.isNumeral hr'.isNumeral h
        obtain rfl := Number.toText_injective (ha n (mem_values_self _)) (hb m (mem_values_self _))
          (String.toList_inj.mp htext)
        exact ⟨rfl, hrest⟩
    | _ => cases hkinds
  | str s => cases b with
    | str t =>
        obtain ⟨rfl, hrest⟩ := Text.quote_append_inj h
        exact ⟨rfl, hrest⟩
    | _ => cases hkinds
  | arr items => cases b with
    | arr others =>
        have hends : Text.ShowEnds compact (fun c => c = ',' ∨ c = ']' ∨ c = '\x7d') items others :=
          fun x hx y hy _ _ hr hr' heq => ih x (.item hx) (ha.inside (.item hx)) (hb.inside (.item hy)) hr hr' heq
        have hbracket (x : Json) : ∃ c rest, x.compact.toList = c :: rest ∧ c ≠ ']' := by
          obtain ⟨c, rest, htext, -, hne⟩ := exists_compact x
          exact ⟨c, rest, htext, hne⟩
        rw [toList_compact_arr, toList_compact_arr, List.cons_append, List.cons_append, List.append_assoc,
          List.append_assoc] at h
        obtain ⟨rfl, hrest⟩ :=
          Text.separated_append_inj (separates_comma (Or.inl rfl)) hbracket hends (List.cons.inj h).2
        exact ⟨rfl, hrest⟩
    | _ => cases hkinds
  | obj members => cases b with
    | obj others =>
        have hends : Text.ShowEnds memberText (fun c => c = ',' ∨ c = ']' ∨ c = '\x7d') members others := by
          intro m hm n hn r r' hr hr' heq
          rw [toList_memberText, toList_memberText, List.append_assoc, List.append_assoc] at heq
          obtain ⟨hname, hvalue⟩ := Text.quote_append_inj heq
          obtain ⟨hv, hrest⟩ := ih m.2 (.member hm) (ha.inside (.member hm)) (hb.inside (.member hn)) hr hr'
            (List.cons.inj hvalue).2
          exact ⟨Prod.ext hname hv, hrest⟩
        have hbrace (m : String × Json) : ∃ c rest, (memberText m).toList = c :: rest ∧ c ≠ '\x7d' := by
          refine ⟨'"', m.1.toList.flatMap Token.escapeChar ++ '"' :: ':' :: m.2.compact.toList, ?_, by decide⟩
          simp [toList_memberText, Token.quote, String.toList_append]
        rw [toList_compact_obj, toList_compact_obj, List.cons_append, List.cons_append, List.append_assoc,
          List.append_assoc] at h
        obtain ⟨rfl, hrest⟩ := Text.separated_append_inj (separates_comma (Or.inr rfl)) hbrace hends (List.cons.inj h).2
        exact ⟨rfl, hrest⟩
    | _ => cases hkinds

/-- **Values with the same text are the same.** -/
theorem compact_injective {a b : Json} (ha : a.HasCanonicalNumbers) (hb : b.HasCanonicalNumbers)
    (h : a.compact = b.compact) : a = b :=
  (compact_append_inj ha hb (by simp [Ends]) (by simp [Ends]) (congrArg (·.toList ++ []) h)).1

end DecoderForge.Json
