import DecoderForge.Proofs.Schema.Pointer

/-!
# DecoderForge — text that is not damaged

Bytes of damaged text are read with a sign in place of the damage.  The bytes of a text are not damaged, so they
are read as that text: a character's first byte tells how many follow, and the second is in the range for it.

## The architecture

* **`Text.isWhole_utf8EncodeChar`** — the bytes of one character are taken for a whole one.
* **`Text.decodeLossy_encode`** — the run over all characters.
-/

namespace DecoderForge.Text

/-! ## One character -/

theorem isContinuation_ofNat {n : Nat} (h : 128 ≤ n) (h' : n ≤ 191) : isContinuation (UInt8.ofNat n) = true := by
  simp only [isContinuation, UInt8.le_iff_toNat_le, UInt8.toNat_ofNat', UInt8.reduceToNat, Bool.and_eq_true,
    decide_eq_true_eq]
  omega

/-- Whether a row of bytes begins with those of a whole character. -/
def IsWhole (bytes : List UInt8) : Prop :=
  ∃ b tail length lo hi, bytes = b :: tail ∧ leadByte? b = some (length, lo, hi)
    ∧ ∀ rest, tailLength length lo hi (tail ++ rest) = (tail.length, true)

theorem isWhole_one {n : Nat} (h : n < 128) : IsWhole [UInt8.ofNat n] := by
  refine ⟨_, [], 1, 0, 0, rfl, ?_, fun _ => rfl⟩
  have hlead : UInt8.ofNat n < 0x80 := by
    simp only [UInt8.lt_iff_toNat_lt, UInt8.toNat_ofNat', UInt8.reduceToNat]
    omega
  rw [leadByte?, if_pos hlead]

theorem isWhole_two {n m : Nat} (h : 194 ≤ n ∧ n ≤ 223) (hm : 128 ≤ m ∧ m ≤ 191) :
    IsWhole [UInt8.ofNat n, UInt8.ofNat m] := by
  refine ⟨_, [UInt8.ofNat m], 2, 0x80, 0xBF, rfl, ?_, fun rest => ?_⟩
  · simp only [leadByte?, UInt8.lt_iff_toNat_lt, UInt8.le_iff_toNat_le, UInt8.toNat_ofNat', UInt8.reduceToNat,
      Bool.and_eq_true, decide_eq_true_eq]
    rw [if_neg (by omega), if_pos (by omega)]
  · have hsecond : (0x80 ≤ UInt8.ofNat m && UInt8.ofNat m ≤ 0xBF) = true := isContinuation_ofNat hm.1 hm.2
    exact if_pos hsecond

-- Among the first bytes of three, 224 leaves out what two bytes can say and 237 the surrogates; among those of four,
-- 240 leaves out what three bytes can say and 244 what is no character.

theorem isWhole_three {n m k : Nat} (h : 224 ≤ n ∧ n ≤ 239) (hm : 128 ≤ m ∧ m ≤ 191) (hk : 128 ≤ k ∧ k ≤ 191)
    (hlow : n = 224 → 160 ≤ m) (hhigh : n = 237 → m ≤ 159) :
    IsWhole [UInt8.ofNat n, UInt8.ofNat m, UInt8.ofNat k] := by
  have hlead : leadByte? (UInt8.ofNat n)
      = some (3, if n = 224 then 0xA0 else 0x80, if n = 237 then 0x9F else 0xBF) := by
    simp only [leadByte?, UInt8.lt_iff_toNat_lt, UInt8.le_iff_toNat_le, beq_iff_eq, ← UInt8.toNat_inj,
      UInt8.toNat_ofNat', UInt8.reduceToNat, Bool.and_eq_true, decide_eq_true_eq]
    rw [if_neg (by omega), if_neg (by omega)]
    by_cases h224 : n = 224
    · rw [if_pos (by omega), if_pos h224, if_neg (by omega)]
    · rw [if_neg (by omega), if_neg h224]
      by_cases h237 : n = 237
      · rw [if_pos (by omega), if_pos h237]
      · rw [if_neg (by omega), if_pos (by omega), if_neg h237]
  refine ⟨_, [UInt8.ofNat m, UInt8.ofNat k], _, _, _, rfl, hlead, fun rest => ?_⟩
  have hsecond : (if n = 224 then (0xA0 : UInt8) else 0x80) ≤ UInt8.ofNat m
      ∧ UInt8.ofNat m ≤ (if n = 237 then (0x9F : UInt8) else 0xBF) := by
    constructor <;> split <;>
      simp only [UInt8.le_iff_toNat_le, UInt8.toNat_ofNat', UInt8.reduceToNat] <;> omega
  simp [tailLength, hsecond, isContinuation_ofNat hk.1 hk.2]

theorem isWhole_four {n m k l : Nat} (h : 240 ≤ n ∧ n ≤ 244) (hm : 128 ≤ m ∧ m ≤ 191) (hk : 128 ≤ k ∧ k ≤ 191)
    (hl : 128 ≤ l ∧ l ≤ 191) (hlow : n = 240 → 144 ≤ m) (hhigh : n = 244 → m ≤ 143) :
    IsWhole [UInt8.ofNat n, UInt8.ofNat m, UInt8.ofNat k, UInt8.ofNat l] := by
  have hlead : leadByte? (UInt8.ofNat n)
      = some (4, if n = 240 then 0x90 else 0x80, if n = 244 then 0x8F else 0xBF) := by
    simp only [leadByte?, UInt8.lt_iff_toNat_lt, UInt8.le_iff_toNat_le, beq_iff_eq, ← UInt8.toNat_inj,
      UInt8.toNat_ofNat', UInt8.reduceToNat, Bool.and_eq_true, decide_eq_true_eq]
    rw [if_neg (by omega), if_neg (by omega), if_neg (by omega), if_neg (by omega), if_neg (by omega)]
    by_cases h240 : n = 240
    · rw [if_pos (by omega), if_pos h240, if_neg (by omega)]
    · rw [if_neg (by omega), if_neg h240]
      by_cases h244 : n = 244
      · rw [if_neg (by omega), if_pos (by omega), if_pos h244]
      · rw [if_pos (by omega), if_neg h244]
  refine ⟨_, [UInt8.ofNat m, UInt8.ofNat k, UInt8.ofNat l], _, _, _, rfl, hlead, fun rest => ?_⟩
  have hsecond : (if n = 240 then (0x90 : UInt8) else 0x80) ≤ UInt8.ofNat m
      ∧ UInt8.ofNat m ≤ (if n = 244 then (0x8F : UInt8) else 0xBF) := by
    constructor <;> split <;>
      simp only [UInt8.le_iff_toNat_le, UInt8.toNat_ofNat', UInt8.reduceToNat] <;> omega
  simp [tailLength, hsecond, isContinuation_ofNat hk.1 hk.2, isContinuation_ofNat hl.1 hl.2]

/-- **The bytes of a character are taken for a whole one.** -/
theorem isWhole_utf8EncodeChar (c : Char) : IsWhole (String.utf8EncodeChar c) := by
  have hvalid : c.val.toNat < 0xD800 ∨ 0xDFFF < c.val.toNat ∧ c.val.toNat < 0x110000 := c.valid
  unfold String.utf8EncodeChar
  dsimp only
  generalize c.val.toNat = v at hvalid ⊢
  split
  · exact isWhole_one (by omega)
  split
  · exact isWhole_two (by omega) (by omega)
  split
  · exact isWhole_three (by omega) (by omega) (by omega) (by omega) (by omega)
  · exact isWhole_four (by omega) (by omega) (by omega) (by omega) (by omega) (by omega)

/-! ## A text -/

theorem decodeLossy_append {bytes : List UInt8} {s : List Char} (hwhole : IsWhole bytes)
    (hs : decode? bytes = some s) (rest : List UInt8) : decodeLossy (bytes ++ rest) = s ++ decodeLossy rest := by
  obtain ⟨b, tail, length, lo, hi, rfl, hlead, htail⟩ := hwhole
  rw [List.cons_append, decodeLossy]
  simp only [hlead, htail, if_true, List.take_left, List.drop_left, hs, Option.getD_some]

/-- **The bytes of a text are read as that text.** -/
theorem decodeLossy_encode : ∀ s : List Char, decodeLossy (encode s) = s
  | [] => by simp [encode, decodeLossy]
  | c :: s => by
      have hone : decode? (String.utf8EncodeChar c) = some [c] := by
        simpa [encode] using Pointer.decode?_encode [c]
      show decodeLossy (String.utf8EncodeChar c ++ encode s) = _
      rw [decodeLossy_append (isWhole_utf8EncodeChar c) hone, decodeLossy_encode s]
      rfl

end DecoderForge.Text
