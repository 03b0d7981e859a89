import Mathlib.Data.List.Forall2

/-!
# DecoderForge — steps that may fail

A chain of steps that has a value is taken apart step by step.

## The architecture

* **`bind_eq_ok`**, **`map_eq_ok`** — one step, and what is done with its value.
* **`forall₂_of_mapM`**, **`exists_mapM`** — a row of steps.
* **`forall_mem_iff_of_forall₂`**, **`countP_eq_of_forall₂`** — what is said of a row, said of its results.
-/

namespace DecoderForge

variable {α β ε : Type}

/-- A result that is used has a value, and the use of the value is the whole. -/
theorem bind_eq_ok {x : Except ε α} {f : α → Except ε β} {b : β} (h : x >>= f = .ok b) :
    ∃ a, x = .ok a ∧ f a = .ok b := by
  cases x with
  | error e => exact absurd h (by simp [bind, Except.bind])
  | ok a => exact ⟨a, rfl, h⟩

theorem map_eq_ok {x : Except ε α} {f : α → β} {b : β} (h : x.map f = .ok b) : ∃ a, x = .ok a ∧ f a = b := by
  cases x with
  | error e => exact absurd h (by simp [Except.map])
  | ok a => exact ⟨a, rfl, Except.ok.inj h⟩

/-- Steps that all succeed have the results of the steps. -/
theorem forall₂_of_mapM {f : α → Except ε β} : ∀ {l : List α} {bs : List β}, l.mapM f = .ok bs →
    List.Forall₂ (fun a b => f a = .ok b) l bs
  | [], bs, h => by
      obtain rfl : [] = bs := Except.ok.inj h
      exact .nil
  | a :: rest, bs, h => by
      rw [List.mapM_cons] at h
      obtain ⟨b, ha, h⟩ := bind_eq_ok h
      obtain ⟨cs, hrest, h⟩ := bind_eq_ok h
      obtain rfl : b :: cs = bs := Except.ok.inj h
      exact .cons ha (forall₂_of_mapM hrest)

/-- Steps that succeed one by one succeed in a row. -/
theorem exists_mapM {f : α → Except ε β} : ∀ {l : List α}, (∀ a ∈ l, ∃ b, f a = .ok b) → ∃ bs, l.mapM f = .ok bs
  | [], _ => ⟨[], rfl⟩
  | a :: rest, h => by
      obtain ⟨b, hb⟩ := h a List.mem_cons_self
      obtain ⟨bs, hbs⟩ := exists_mapM fun x hx => h x (List.mem_cons_of_mem a hx)
      exact ⟨b :: bs, by rw [List.mapM_cons, hb, hbs]; rfl⟩

/-! ## Rows that correspond -/

section Rows

variable {R : α → β → Prop}

/-- What holds of all of a row holds of all that corresponds to it. -/
theorem forall_mem_iff_of_forall₂ {p : α → Prop} {q : β → Prop} (hpq : ∀ a b, R a b → (p a ↔ q b)) :
    ∀ {l : List α} {l' : List β}, List.Forall₂ R l l' → ((∀ a ∈ l, p a) ↔ ∀ b ∈ l', q b)
  | [], [], .nil => by simp
  | a :: _, b :: _, .cons hab hrest => by
      rw [List.forall_mem_cons, List.forall_mem_cons, hpq a b hab, forall_mem_iff_of_forall₂ hpq hrest]

theorem countP_eq_of_forall₂ {p : α → Bool} {q : β → Bool} (hpq : ∀ a b, R a b → p a = q b) :
    ∀ {l : List α} {l' : List β}, List.Forall₂ R l l' → l.countP p = l'.countP q
  | [], [], .nil => by rw [List.countP_nil, List.countP_nil]
  | a :: _, b :: _, .cons hab hrest => by
      rw [List.countP_cons, List.countP_cons, hpq a b hab, countP_eq_of_forall₂ hpq hrest]

end Rows

end DecoderForge
