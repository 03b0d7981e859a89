import DecoderForge.Proofs.Schema.Names

/-!
# DecoderForge — claims one after another

A table that identifiers are claimed from answers each claim from the identifiers that it has given out before,
and from nothing else.  A claim that it refuses leaves no trace.

## The architecture

* **`NameTable.answers`** — the answers to claims in a row.
* **`NameTable.Answered`** — the answer to a claim, told from the identifiers given out before.
* **`NameTable.answered`** — one claim.
* **`NameTable.owners_after`**, **`NameTable.nodup_answers`** — the run: the table holds what its answers gave
  out, and gave out nothing twice.
* **`NameTable.claims_answered`** — all of it, for claims to an empty table.
-/

namespace DecoderForge.NameTable

/-! ## Claims in a row -/

/-- A claim: the key of a definition, and the identifier that it asks for. -/
abbrev Request := String × String

/-- The answer to a claim. -/
def answer (t : NameTable) (c : Request) : Except GenerateError String := (t.claim c.1 c.2).map Prod.fst

/-- The table behind a claim; one that is refused leaves it as it was. -/
def next (t : NameTable) (c : Request) : NameTable :=
  match t.claim c.1 c.2 with
  | .ok (_, t') => t'
  | .error _ => t

/-- The answers to claims in a row. -/
def answers (t : NameTable) : List Request → List (Except GenerateError String)
  | [] => []
  | c :: rest => t.answer c :: (t.next c).answers rest

/-- The table behind claims in a row. -/
def after (t : NameTable) (cs : List Request) : NameTable := cs.foldl next t

/-- The identifiers that answers give out. -/
def given (as : List (Except GenerateError String)) : List String := as.filterMap Except.toOption

/-- The identifiers that answers to claims give out, each with the key that it is given to. -/
def grants (cs : List Request) (as : List (Except GenerateError String)) : List (String × String) :=
  (cs.zip as).filterMap fun p => p.2.toOption.map fun name => (name, p.1.1)

/-- **The answer to a claim**, where some identifiers are given out to some keys. -/
inductive Answered (policy : CollisionPolicy) (owners : List (String × String)) (key name : String) :
    Except GenerateError String → Prop where
  /-- A free identifier is given out as it is. -/
  | free (hfree : name ∉ owners.map Prod.fst) : Answered policy owners key name (.ok name)
  /-- A taken one is refused, and its owner named. -/
  | refused {first : String} (hpolicy : policy = .error) (howner : (name, first) ∈ owners) :
      Answered policy owners key name (.error (.nameCollision name first key))
  /-- A taken one is given out with the smallest number from two on with which it is free. -/
  | numbered {n : Nat} (hpolicy : policy = .disambiguate) (htaken : name ∈ owners.map Prod.fst) (hn : 2 ≤ n)
      (hfree : numbered name n ∉ owners.map Prod.fst)
      (hleast : ∀ m, 2 ≤ m → m < n → NameTable.numbered name m ∈ owners.map Prod.fst) :
      Answered policy owners key name (.ok (numbered name n))

/-- Which identifiers are given out counts, not in which order. -/
theorem Answered.congr {policy : CollisionPolicy} {owners owners' : List (String × String)} {key name : String}
    {a : Except GenerateError String} (hsame : ∀ p, p ∈ owners ↔ p ∈ owners')
    (h : Answered policy owners key name a) : Answered policy owners' key name a := by
  have hnames (x : String) : x ∈ owners.map Prod.fst ↔ x ∈ owners'.map Prod.fst := by
    simp only [List.mem_map, hsame]
  cases h with
  | free hfree => exact .free (mt (hnames name).mpr hfree)
  | refused hpolicy howner => exact .refused hpolicy ((hsame _).mp howner)
  | numbered hpolicy htaken hn hfree hleast =>
      exact .numbered hpolicy ((hnames name).mp htaken) hn (mt (hnames _).mpr hfree)
        fun m hm hlt => (hnames _).mp (hleast m hm hlt)

/-! ## One claim -/

/-- The search for a free number does not go back. -/
theorem le_freeNumber (t : NameTable) (name : String) : ∀ fuel n : Nat, n ≤ t.freeNumber name fuel n
  | 0, n => Nat.le_refl n
  | fuel + 1, n => by
      have ih := le_freeNumber t name fuel (n + 1)
      unfold freeNumber
      split
      · omega
      · exact Nat.le_refl n

theorem mem_owners_of_owner? {t : NameTable} {name first : String} (h : t.owner? name = some first) :
    (name, first) ∈ t.owners := by
  obtain ⟨l₁, l₂, heq, -⟩ := List.lookup_eq_some_iff.mp h
  rw [heq]
  exact List.mem_append_right l₁ List.mem_cons_self

/-- **A claim is answered from the identifiers given out**, and what it gives out is recorded. -/
theorem answered (t : NameTable) (key name : String) :
    Answered t.policy t.owners key name (t.answer (key, name)) := by
  have hnotMem {x : String} : t.taken x = false → x ∉ t.owners.map Prod.fst := by
    intro hfree hmem
    rw [(taken_iff t x).mpr hmem] at hfree
    exact absurd hfree (by decide)
  unfold answer claim
  cases howner : t.owner? name with
  | none => exact .free (hnotMem (by rw [taken, howner]; rfl))
  | some first =>
      have hmem := mem_owners_of_owner? howner
      cases hpolicy : t.policy with
      | error => exact .refused rfl hmem
      | disambiguate =>
          refine .numbered rfl (List.mem_map_of_mem hmem) (le_freeNumber t name _ 2)
            (hnotMem (taken_numbered_freeNumber t name)) fun m hm hlt => ?_
          exact (taken_iff t _).mp ((freeNumber_spec t name t.owners.length 2).1 m hm hlt)

/-- What a claim does: it gives out a free identifier and records it, or nothing. -/
theorem next_cases (t : NameTable) (c : Request) :
    (∃ name, t.answer c = .ok name ∧ t.taken name = false ∧ t.next c = t.record name c.1)
      ∨ ∃ e, t.answer c = .error e ∧ t.next c = t := by
  unfold answer next
  cases hclaim : t.claim c.1 c.2 with
  | error e => exact .inr ⟨e, rfl, rfl⟩
  | ok p =>
      obtain ⟨hfree, hrecord⟩ := claim_eq_ok hclaim
      exact .inl ⟨p.1, rfl, hfree, hrecord⟩

theorem policy_next (t : NameTable) (c : Request) : (t.next c).policy = t.policy := by
  rcases next_cases t c with ⟨name, -, -, hnext⟩ | ⟨e, -, hnext⟩
  · rw [hnext]
    rfl
  · rw [hnext]

/-! ## The run -/

theorem policy_after : ∀ (cs : List Request) (t : NameTable), (t.after cs).policy = t.policy
  | [], _ => rfl
  | c :: rest, t => (policy_after rest (t.next c)).trans (policy_next t c)

theorem answers_append : ∀ (a b : List Request) (t : NameTable),
    t.answers (a ++ b) = t.answers a ++ (t.after a).answers b
  | [], _, _ => rfl
  | c :: a, b, t => congrArg (t.answer c :: ·) (answers_append a b (t.next c))

/-- **The table holds what its answers gave out.** -/
theorem owners_after : ∀ (cs : List Request) (t : NameTable),
    (t.after cs).owners = (grants cs (t.answers cs)).reverse ++ t.owners
  | [], _ => rfl
  | c :: rest, t => by
      have ih := owners_after rest (t.next c)
      show ((t.next c).after rest).owners = (grants (c :: rest) (t.answer c :: (t.next c).answers rest)).reverse ++ _
      rw [ih]
      rcases next_cases t c with ⟨name, hanswer, -, hnext⟩ | ⟨e, hanswer, hnext⟩
      · rw [hanswer, hnext]
        simp [grants, Except.toOption, record]
      · rw [hanswer, hnext]
        simp [grants, Except.toOption]

/-- **No identifier is given out twice**, nor one that the table has. -/
theorem nodup_answers : ∀ (cs : List Request) (t : NameTable),
    (given (t.answers cs)).Nodup ∧ ∀ name ∈ given (t.answers cs), t.taken name = false
  | [], _ => by simp [answers, given]
  | c :: rest, t => by
      obtain ⟨hnodup, hfree⟩ := nodup_answers rest (t.next c)
      rcases next_cases t c with ⟨name, hanswer, hname, hnext⟩ | ⟨e, hanswer, hnext⟩
      · have hcons : given (t.answers (c :: rest)) = name :: given ((t.next c).answers rest) := by
          rw [answers, hanswer]
          rfl
        -- what is given out later is free in a table that has this identifier and all before it
        have hlater : ∀ x ∈ given ((t.next c).answers rest), x ≠ name ∧ t.taken x = false := by
          intro x hx
          have hno := hfree x hx
          rw [hnext, Bool.eq_false_iff, Ne, taken_record] at hno
          exact ⟨fun heq => hno (.inl heq), Bool.eq_false_iff.mpr fun ht => hno (.inr ht)⟩
        rw [hcons]
        exact ⟨List.nodup_cons.mpr ⟨fun hmem => (hlater name hmem).1 rfl, hnodup⟩,
          List.forall_mem_cons.mpr ⟨hname, fun x hx => (hlater x hx).2⟩⟩
      · have hskip : given (t.answers (c :: rest)) = given ((t.next c).answers rest) := by
          rw [answers, hanswer]
          rfl
        rw [hskip]
        exact ⟨hnodup, fun x hx => hnext ▸ hfree x hx⟩

/-- Where taken identifiers get a number every claim has an answer. -/
theorem Answered.isOk {policy : CollisionPolicy} {owners : List (String × String)} {key name : String}
    {a : Except GenerateError String} (h : Answered policy owners key name a) (hpolicy : policy = .disambiguate) :
    a.isOk = true := by
  cases h with
  | free => rfl
  | refused hrefuses => exact absurd (hrefuses.symm.trans hpolicy) (by decide)
  | numbered => rfl

/-- **Claims to an empty table.**  The identifiers given out differ.  Every claim is answered from those given out
before it: a free one is given out as it is, a taken one refused, or given out with the smallest free number; where
taken ones get a number no claim is refused.  And the claims behind one that is refused are answered as without
it. -/
theorem claims_answered (policy : CollisionPolicy) :
    (∀ cs : List Request, (given (answers ⟨policy, []⟩ cs)).Nodup)
      ∧ ∀ (before : List Request) (key name : String) (rest : List Request), ∃ a later,
        answers ⟨policy, []⟩ (before ++ (key, name) :: rest) = answers ⟨policy, []⟩ before ++ a :: later
          ∧ Answered policy (grants before (answers ⟨policy, []⟩ before)) key name a
          ∧ (policy = .disambiguate → a.isOk = true)
          ∧ ∀ e, a = .error e → answers ⟨policy, []⟩ (before ++ rest) = answers ⟨policy, []⟩ before ++ later := by
  refine ⟨fun cs => (nodup_answers cs _).1, fun before key name rest => ?_⟩
  have hanswered := answered (after ⟨policy, []⟩ before) key name
  rw [policy_after, owners_after, List.append_nil] at hanswered
  have hgranted : Answered policy (grants before (answers ⟨policy, []⟩ before)) key name
      ((after ⟨policy, []⟩ before).answer (key, name)) := hanswered.congr fun _ => List.mem_reverse
  refine ⟨_, _, answers_append before ((key, name) :: rest) _, hgranted, hgranted.isOk, fun e he => ?_⟩
  rw [answers_append]
  rcases next_cases (after ⟨policy, []⟩ before) (key, name) with ⟨_, hok, -, -⟩ | ⟨_, -, hnext⟩
  · rw [hok] at he
    exact absurd he (by simp)
  · rw [hnext]

/-- Suffixed names that were claimed directly are passed over, and a refused claim leaves the next one free. -/
theorem claims_answered_suffixed :
    answers ⟨.disambiguate, []⟩ [("a", "Foo"), ("b", "Foo3"), ("c", "Foo"), ("d", "Foo"), ("e", "Foo3")]
        = [.ok "Foo", .ok "Foo3", .ok "Foo2", .ok "Foo4", .ok "Foo32"]
      ∧ ["Foo", "Foo3", "Foo2", "Foo4", "Foo32"].Nodup
      ∧ answers ⟨.error, []⟩ [("a", "Foo"), ("b", "Foo"), ("c", "Bar")]
        = [.ok "Foo", .error (.nameCollision "Foo" "a" "b"), .ok "Bar"]
      ∧ answers ⟨.error, []⟩ [("a", "Foo"), ("c", "Bar")] = [.ok "Foo", .ok "Bar"] := by
  have hnumbers : answers ⟨.disambiguate, []⟩
      [("a", "Foo"), ("b", "Foo3"), ("c", "Foo"), ("d", "Foo"), ("e", "Foo3")]
      = [.ok "Foo", .ok "Foo3", .ok "Foo2", .ok "Foo4", .ok "Foo32"] := rfl
  have hnodup := (claims_answered .disambiguate).1
    [("a", "Foo"), ("b", "Foo3"), ("c", "Foo"), ("d", "Foo"), ("e", "Foo3")]
  obtain ⟨a, later, hall, -, -, hskip⟩ := (claims_answered .error).2 [("a", "Foo")] "b" "Foo" [("c", "Bar")]
  have hrefuses : answers ⟨.error, []⟩ [("a", "Foo"), ("b", "Foo"), ("c", "Bar")]
      = [.ok "Foo", .error (.nameCollision "Foo" "a" "b"), .ok "Bar"] := rfl
  obtain ⟨-, ha⟩ := List.cons.inj (hall.symm.trans hrefuses)
  obtain ⟨rfl, rfl⟩ := List.cons.inj ha
  rw [hnumbers] at hnodup
  exact ⟨hnumbers, hnodup, hrefuses, hskip _ rfl⟩

end DecoderForge.NameTable
