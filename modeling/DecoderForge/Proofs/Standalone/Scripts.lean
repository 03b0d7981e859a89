import DecoderForge.Proofs.Result
import DecoderForge.Proofs.Standalone.Phrases
import DecoderForge.Standalone.Keyword

/-!
# DecoderForge — the code of keywords

Every piece of a function body is read as code and leaves the brackets as they were, whatever the schema says.
The names in it are those of the functions and constants that it was supplied with.

## The architecture

* **`Script`**, **`Statements`** — calls that are read as code, with the names they use and define.
* **`Piece.Scripted`** — a piece whose lines are statements over the names that meet its demands; kept by all
  ways of putting pieces together.
* **`…_scripted`** — one lemma per keyword.
* **`body_scripted`** — the body of every schema.
-/

namespace DecoderForge.Standalone

open Layout

/-! ## Calls -/

/-- Calls that are read as code from open brackets to others, with tokens that are known. -/
structure Script (labels defined : List Label) (stack : List Char) (calls : List Call) (stack' : List Char) :
    Prop where
  takes : TakesAll stack calls stack'
  outside : ∀ c ∈ calls, ∃ s : List Char, c.body = s ++ ['\n'] ∧ Quoting.outside.after s = .outside
  fine : Fine labels defined (calls.flatMap fun c => codeTokens c.body)

/-- Calls that leave the open brackets as they are and define nothing. -/
def Statements (labels : List Label) (calls : List Call) : Prop := ∀ stack, Script labels [] stack calls stack

section Calls

variable {labels labels' defined defined' : List Label} {stack stack₁ stack' : List Char}

namespace Script

theorem nil : Script labels [] stack [] stack := ⟨.nil stack, by simp, .nil⟩

theorem append {a b : List Call} (ha : Script labels defined stack a stack₁)
    (hb : Script labels defined' stack₁ b stack') : Script labels (defined ++ defined') stack (a ++ b) stack' where
  takes := ha.takes.append hb.takes
  outside := List.forall_mem_append.mpr ⟨ha.outside, hb.outside⟩
  fine := by
    rw [List.flatMap_append]
    exact ha.fine.append hb.fine

theorem mono {calls : List Call} (h : Script labels defined stack calls stack') (hsub : labels ⊆ labels') :
    Script labels' defined stack calls stack' := ⟨h.takes, h.outside, h.fine.mono hsub⟩

/-- A single line; the end of the line adds nothing. -/
theorem line {c : Call} {s : String} (hc : c.body = s.toList ++ ['\n']) (htakes : Takes stack s.toList stack')
    (houtside : Quoting.outside.after s.toList = .outside) (hfine : Fine labels defined (codeTokens s.toList)) :
    Script labels defined stack [c] stack' where
  takes := by
    refine .single ?_
    rw [hc]
    exact htakes.append (takes_newline stack')
  outside d hd := by
    obtain rfl := List.mem_singleton.mp hd
    exact ⟨s.toList, hc, houtside⟩
  fine := by
    have hapart : Apart (Quoting.outside.code s.toList) (Quoting.outside.code ['\n']) :=
      apart_of_head fun y hy => by
        obtain rfl : '\n' = y := by simpa [Quoting.code] using hy
        rfl
    have htokens : codeTokens (s.toList ++ ['\n']) = codeTokens s.toList := by
      rw [codeTokens_append houtside hapart]
      exact List.append_nil _
    rwa [List.flatMap_singleton, hc, htokens]

end Script

theorem Sentence.script {c : Call} {s : String} (h : Sentence labels stack s stack')
    (hc : c.body = s.toList ++ ['\n']) : Script labels [] stack [c] stack' :=
  .line hc h.takes h.outside h.fine

theorem script_opens {head : String} (h : Phrase labels head) (stack : List Char) :
    Script labels [] stack [opens head] ('{' :: stack) :=
  ((Spells.put h |>.text rfl).sentence [] ['{'] (by rfl) stack).script rfl

theorem script_opening {first : String} {chars : List Char} {word : Bool} (hfirst : first = String.ofList chars)
    (hthrough : Spot.through ⟨[], false⟩ [some chars] = some ⟨['{'], word⟩) (stack : List Char) :
    Script labels [] stack [.opening first] ('{' :: stack) :=
  ((Spells.own hfirst).sentence [] ['{'] hthrough stack).script rfl

theorem script_closes (stack : List Char) : Script labels [] ('{' :: stack) [closes] stack :=
  ((Spells.own rfl).sentence ['{'] [] (by rfl) stack).script (s := "\x7d") rfl

namespace Statements

theorem nil : Statements labels [] := fun _ => .nil

theorem mono {calls : List Call} (h : Statements labels calls) (hsub : labels ⊆ labels') :
    Statements labels' calls := fun stack => (h stack).mono hsub

theorem append {a b : List Call} (ha : Statements labels a) (hb : Statements labels b) :
    Statements labels (a ++ b) := fun stack => (ha stack).append (hb stack)

theorem flatMap {α : Type} {f : α → List Call} : ∀ {items : List α}, (∀ x ∈ items, Statements labels (f x)) →
    Statements labels (items.flatMap f)
  | [], _ => nil
  | x :: rest, h => by
      obtain ⟨hx, hrest⟩ := List.forall_mem_cons.mp h
      rw [List.flatMap_cons]
      exact hx.append (flatMap hrest)

theorem line {s : String} (h : Phrase labels s) : Statements labels [.line s] := fun stack => (h stack).script rfl

/-- A line of fixed text. -/
theorem own {s : String} {chars : List Char} {word : Bool} (hs : s = String.ofList chars)
    (hthrough : Spot.through ⟨[], false⟩ [some chars] = some ⟨[], word⟩) : Statements labels [.line s] :=
  line (phrase_own hs hthrough)

theorem cons {c : Call} {calls : List Call} (hc : Statements labels [c]) (h : Statements labels calls) :
    Statements labels (c :: calls) := hc.append h

theorem ofForall : ∀ {calls : List Call}, (∀ c ∈ calls, Statements labels [c]) → Statements labels calls
  | [], _ => nil
  | _ :: _, h => by
      obtain ⟨hc, hrest⟩ := List.forall_mem_cons.mp h
      exact hc.cons (ofForall hrest)

/-- A line, statements, and the line that closes what the first one opens. -/
theorem between {first last : Call} {calls : List Call}
    (hfirst : ∀ stack, Script labels [] stack [first] ('{' :: stack)) (h : Statements labels calls)
    (hlast : ∀ stack, Script labels [] ('{' :: stack) [last] stack) :
    Statements labels (first :: calls ++ [last]) :=
  fun stack => ((hfirst stack).append (h ('{' :: stack))).append (hlast stack)

theorem block {head : String} {calls : List Call} (hhead : Phrase labels head) (h : Statements labels calls) :
    Statements labels (opens head :: calls ++ [closes]) := between (script_opens hhead) h script_closes

/-- Statements behind a fixed head. -/
theorem ownBlock {head : String} {chars : List Char} {word : Bool} {calls : List Call}
    (hhead : head = String.ofList chars) (hthrough : Spot.through ⟨[], false⟩ [some chars] = some ⟨[], word⟩)
    (h : Statements labels calls) : Statements labels (opens head :: calls ++ [closes]) :=
  block (phrase_own hhead hthrough) h

end Statements

/-! ## Lines of every piece -/

theorem phrase_natText (n : Nat) : Phrase labels (toString n) := phrase_numeral numeral_natText

theorem phrase_condition {condition : String} (h : Phrase labels condition) :
    Phrase labels ("if (" ++ condition ++ ")") :=
  (Spells.own rfl |>.hole h |>.text rfl).phrase (by rfl)

theorem statements_failLines (message : String) : Statements labels (failLines message) :=
  .cons (.line ((Spells.own rfl |>.hole (phrase_stringLiteral message) |>.text rfl).phrase (by rfl)))
    (.own rfl (by rfl))

theorem statements_failWhen {condition : String} (h : Phrase labels condition) (message : String) :
    Statements labels (failWhen condition message) := .block (phrase_condition h) (statements_failLines message)

theorem statements_invalidUnless {call : String} (h : Phrase labels call) :
    Statements labels [invalidUnless call] :=
  .line ((Spells.own rfl |>.hole h |>.text rfl).phrase (by rfl))

theorem phrase_function {f : Nat} (h : .function f ∈ labels) : Phrase labels (functionName f) :=
  phrase_label (l := .function f) h

theorem phrase_constant {c : Nat} (h : .constant c ∈ labels) : Phrase labels (constantName c) :=
  phrase_label (l := .constant c) h

theorem phrase_itemCall {f : Nat} (h : .function f ∈ labels) {index path : String} (hindex : Phrase labels index)
    (hpath : Phrase labels path) : Phrase labels (itemCall f index path) :=
  (Spells.put (phrase_function h) |>.text rfl |>.hole hindex |>.text rfl |>.hole hpath |>.text rfl).phrase (by rfl)

theorem phrase_selfCall {f : Nat} (h : .function f ∈ labels) {errors : String} (herrors : Phrase labels errors) :
    Phrase labels (selfCall f errors) :=
  (Spells.put (phrase_function h) |>.text rfl |>.hole herrors |>.text rfl).phrase (by rfl)

end Calls

/-! ## Pieces -/

/-- The name that a number gets that meets a demand. -/
def Demand.label : Demand → Nat → Label
  | .constant _, n => .constant n
  | _, n => .function n

/-- The names that demands are met by. -/
def supplied (ds : List Demand) (ns : List Nat) : List Label := List.zipWith Demand.label ds ns

theorem supplied_append {a b : List Demand} {ns : List Nat} (h : a.length ≤ ns.length) :
    supplied (a ++ b) ns = supplied a (ns.take a.length) ++ supplied b (ns.drop a.length) := by
  have hfront : a.length = (ns.take a.length).length := by
    rw [List.length_take]
    omega
  conv_lhs => rw [← List.take_append_drop a.length ns]
  exact List.zipWith_append hfront

/-- A demand for a constant gives it a value that can stand in code. -/
def Demand.Spelled : Demand → Prop
  | .constant value => ∀ labels, Phrase labels value
  | _ => True

/-- Whatever numbers meet the demands, the lines are statements over the names that go with these numbers. -/
structure Piece.Scripted (p : Piece) : Prop where
  lines : ∀ ns, ns.length = p.demands.length → Statements (supplied p.demands ns) (p.lines ns)
  demands : ∀ d ∈ p.demands, d.Spelled

namespace Piece.Scripted

variable {p q : Piece}

theorem ofCalls {calls : List Call} (h : Statements [] calls) : (Piece.ofCalls calls).Scripted where
  lines _ _ := h
  demands _ hd := absurd hd List.not_mem_nil

theorem empty : Piece.empty.Scripted := ofCalls .nil

theorem ofFault (f : Fault) : (Piece.ofFault f).Scripted where
  lines _ _ := .nil
  demands d hd := by
    obtain rfl := List.mem_singleton.mp hd
    exact trivial

theorem ite {c : Prop} [Decidable c] (hp : c → p.Scripted) (hq : ¬ c → q.Scripted) :
    (if c then p else q).Scripted := by
  split
  · next hc => exact hp hc
  · next hc => exact hq hc

theorem ofExcept {e : Except Fault Piece} (h : ∀ p, e = .ok p → p.Scripted) : (Piece.ofExcept e).Scripted := by
  cases e with
  | error f => exact ofFault f
  | ok p => exact h p rfl

theorem ask {d : Demand} {lines : Nat → List Call} (hd : d.Spelled)
    (h : ∀ n, Statements [d.label n] (lines n)) : (Piece.ask d lines).Scripted where
  lines ns hlength := by
    obtain ⟨n, rfl⟩ := List.length_eq_one_iff.mp hlength
    exact h n
  demands e he := by
    obtain rfl := List.mem_singleton.mp he
    exact hd

theorem append (hp : p.Scripted) (hq : q.Scripted) : (p.append q).Scripted where
  lines ns hlength := by
    have hlength : ns.length = p.demands.length + q.demands.length := hlength.trans List.length_append
    have hfront : (ns.take p.demands.length).length = p.demands.length := by
      rw [List.length_take]
      omega
    have hback : (ns.drop p.demands.length).length = q.demands.length := by
      rw [List.length_drop]
      omega
    show Statements (supplied (p.demands ++ q.demands) ns) _
    rw [supplied_append (by omega)]
    exact ((hp.lines _ hfront).mono (List.subset_append_left _ _)).append
      ((hq.lines _ hback).mono (List.subset_append_right _ _))
  demands := List.forall_mem_append.mpr ⟨hp.demands, hq.demands⟩

theorem concat : ∀ {pieces : List Piece}, (∀ p ∈ pieces, p.Scripted) → (Piece.concat pieces).Scripted
  | [], _ => empty
  | _ :: _, h => by
      obtain ⟨hp, hrest⟩ := List.forall_mem_cons.mp h
      exact hp.append (concat hrest)

theorem wrap {first : String} (hfirst : ∀ {labels} stack, Script labels [] stack [.opening first] ('{' :: stack))
    (h : p.Scripted) : (Piece.wrap first "\x7d" p).Scripted where
  lines ns hlength := by
    have hlines := h.lines ns hlength
    simp only [Piece.wrap]
    split
    · exact .nil
    · exact .between hfirst hlines script_closes
  demands := h.demands

end Piece.Scripted

section Keywords

variable (s : Site)

/-! ## Type and constants -/

theorem phrase_typeCondition {labels : List Label} (name : String) : Phrase labels (typeCondition name) := by
  unfold typeCondition
  split <;> exact phrase_own rfl (by rfl)

theorem typePiece_scripted : (typePiece s).Scripted := by
  unfold typePiece
  split
  · exact .empty
  · refine .ofExcept fun p hp => ?_
    obtain ⟨names, -, hp⟩ := bind_eq_ok hp
    split at hp
    · exact absurd hp (by simp [throw, throwThe, MonadExceptOf.throw])
    · obtain rfl := Except.ok.inj hp
      have htypes : Phrase [] (String.intercalate " || " (names.map typeCondition)) := by
        refine phrase_intercalate " || " rfl (by rfl) fun t ht => ?_
        obtain ⟨name, -, rfl⟩ := List.mem_map.mp ht
        exact phrase_typeCondition name
      exact .ofCalls (statements_failWhen ((Spells.own rfl |>.hole htypes |>.text rfl).phrase (by rfl)) _)

theorem enumPiece_scripted : (enumPiece s).Scripted := by
  unfold enumPiece
  split
  · exact .empty
  · refine .ask (fun _ => phrase_compact _) fun c => statements_failWhen ?_ _
    exact (Spells.own rfl |>.hole (phrase_constant List.mem_cons_self) |>.text rfl).phrase (by rfl)

theorem constPiece_scripted : (constPiece s).Scripted := by
  unfold constPiece
  split
  · exact .empty
  · refine .ask (fun _ => phrase_compact _) fun c => statements_failWhen ?_ _
    exact (Spells.own rfl |>.hole (phrase_constant List.mem_cons_self) |>.text rfl).phrase (by rfl)

/-! ## Numbers -/

theorem statements_lowerLines (exclusive : Bool) : ∀ limit, Statements [] (lowerLines exclusive limit)
  | none => .nil
  | some n => by
      have hn : Phrase [] n.toText := phrase_numeral (numeral_toText n)
      unfold lowerLines
      split_ifs <;> exact statements_failWhen ((Spells.own rfl |>.hole hn).phrase (by rfl)) _

theorem statements_upperLines (exclusive : Bool) : ∀ limit, Statements [] (upperLines exclusive limit)
  | none => .nil
  | some n => by
      have hn : Phrase [] n.toText := phrase_numeral (numeral_toText n)
      unfold upperLines
      split_ifs <;> exact statements_failWhen ((Spells.own rfl |>.hole hn).phrase (by rfl)) _

theorem statements_multipleLines {limit : Option Json.Number} {calls : List Call}
    (h : multipleLines s limit = .ok calls) : Statements [] calls := by
  cases limit with
  | none =>
      obtain rfl := Except.ok.inj h
      exact .nil
  | some n =>
      simp only [multipleLines] at h
      split_ifs at h
      obtain rfl := Except.ok.inj h
      have hn : Phrase [] n.toText := phrase_numeral (numeral_toText n)
      exact statements_failWhen ((Spells.own rfl |>.hole hn |>.text rfl).phrase (by rfl)) _

theorem numericPiece_scripted : (numericPiece s).Scripted := by
  refine .wrap (script_opening rfl (by rfl)) (.ofExcept fun p hp => ?_)
  obtain ⟨min, -, hp⟩ := bind_eq_ok hp
  obtain ⟨max, -, hp⟩ := bind_eq_ok hp
  obtain ⟨above, -, hp⟩ := bind_eq_ok hp
  obtain ⟨below, -, hp⟩ := bind_eq_ok hp
  obtain ⟨divisor, -, hp⟩ := bind_eq_ok hp
  obtain ⟨multiple, hmultiple, hp⟩ := bind_eq_ok hp
  obtain rfl := Except.ok.inj hp
  exact .ofCalls (((((statements_lowerLines _ _).append (statements_upperLines _ _)).append
    (statements_lowerLines _ _)).append (statements_upperLines _ _)).append (statements_multipleLines s hmultiple))

/-! ## Strings -/

theorem statements_lengthLines (min max : Option Nat) : Statements [] (lengthLines min max) := by
  unfold lengthLines
  split_ifs
  · exact .nil
  refine .cons (.own rfl (by rfl)) (.append ?_ ?_)
  · cases min with
    | none => exact .nil
    | some n => exact statements_failWhen ((Spells.own rfl |>.hole (phrase_natText n)).phrase (by rfl)) _
  · cases max with
    | none => exact .nil
    | some n => exact statements_failWhen ((Spells.own rfl |>.hole (phrase_natText n)).phrase (by rfl)) _

theorem spelled_patternConstant (pattern : String) : (patternConstant pattern).Spelled := fun _ =>
  (Spells.own rfl |>.hole (phrase_stringLiteral pattern) |>.text rfl).phrase (by rfl)

theorem patternPiece_scripted : (patternPiece s).Scripted := by
  unfold patternPiece
  split
  · exact .empty
  · refine .ask (spelled_patternConstant _) fun c => statements_failWhen ?_ _
    exact (Spells.own rfl |>.hole (phrase_constant List.mem_cons_self) |>.text rfl).phrase (by rfl)
  · exact .ofFault _

theorem stringPiece_scripted : (stringPiece s).Scripted := by
  refine .wrap (script_opening rfl (by rfl)) (.ofExcept fun p hp => ?_)
  obtain ⟨min, -, hp⟩ := bind_eq_ok hp
  obtain ⟨max, -, hp⟩ := bind_eq_ok hp
  obtain rfl := Except.ok.inj hp
  exact .append (.ofCalls (statements_lengthLines min max)) (patternPiece_scripted s)

/-! ## Arrays -/

theorem statements_itemsFrom {labels : List Label} (start : Nat) {f : Nat} (h : .function f ∈ labels) :
    Statements labels (itemsFrom start f) := by
  have hhead : Phrase labels ("for (var i = " ++ toString start ++ "; i < data.length; i++)") :=
    (Spells.own rfl |>.hole (phrase_natText start) |>.text rfl).phrase (by rfl)
  have hindex : Phrase labels "i" := phrase_own rfl (by rfl)
  have hpath : Phrase labels "\"[\" + i + \"]\"" := phrase_own rfl (by rfl)
  exact .block hhead (statements_invalidUnless (phrase_itemCall h hindex hpath))

theorem tuplePieces_scripted : ∀ (i : Nat) (items : List Json), ∀ p ∈ tuplePieces s i items, p.Scripted
  | _, [] => fun p hp => absurd hp (by simp [tuplePieces])
  | i, sub :: rest => by
      rw [tuplePieces]
      refine List.forall_mem_cons.mpr ⟨.ask trivial fun f => .line ?_, tuplePieces_scripted (i + 1) rest⟩
      have hcall : Phrase [.function f] (itemCall f (toString i) ("\"[" ++ toString i ++ "]\"")) :=
        phrase_itemCall List.mem_cons_self (phrase_natText i) (phrase_index i)
      exact (Spells.own rfl |>.hole (phrase_natText i) |>.text rfl |>.hole hcall |>.text rfl).phrase (by rfl)

theorem additionalItemsPiece_scripted (length : Nat) : (additionalItemsPiece s length).Scripted := by
  unfold additionalItemsPiece
  split
  · exact .empty
  · exact .empty
  · exact .ofCalls (statements_failWhen ((Spells.own rfl |>.hole (phrase_natText length)).phrase (by rfl)) _)
  · exact .ask trivial fun f => statements_itemsFrom length List.mem_cons_self

theorem itemsPiece_scripted : (itemsPiece s).Scripted := by
  unfold itemsPiece
  split
  · exact .empty
  · next tuple _ =>
    exact .append (.concat (tuplePieces_scripted s 0 tuple)) (additionalItemsPiece_scripted s tuple.length)
  · exact .ask trivial fun f => statements_itemsFrom 0 List.mem_cons_self

theorem containsPiece_scripted : (containsPiece s).Scripted := by
  unfold containsPiece
  split
  · exact .empty
  · refine .ask trivial fun f => statements_failWhen ?_ _
    exact (Spells.own rfl |>.hole (phrase_function List.mem_cons_self) |>.text rfl).phrase (by rfl)

theorem statements_countLines {size : String} (hsize : Phrase [] size) (things : String) (min max : Option Nat) :
    Statements [] (countLines size things min max) := by
  refine .append ?_ ?_
  · cases min with
    | none => exact .nil
    | some n =>
        exact statements_failWhen ((Spells.put hsize |>.text rfl |>.hole (phrase_natText n)).phrase (by rfl)) _
  · cases max with
    | none => exact .nil
    | some n =>
        exact statements_failWhen ((Spells.put hsize |>.text rfl |>.hole (phrase_natText n)).phrase (by rfl)) _

theorem statements_uniqueLines : Statements [] (uniqueLines s) := by
  unfold uniqueLines
  split_ifs
  · exact statements_failWhen (phrase_own rfl (by rfl)) _
  · exact .nil

theorem arrayPiece_scripted : (arrayPiece s).Scripted := by
  refine .wrap (script_opening rfl (by rfl)) (.ofExcept fun p hp => ?_)
  obtain ⟨min, -, hp⟩ := bind_eq_ok hp
  obtain ⟨max, -, hp⟩ := bind_eq_ok hp
  obtain rfl := Except.ok.inj hp
  have hsize : Phrase [] "data.length" := phrase_own rfl (by rfl)
  have hcounts := statements_countLines hsize "items" min max
  refine .concat ?_
  simp only [List.forall_mem_cons, List.not_mem_nil, false_implies, implies_true, and_true]
  exact ⟨itemsPiece_scripted s, containsPiece_scripted s, .ofCalls (hcounts.append (statements_uniqueLines s))⟩

/-! ## Objects -/

theorem phrase_hasOwn {labels : List Label} (name : String) :
    Phrase labels ("!hasOwn(data, " ++ stringLiteral name ++ ")") :=
  (Spells.own rfl |>.hole (phrase_stringLiteral name) |>.text rfl).phrase (by rfl)

theorem requiredPiece_scripted : (requiredPiece s).Scripted := by
  unfold requiredPiece
  split
  · exact .empty
  · refine .ofExcept fun p hp => ?_
    obtain ⟨names, -, hp⟩ := bind_eq_ok hp
    obtain rfl := Except.ok.inj hp
    exact .ofCalls (.flatMap fun name _ => statements_failWhen (phrase_hasOwn name) _)
  · exact .ofFault _

theorem propertyCountPiece_scripted : (propertyCountPiece s).Scripted := by
  refine .ofExcept fun p hp => ?_
  obtain ⟨min, -, hp⟩ := bind_eq_ok hp
  obtain ⟨max, -, hp⟩ := bind_eq_ok hp
  obtain rfl := Except.ok.inj hp
  exact .ofCalls (statements_countLines (phrase_own rfl (by rfl)) "properties" min max)

theorem phrase_propertySegment {labels : List Label} (name : String) : Phrase labels (propertySegment name) := by
  unfold propertySegment
  split_ifs
  · exact phrase_stringLiteral _
  · exact phrase_stringLiteral _

theorem propertyPiece_scripted (property : String × Json) : (propertyPiece s property).Scripted := by
  unfold propertyPiece
  refine .ask trivial fun f => .line ?_
  have hkey : Phrase [.function f] (stringLiteral property.1) := phrase_stringLiteral _
  have hf : Phrase [.function f] (functionName f) := phrase_function List.mem_cons_self
  exact (Spells.own rfl |>.hole hkey |>.text rfl |>.hole hf |>.text rfl |>.hole hkey |>.text rfl
    |>.hole (phrase_propertySegment property.1) |>.text rfl).phrase (by rfl)

theorem dependencyPiece_scripted (dependency : String × Json) : (dependencyPiece s dependency).Scripted := by
  have hkey {labels : List Label} : Phrase labels (stringLiteral dependency.1) := phrase_stringLiteral _
  unfold dependencyPiece
  simp only
  split
  · refine .ofExcept fun p hp => ?_
    obtain ⟨others, -, hp⟩ := bind_eq_ok hp
    obtain rfl := Except.ok.inj hp
    exact .ofCalls (.block ((Spells.own rfl |>.hole hkey |>.text rfl).phrase (by rfl))
      (.flatMap fun other _ => statements_failWhen (phrase_hasOwn other) _))
  · refine .ask trivial fun f => .line ?_
    have hf : Phrase [.function f] (functionName f) := phrase_function List.mem_cons_self
    exact (Spells.own rfl |>.hole hkey |>.text rfl |>.hole hf |>.text rfl).phrase (by rfl)

theorem dependenciesPiece_scripted : (dependenciesPiece s).Scripted := by
  refine .ofExcept fun p hp => ?_
  obtain ⟨dependencies, -, hp⟩ := bind_eq_ok hp
  obtain rfl := Except.ok.inj hp
  refine .concat fun p hp => ?_
  obtain ⟨dependency, -, rfl⟩ := List.mem_map.mp hp
  exact dependencyPiece_scripted s dependency

/-! ### Other properties -/

section Loop

variable {labels : List Label}

theorem statements_propertyCall {f : Nat} (h : .function f ∈ labels) : Statements labels [propertyCall f] :=
  statements_invalidUnless ((Spells.put (phrase_function h) |>.text rfl).phrase (by rfl))

theorem statements_patternLines : ∀ (patterns : Json.Members) {ns : List Nat}, ns.length = 2 * patterns.length →
    Statements (supplied (patterns.flatMap fun p => [patternConstant p.1, s.part ("patternProperties/" ++ p.1) p.2])
      ns) (patternLines ns)
  | [], ns, h => by
      obtain rfl := List.length_eq_zero_iff.mp h
      exact .nil
  | p :: rest, ns, h => by
      rcases ns with _ | ⟨c, _ | ⟨f, ns⟩⟩
      · simp at h
      · simp at h
        omega
      have hrest : ns.length = 2 * rest.length := by
        simp only [List.length_cons] at h
        omega
      have ih := statements_patternLines rest hrest
      have hhead : Phrase [.constant c, .function f] ("if (" ++ constantName c ++ ".test(key))") :=
        (Spells.own rfl |>.hole (phrase_constant List.mem_cons_self) |>.text rfl).phrase (by rfl)
      have hmatched : Statements [.constant c, .function f] [.line "matched = true;"] :=
        .own rfl (by rfl)
      have hcall : Statements [.constant c, .function f] [propertyCall f] :=
        statements_propertyCall (List.mem_cons_of_mem _ List.mem_cons_self)
      have hfirst := Statements.block hhead (hmatched.append hcall)
      rw [List.flatMap_cons, supplied_append (by simp)]
      exact (hfirst.mono (List.subset_append_left _ _)).append (ih.mono (List.subset_append_right _ _))

theorem statements_additionalLines {known : Nat} (h : .constant known ∈ labels) {calls : List Call}
    (hcalls : Statements labels calls) : Statements labels (additionalLines known calls) :=
  .block ((Spells.own rfl |>.hole (phrase_constant h) |>.text rfl).phrase (by rfl)) hcalls

theorem statements_namesCheck {f : Nat} (h : .function f ∈ labels) : Statements labels
    (failWhen ("!" ++ functionName f ++ "(key, path, [])") "should have valid property names") :=
  statements_failWhen ((Spells.own rfl |>.hole (phrase_function h) |>.text rfl).phrase (by rfl)) _

/-- The loop around what is done for each property. -/
theorem statements_loop {forNames forPatterns forOthers : List Call} (hnames : Statements labels forNames)
    (hpatterns : Statements labels forPatterns) (hothers : Statements labels forOthers) :
    Statements labels ([opens "for (var key in data)", .line "if (!hasOwn(data, key)) continue;"] ++ forNames
      ++ [.line "var matched = false;"] ++ forPatterns ++ forOthers ++ [closes]) := by
  have hskip : Statements labels [.line "if (!hasOwn(data, key)) continue;"] :=
    .own rfl (by rfl)
  have hmatched : Statements labels [.line "var matched = false;"] := .own rfl (by rfl)
  exact .ownBlock rfl (by rfl) ((((hskip.append hnames).append hmatched).append hpatterns).append hothers)

end Loop

theorem spelled_of_mem_loopDemands {known : List String} {patterns : Json.Members} {additional : Additional}
    {names : Option Json} {d : Demand} (hd : d ∈ loopDemands s known patterns additional names) : d.Spelled := by
  unfold loopDemands at hd
  simp only [List.mem_append, List.mem_flatMap] at hd
  rcases hd with ((⟨p, -, hd⟩ | hd) | hd) | hd
  · rcases List.mem_cons.mp hd with rfl | hd
    · exact spelled_patternConstant p.1
    · obtain rfl := List.mem_singleton.mp hd
      exact trivial
  · cases additional <;> simp at hd
    subst hd
    exact trivial
  · cases names <;> simp at hd
    subst hd
    exact trivial
  · cases additional <;> simp at hd
    all_goals
      subst hd
      exact fun _ => phrase_compact _

/-- The numbers are dealt out in the order of the demands: two for each pattern, then those for other properties,
for names and for the list of known names, as far as there are any. -/
theorem loop_scripted (known : List String) (patterns : Json.Members) (additional : Additional)
    (names : Option Json) : Piece.Scripted ⟨loopDemands s known patterns additional names,
      loopLines patterns.length additional names.isSome⟩ := by
  refine ⟨fun ns hlength => ?_, fun d hd => ?_⟩
  rotate_left
  · exact spelled_of_mem_loopDemands s hd
  have hfront : (patterns.flatMap fun p =>
      [patternConstant p.1, s.part ("patternProperties/" ++ p.1) p.2]).length = 2 * patterns.length := by
    simp [List.length_flatMap, Nat.mul_comm]
  have htake : (ns.take (2 * patterns.length)).length = 2 * patterns.length := by
    simp only [loopDemands, List.length_append, hfront] at hlength
    rw [List.length_take]
    omega
  have hpatterns := statements_patternLines s patterns htake
  simp only [loopDemands, List.append_assoc] at hlength ⊢
  rw [supplied_append (by simp only [List.length_append] at hlength; omega), hfront]
  have hafter : (ns.drop (2 * patterns.length)).length = ns.length - 2 * patterns.length := List.length_drop
  rw [hlength, List.length_append, hfront, Nat.add_sub_cancel_left] at hafter
  simp only [loopLines]
  generalize ns.drop (2 * patterns.length) = after at hafter ⊢
  generalize supplied _ (ns.take (2 * patterns.length)) = before at hpatterns ⊢
  replace hpatterns (more : List Label) := hpatterns.mono (List.subset_append_left before more)
  have hothers (known : Nat) {more : List Label} (h : .constant known ∈ more) {calls : List Call}
      (hcalls : Statements (before ++ more) calls) : Statements (before ++ more) (additionalLines known calls) :=
    statements_additionalLines (List.mem_append_right before h) hcalls
  cases additional with
  | allowed =>
      cases names with
      | none => exact statements_loop .nil (hpatterns _) .nil
      | some sub =>
          obtain ⟨n, rfl⟩ := List.length_eq_one_iff.mp hafter
          exact statements_loop (statements_namesCheck (List.mem_append_right _ List.mem_cons_self)) (hpatterns _) .nil
  | forbidden =>
      cases names with
      | none =>
          obtain ⟨c, rfl⟩ := List.length_eq_one_iff.mp hafter
          exact statements_loop .nil (hpatterns _) (hothers c List.mem_cons_self (statements_failLines _))
      | some sub =>
          obtain ⟨n, c, rfl⟩ := List.length_eq_two.mp hafter
          exact statements_loop (statements_namesCheck (List.mem_append_right _ List.mem_cons_self)) (hpatterns _)
            (hothers c (List.mem_cons_of_mem _ List.mem_cons_self) (statements_failLines _))
  | checked sub =>
      cases names with
      | none =>
          obtain ⟨f, c, rfl⟩ := List.length_eq_two.mp hafter
          exact statements_loop .nil (hpatterns _) (hothers c (List.mem_cons_of_mem _ List.mem_cons_self)
            (statements_propertyCall (List.mem_append_right _ List.mem_cons_self)))
      | some sub' =>
          obtain ⟨f, n, c, rfl⟩ := List.length_eq_three.mp hafter
          exact statements_loop
            (statements_namesCheck (List.mem_append_right _ (List.mem_cons_of_mem _ List.mem_cons_self))) (hpatterns _)
            (hothers c (List.mem_cons_of_mem _ (List.mem_cons_of_mem _ List.mem_cons_self))
              (statements_propertyCall (List.mem_append_right _ List.mem_cons_self)))

theorem loopPiece_scripted (known : List String) (patterns : Json.Members) :
    (loopPiece s known patterns).Scripted :=
  .ite (fun _ => loop_scripted s known patterns _ _) fun _ => .empty

theorem propertiesPiece_scripted : (propertiesPiece s).Scripted := by
  refine .ofExcept fun p hp => ?_
  obtain ⟨properties, -, hp⟩ := bind_eq_ok hp
  obtain rfl := Except.ok.inj hp
  refine .append (.concat fun p hp => ?_) (.ofExcept fun p hp => ?_)
  · obtain ⟨property, -, rfl⟩ := List.mem_map.mp hp
    exact propertyPiece_scripted s property
  · obtain ⟨patterns, -, hp⟩ := bind_eq_ok hp
    obtain rfl := Except.ok.inj hp
    exact loopPiece_scripted s _ patterns

theorem objectPiece_scripted : (objectPiece s).Scripted := by
  refine .wrap (script_opening rfl (by rfl)) (.concat ?_)
  simp only [List.forall_mem_cons, List.not_mem_nil, false_implies, implies_true, and_true]
  exact ⟨requiredPiece_scripted s, propertyCountPiece_scripted s, propertiesPiece_scripted s,
    dependenciesPiece_scripted s⟩

/-! ## Combinations -/

theorem supplied_listDemands (keyword : String) : ∀ (i : Nat) (items : List Json) {ns : List Nat},
    ns.length = items.length → supplied (listDemands s keyword i items) ns = ns.map Label.function
  | _, [], ns, h => by
      obtain rfl := List.length_eq_zero_iff.mp h
      rfl
  | i, _ :: rest, ns, h => by
      cases ns with
      | nil => simp at h
      | cons f ns => exact congrArg (_ :: ·) (supplied_listDemands keyword (i + 1) rest (Nat.succ.inj h))

theorem length_listDemands (keyword : String) : ∀ (i : Nat) (items : List Json),
    (listDemands s keyword i items).length = items.length
  | _, [] => rfl
  | i, _ :: rest => congrArg (· + 1) (length_listDemands keyword (i + 1) rest)

theorem spelled_of_mem_listDemands (keyword : String) {d : Demand} : ∀ {i : Nat} {items : List Json},
    d ∈ listDemands s keyword i items → d.Spelled
  | _, [], hd => absurd hd List.not_mem_nil
  | _, _ :: _, hd => by
      rcases List.mem_cons.mp hd with rfl | hd
      · exact trivial
      · exact spelled_of_mem_listDemands keyword hd

theorem listPiece_scripted (keyword : String) {lines : List Nat → List Call}
    (h : ∀ fs, Statements (fs.map Label.function) (lines fs)) : (listPiece s keyword lines).Scripted := by
  unfold listPiece
  split
  · exact .empty
  · next sub rest _ =>
    refine ⟨fun ns hlength => ?_, fun d hd => spelled_of_mem_listDemands s keyword hd⟩
    have hlength : ns.length = (sub :: rest).length := hlength.trans (length_listDemands s keyword 0 _)
    show Statements (supplied (listDemands s keyword 0 (sub :: rest)) ns) _
    rw [supplied_listDemands s keyword 0 _ hlength]
    exact h ns
  · exact .ofFault _

theorem allOfPiece_scripted : (allOfPiece s).Scripted := by
  refine listPiece_scripted s "allOf" fun fs => .ofForall fun c hc => ?_
  obtain ⟨f, hf, rfl⟩ := List.mem_map.mp hc
  have herrors : Phrase (fs.map Label.function) "errors" := phrase_own rfl (by rfl)
  exact statements_invalidUnless (phrase_selfCall (List.mem_map_of_mem hf) herrors)

theorem anyOfPiece_scripted : (anyOfPiece s).Scripted := by
  refine listPiece_scripted s "anyOf" fun fs => ?_
  have herrors : Phrase (fs.map Label.function) "anyErrors" := phrase_own rfl (by rfl)
  have hcalls : Phrase (fs.map Label.function)
      (String.intercalate " || " (fs.map fun f => selfCall f "anyErrors")) := by
    refine phrase_intercalate " || " rfl (by rfl) fun t ht => ?_
    obtain ⟨f, hf, rfl⟩ := List.mem_map.mp ht
    exact phrase_selfCall (List.mem_map_of_mem hf) herrors
  have hstart : Statements (fs.map Label.function) [.line "var anyErrors = [];"] :=
    .own rfl (by rfl)
  have hpush : Statements (fs.map Label.function) [.line "Array.prototype.push.apply(errors, anyErrors);"] :=
    .own rfl (by rfl)
  exact hstart.cons (.block ((Spells.own rfl |>.hole hcalls |>.text rfl).phrase (by rfl))
    (hpush.cons (statements_failLines _)))

theorem oneOfPiece_scripted : (oneOfPiece s).Scripted := by
  refine listPiece_scripted s "oneOf" fun fs => ?_
  have herrors : Phrase (fs.map Label.function) "oneErrors" := phrase_own rfl (by rfl)
  have hstart : Statements (fs.map Label.function) [.line "var oneErrors = [];", .line "var matches = 0;"] :=
    .cons (.own rfl (by rfl)) (.own rfl (by rfl))
  have hcount : Statements (fs.map Label.function)
      (fs.map fun f => .line ("if (" ++ selfCall f "oneErrors" ++ ") matches++;")) := by
    refine .ofForall fun c hc => ?_
    obtain ⟨f, hf, rfl⟩ := List.mem_map.mp hc
    have hcall := phrase_selfCall (List.mem_map_of_mem hf) herrors
    exact .line ((Spells.own rfl |>.hole hcall |>.text rfl).phrase (by rfl))
  have hpush : Statements (fs.map Label.function)
      [.line "if (matches === 0) Array.prototype.push.apply(errors, oneErrors);"] :=
    .own rfl (by rfl)
  have hhead : Phrase (fs.map Label.function) "if (matches !== 1)" := phrase_own rfl (by rfl)
  have hfail := Statements.block hhead
    (hpush.append (statements_failLines "should match exactly one schema in oneOf"))
  simpa using (hstart.append hcount).append hfail

theorem notPiece_scripted : (notPiece s).Scripted := by
  unfold notPiece
  split
  · exact .empty
  · refine .ask trivial fun f => statements_failWhen (phrase_selfCall List.mem_cons_self ?_) _
    exact phrase_own rfl (by rfl)

/-- The lines for a condition with its branches. -/
theorem statements_choose {labels : List Label} {f : Nat} (h : .function f ∈ labels)
    {whenTrue whenFalse : List Call} (htrue : Statements labels whenTrue) (hfalse : Statements labels whenFalse) :
    Statements labels (opens ("if (" ++ selfCall f "[]" ++ ")") :: whenTrue ++ [.reopening "\x7d else \x7b"]
      ++ whenFalse ++ [closes]) := by
  have hcondition : Phrase labels ("if (" ++ selfCall f "[]" ++ ")") :=
    phrase_condition (phrase_selfCall h (phrase_own rfl (by rfl)))
  have helse (stack : List Char) : Script labels [] ('{' :: stack) [.reopening "\x7d else \x7b"] ('{' :: stack) :=
    ((Spells.own rfl).sentence ['{'] ['{'] (by rfl) stack).script (s := "\x7d else \x7b") rfl
  intro stack
  exact (((script_opens hcondition stack).append (htrue _)).append (helse stack)).append (hfalse _)
    |>.append (script_closes stack)

theorem conditionPiece_scripted : (conditionPiece s).Scripted := by
  have hbranch {labels : List Label} {f : Nat} (h : .function f ∈ labels) :
      Statements labels [invalidUnless (selfCall f "errors")] :=
    statements_invalidUnless (phrase_selfCall h (phrase_own rfl (by rfl)))
  unfold conditionPiece
  simp only
  split
  · exact .empty
  · exact .empty
  · refine ⟨fun ns hlength => ?_, by simp [Site.part, Demand.Spelled]⟩
    obtain ⟨t, c, rfl⟩ := List.length_eq_two.mp hlength
    exact statements_choose (List.mem_cons_of_mem _ List.mem_cons_self) (hbranch List.mem_cons_self) .nil
  · refine ⟨fun ns hlength => ?_, by simp [Site.part, Demand.Spelled]⟩
    obtain ⟨e, c, rfl⟩ := List.length_eq_two.mp hlength
    exact statements_choose (List.mem_cons_of_mem _ List.mem_cons_self) .nil (hbranch List.mem_cons_self)
  · refine ⟨fun ns hlength => ?_, by simp [Site.part, Demand.Spelled]⟩
    obtain ⟨t, e, c, rfl⟩ := List.length_eq_three.mp hlength
    exact statements_choose (List.mem_cons_of_mem _ (List.mem_cons_of_mem _ List.mem_cons_self))
      (hbranch List.mem_cons_self) (hbranch (List.mem_cons_of_mem _ List.mem_cons_self))

/-! ## Bodies -/

theorem keywordsPiece_scripted (validateFormats : Bool) : (keywordsPiece validateFormats s).Scripted := by
  have hfirst : Statements [] [.line "var valid = true;"] := .own rfl (by rfl)
  have hlast : Statements [] [.line "return valid;"] := .own rfl (by rfl)
  unfold keywordsPiece
  split
  · exact .ofFault _
  · refine .concat ?_
    simp only [List.forall_mem_cons, List.not_mem_nil, false_implies, implies_true, and_true]
    exact ⟨.ofCalls hfirst, typePiece_scripted s, enumPiece_scripted s, constPiece_scripted s,
      numericPiece_scripted s, stringPiece_scripted s, arrayPiece_scripted s, objectPiece_scripted s,
      allOfPiece_scripted s, anyOfPiece_scripted s, oneOfPiece_scripted s, notPiece_scripted s,
      conditionPiece_scripted s, .ofCalls hlast⟩

end Keywords

/-- **The body of every schema is read as code**, and uses no names but those it was supplied with. -/
theorem body_scripted (validateFormats : Bool) (schema : Json) (location : String) :
    (body validateFormats schema location).Scripted := by
  unfold body
  split
  · exact .ofCalls (.own rfl (by rfl))
  · exact .ofCalls (.cons (.own rfl (by rfl)) (.own rfl (by rfl)))
  · simp only
    split
    · refine .ask trivial fun f => .line ?_
      have herrors : Phrase [.function f] "errors" := phrase_own rfl (by rfl)
      have hcall := phrase_selfCall List.mem_cons_self herrors
      exact (Spells.own rfl |>.hole hcall |>.text rfl).phrase (by rfl)
    · exact .ofFault _
    · exact keywordsPiece_scripted _ validateFormats
  · exact .ofFault _

end DecoderForge.Standalone
