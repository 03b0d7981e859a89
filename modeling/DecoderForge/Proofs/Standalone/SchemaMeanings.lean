import DecoderForge.Proofs.Standalone.Meanings

/-!
# DecoderForge — keywords that hold schemas mean what their code demands

The code for a keyword that holds schemas demands what the engine demands by it, wherever the functions that it
calls give the verdicts of those schemas.

## The architecture

* **`Reader.Reads`** — a row of constraints for a row of schemas.
* **`…_means`** — one lemma per keyword, or group of keywords.
-/

namespace DecoderForge.Standalone

open Layout (Call)
open SchemaReading

/-! ## Schemas in the values of keywords -/

namespace Reader

variable {E : Reader} {members : Json.Members} {keyword : String} {v w : Json} {path : String} {u : Json}

/-- A row of constraints for a row of schemas. -/
def Reads (E : Reader) (us : List Json) (cs : List Constraint) : Prop :=
  List.Forall₂ (fun u c => Meaning.read E.dialect u = .ok c) us cs

/-- A row of functions for a row of schemas. -/
def StandFor (E : Reader) (us : List Json) (fs : List Nat) : Prop := List.Forall₂ (fun u f => E.Stands f u) us fs

theorem part_surroundings (hget : members.get? keyword = some v) :
    (E.surroundings members).part keyword = (SchemaPlace.ofKeyword keyword).partWith (Meaning.read E.dialect) v :=
  part_eq hget

theorem part_surroundings_none (hget : members.get? keyword = none) : (E.surroundings members).part keyword = .none :=
  part_none hget

theorem reads_of_mapM {us : List Json} {cs : List Constraint}
    (h : (us.map (Meaning.read E.dialect)).mapM id = .ok cs) : E.Reads us cs :=
  List.forall₂_map_left_iff.mp (forall₂_of_mapM h)

theorem accepts_true : E.Accepts (.bool true) w path := by
  refine ⟨.any, ?_, Constraint.issues_any w⟩
  unfold Meaning.read
  rw [Constraint.readBy]

theorem not_accepts_false : ¬ E.Accepts (.bool false) w path := by
  rintro ⟨c, hread, hc⟩
  unfold Meaning.read at hread
  rw [Constraint.readBy] at hread
  obtain rfl := Except.ok.inj hread
  rw [Constraint.issues] at hc
  cases hc

/-- A schema that is read is a flag or an object. -/
theorem shape_of_read {c : Constraint} (hread : Meaning.read E.dialect u = .ok c) :
    (∃ b, u = .bool b) ∨ ∃ ms, u = .obj ms := by
  unfold Meaning.read at hread
  cases u with
  | bool b => exact Or.inl ⟨b, rfl⟩
  | obj ms => exact Or.inr ⟨ms, rfl⟩
  | null | num _ | str _ | arr _ =>
      rw [Constraint.readBy.eq_def] at hread
      cases hread

theorem Stands.shape {f : Nat} (h : E.Stands f u) : (∃ b, u = .bool b) ∨ ∃ ms, u = .obj ms := by
  obtain ⟨c, hread⟩ := h.readable
  exact shape_of_read hread

namespace Reads

variable {us : List Json} {cs : List Constraint} (h : E.Reads us cs)

include h

theorem forall_iff : (∀ c ∈ cs, c.issues E.follow w path = []) ↔ ∀ u ∈ us, E.Accepts u w path :=
  (forall_mem_iff_of_forall₂ (R := fun u c => Meaning.read E.dialect u = .ok c) (fun _ _ hread => accepts_iff hread)
    h).symm

open Classical in
theorem countAllowing_eq :
    Constraint.countAllowing E.follow cs w path = us.countP fun u => decide (E.Accepts u w path) := by
  rw [Constraint.countAllowing_eq]
  refine (countP_eq_of_forall₂ (fun u c hread => ?_) h).symm
  rw [Bool.eq_iff_iff, decide_eq_true_iff, accepts_iff hread, List.isEmpty_iff]

theorem inTurn_iff {vs : List Json} : Constraint.issuesInTurn E.follow cs 0 vs path = []
    ↔ ∀ (i : Nat) (u v : Json), us[i]? = some u → vs[i]? = some v → E.Accepts u v (Issue.belowIndex path i) := by
  obtain ⟨hlength, hread⟩ := List.forall₂_iff_get.mp h
  rw [Constraint.issuesInTurn_eq_nil_iff]
  simp only [Nat.zero_add]
  constructor
  · intro hall i u v hu hv
    obtain ⟨hi, rfl⟩ := List.getElem?_eq_some_iff.mp hu
    exact (accepts_iff (hread i hi (hlength ▸ hi))).mpr (hall i _ v (List.getElem?_eq_getElem (hlength ▸ hi)) hv)
  · intro hall i c v hc hv
    obtain ⟨hi, rfl⟩ := List.getElem?_eq_some_iff.mp hc
    exact (accepts_iff (hread i (hlength ▸ hi) hi)).mp (hall i _ v (List.getElem?_eq_getElem (hlength ▸ hi)) hv)

end Reads

namespace StandFor

variable {us : List Json} {fs : List Nat} (h : E.StandFor us fs)

include h

theorem forall_iff : (∀ f ∈ fs, E.code f w path) ↔ ∀ u ∈ us, E.Accepts u w path :=
  (forall_mem_iff_of_forall₂ (fun _ _ hstands => (hstands.verdict w path).symm) h).symm

open Classical in
theorem countP_eq : (fs.countP fun f => decide (E.code f w path)) = us.countP fun u => decide (E.Accepts u w path) := by
  refine (countP_eq_of_forall₂ (fun u f hstands => ?_) h).symm
  rw [Bool.eq_iff_iff, decide_eq_true_iff, decide_eq_true_iff, hstands.verdict]

end StandFor

end Reader

open Reader Piece

variable {E : Reader} {s : Site} {ruled : Bool}

/-! ## Items -/

theorem tuplePieces_means : ∀ (i : Nat) (us : List Json), (concat (tuplePieces s i us)).Means E ruled false
    fun w path => ∀ vs, w = .arr vs → ∀ (j : Nat) (u v : Json), us[j]? = some u → vs[i + j]? = some v →
      E.Accepts u v (Issue.belowIndex path (i + j))
  | _, [] => means_empty.congr fun _ _ => by simp
  | i, u :: rest => by
      have hfirst : (ask (s.part ("items/" ++ toString i) u) fun f =>
          [.line ("if (data.length > " ++ toString i ++ " && !" ++ itemCall f (toString i)
            ("\"[" ++ toString i ++ "]\"") ++ ") valid = false;")]).Means E ruled false fun w path =>
            ∀ vs, w = .arr vs → ∀ v, vs[i]? = some v → E.Accepts u v (Issue.belowIndex path i) := by
        refine means_ask (fun f => .item i f) (fun _ => rfl) (fun _ => rfl) (fun _ _ => trivial)
          fun f (hf : E.Stands f u) w path => ?_
        simp only [Check.Passes, hf.verdict]
      refine (hfirst.concat_cons (tuplePieces_means (i + 1) rest)).congr fun w path => ?_
      constructor
      · rintro ⟨hitem, hrest⟩ vs hvs j u' v hu hv
        cases j with
        | zero =>
            obtain rfl := Option.some.inj hu
            exact hitem vs hvs v hv
        | succ j =>
            rw [Nat.add_comm j 1, ← Nat.add_assoc] at hv ⊢
            exact hrest vs hvs j u' v hu hv
      · refine fun hall => ⟨fun vs hvs v hv => hall vs hvs 0 u v rfl hv, fun vs hvs j u' v hu hv => ?_⟩
        rw [Nat.add_assoc, Nat.add_comm 1 j] at hv ⊢
        exact hall vs hvs (j + 1) u' v hu hv

/-- Items from an index on that a schema has to accept. -/
theorem itemsBeyond_iff {u : Json} {c : Constraint} (hread : Meaning.read E.dialect u = .ok c) {start : Nat} {w : Json}
    {path : String} : (Constraint.itemsBeyond start c).issues E.follow w path = []
      ↔ ∀ vs, w = .arr vs → ∀ p ∈ vs.zipIdx.drop start, E.Accepts u p.1 (Issue.belowIndex path p.2) := by
  simp only [accepts_iff hread]
  cases w with
  | arr vs => simp [Constraint.issues, List.flatMap_eq_nil_iff]
  | null | bool _ | num _ | str _ | obj _ => simp [Constraint.issues]

theorem items_iff {u : Json} {c : Constraint} (hread : Meaning.read E.dialect u = .ok c) {w : Json} {path : String} :
    (Constraint.items c).issues E.follow w path = []
      ↔ ∀ vs, w = .arr vs → ∀ p ∈ vs.zipIdx.drop 0, E.Accepts u p.1 (Issue.belowIndex path p.2) := by
  rw [← itemsBeyond_iff hread]
  cases w with
  | arr vs => rw [Constraint.issues, Constraint.issues, List.drop_zero]
  | null | bool _ | num _ | str _ | obj _ => simp [Constraint.issues]

theorem itemsFrom_passes {f : Nat} {u : Json} (hf : E.Stands f u) (start : Nat) (w : Json) (path : String) :
    (Check.itemsFrom start f).Passes E.dialect.draft ruled E.code w path
      ↔ ∀ vs, w = .arr vs → ∀ p ∈ vs.zipIdx.drop start, E.Accepts u p.1 (Issue.belowIndex path p.2) := by
  simp only [Check.Passes, hf.verdict]

theorem additionalItemsPiece_means {us : List Json} (hitems : s.get? "items" = some (.arr us)) :
    (additionalItemsPiece s us.length).Means E ruled false (E.Says s.members "additionalItems") := by
  have hread (v : Json) : readKeyword (E.surroundings s.members) "additionalItems" v
      = readAdditionalItems (E.surroundings s.members) v := rfl
  have hlist : (E.surroundings s.members).get? "items" = some (.arr us) := hitems
  unfold additionalItemsPiece
  split
  · next hget => exact means_empty.congr fun _ _ => (says_of_none hget).symm
  · next hget =>
    refine means_empty.congr fun _ _ => (says_of_any hget ?_).symm
    simp only [hread, readAdditionalItems, hlist]
  · next hget =>
    refine means_ofCalls [.count .items true us.length] ?_ (.single trivial fun w path => ?_)
    · rw [show (" items" : String) = " " ++ "items" from rfl, ← String.append_assoc]
      simp [Check.calls, countLines, Counted.size, Counted.things]
    rw [says_assert (a := .noItemsBeyond us.length) hget (by simp only [hread, readAdditionalItems, hlist])]
    cases w <;> simp [Check.Passes, Assertion.faults, Assertion.check]
  · next u hnotTrue hnotFalse hget =>
    refine means_ask (fun f => .itemsFrom us.length f) (fun _ => rfl) (fun _ => rfl) (fun _ _ => trivial)
      fun f (hf : E.Stands f u) w path => ?_
    obtain ⟨c, hc⟩ := hf.readable
    rcases hf.shape with ⟨b, rfl⟩ | ⟨ms, rfl⟩
    · cases b with
      | true => exact (hnotTrue rfl).elim
      | false => exact (hnotFalse rfl).elim
    · rw [itemsFrom_passes hf, ← itemsBeyond_iff hc, says_iff (c := .itemsBeyond us.length c) hget]
      simp only [hread, readAdditionalItems, hlist]
      rw [part_surroundings hget]
      show (Meaning.read E.dialect (.obj ms)).map _ = _
      rw [hc]
      rfl

theorem itemsPiece_means (h : Legible E.dialect s.members) : (itemsPiece s).Means E ruled false fun w path =>
    E.Says s.members "items" w path
      ∧ (isCoded s.members "additionalItems" = true → E.Says s.members "additionalItems" w path) := by
  have hread (v : Json) : readKeyword (E.surroundings s.members) "items" v = readItems (E.surroundings s.members) v :=
    rfl
  have hcoded {v : Json} (hget : s.get? "items" = some v) (hlist : ∀ us, v ≠ .arr us) :
      isCoded s.members "additionalItems" = false := by
    replace hget : s.members.get? "items" = some v := hget
    unfold isCoded
    rw [hget]
    cases v with
    | arr us => exact absurd rfl (hlist us)
    | null | bool _ | num _ | str _ | obj _ => rfl
  unfold itemsPiece
  split
  · next hget =>
    replace hget : s.members.get? "items" = none := hget
    refine means_empty.congr fun w path => ?_
    simp [says_of_none hget, isCoded, hget]
  · next us hget =>
    obtain ⟨c, hc⟩ := h.exists_read hget
    have hitems := hc
    rw [hread, readItems] at hitems
    obtain ⟨cs, hcs, rfl⟩ := map_eq_ok hitems
    rw [part_surroundings hget] at hcs
    refine ((tuplePieces_means 0 us).append (additionalItemsPiece_means hget)).congr fun w path => ?_
    have hlist : isCoded s.members "additionalItems" = true := by
      replace hget : s.members.get? "items" = some (.arr us) := hget
      unfold isCoded
      rw [hget]
      rfl
    refine and_congr ?_ (by simp [hlist])
    rw [says_iff hget hc]
    simp only [Nat.zero_add]
    cases w with
    | arr vs =>
        rw [Constraint.issues, (reads_of_mapM hcs).inTurn_iff]
        simp
    | null | bool _ | num _ | str _ | obj _ => simp [Constraint.issues]
  · next u hnotList hget =>
    refine means_ask (fun f => .itemsFrom 0 f) (fun _ => rfl) (fun _ => rfl) (fun _ _ => trivial)
      fun f (hf : E.Stands f u) w path => ?_
    rw [itemsFrom_passes hf, hcoded hget hnotList]
    simp only [Bool.false_eq_true, false_implies, and_true]
    obtain ⟨c, hc⟩ := hf.readable
    -- a schema that accepts everything is not read as a constraint on items
    by_cases htrue : u = .bool true
    · subst htrue
      rw [says_of_any hget rfl, iff_true]
      exact fun _ _ _ _ => accepts_true
    · rw [← items_iff hc, says_iff (c := .items c) hget]
      have hpart : (E.surroundings s.members).part "items" = .one (Meaning.read E.dialect u) := by
        rw [part_surroundings hget]
        rcases hf.shape with ⟨b, rfl⟩ | ⟨ms, rfl⟩ <;> rfl
      rw [hread]
      rcases hf.shape with ⟨b, rfl⟩ | ⟨ms, rfl⟩
      · cases b with
        | true => exact absurd rfl htrue
        | false => rw [readItems, hpart, Part.whole, hc]; rfl
      · rw [readItems, hpart, Part.whole, hc]; rfl

theorem containsPiece_means : (containsPiece s).Means E ruled false (E.Says s.members "contains") := by
  unfold containsPiece
  cases hget : s.get? "contains" with
  | none => exact means_empty.congr fun _ _ => (says_of_none hget).symm
  | some u =>
      refine means_ask (fun f => .contains f) (fun _ => rfl) (fun _ => rfl) (fun _ _ => trivial)
        fun f (hf : E.Stands f u) w path => ?_
      have hread : readKeyword (E.surroundings s.members) "contains" u = if !(E.dialect.draft != .draft4) then .ok .any
          else ((E.surroundings s.members).part "contains").whole.map .contains := rfl
      obtain ⟨c, hc⟩ := hf.readable
      by_cases hdraft : E.dialect.draft = .draft4
      · rw [says_of_any hget (by rw [hread, hdraft]; rfl)]
        simp [Check.Passes, hdraft]
      · have hpart : ((E.surroundings s.members).part "contains").whole = .ok c := by
          rw [part_surroundings hget]
          exact hc
        rw [says_iff (c := .contains c) hget (by rw [hread, if_neg (by simp [hdraft]), hpart]; rfl)]
        simp only [Check.Passes, hf.issues_iff hc]
        cases w with
        | arr vs => simp [hdraft, Constraint.issues]
        | null | bool _ | num _ | str _ | obj _ => simp [Constraint.issues]

theorem arrayPiece_means (h : Legible E.dialect s.members) : (arrayPiece s).Means E ruled false fun w path =>
    (isCoded s.members "additionalItems" = true → E.Says s.members "additionalItems" w path)
      ∧ ∀ keyword ∈ ["items", "contains", "minItems", "maxItems", "uniqueItems"], E.Says s.members keyword w path := by
  refine .wrap .array ?_
  refine means_bind fun min hmin => means_bind fun max hmax => ?_
  have hcounts : (ofCalls (countLines "data.length" "items" min max ++ uniqueLines s)).Means E ruled false fun w path =>
      (E.Says s.members "minItems" w path ∧ E.Says s.members "maxItems" w path)
        ∧ E.Says s.members "uniqueItems" w path := by
    refine means_ofCalls _ ?_
      (((row_count ruled hmin (.count .items false) .minItems (fun _ => rfl) (fun _ => trivial) (fun _ _ _ => Iff.rfl)
        fun _ => rfl).append (row_count ruled hmax (.count .items true) .maxItems (fun _ => rfl) (fun _ => trivial)
        (fun _ _ _ => Iff.rfl) fun _ => rfl)).append (row_unique ruled))
    rw [List.flatMap_append, ← countLines_eq .items min max]
    unfold uniqueLines
    cases s.flag "uniqueItems" <;> rfl
  refine ((itemsPiece_means h).concat_cons (containsPiece_means.concat_cons
    (hcounts.concat_cons means_concat_nil))).congr fun w path => ?_
  simp only [List.forall_mem_cons, List.not_mem_nil, false_implies, implies_true, and_true]
  tauto

end DecoderForge.Standalone
