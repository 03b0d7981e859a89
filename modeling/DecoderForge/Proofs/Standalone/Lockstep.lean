import DecoderForge.Proofs.Standalone.BodyMeanings
import DecoderForge.Proofs.Standalone.Emission
import DecoderForge.Proofs.Standalone.ReadBack
import DecoderForge.Proofs.Standalone.Wiring

/-!
# DecoderForge — modules with the same text

Two modules with the same text have the same functions.  Function by function they check schemas that accept the same
values, as far as references are followed, whatever the schemas are.

## The architecture

* **`Form`** — what a body is: a flag, a reference or a row of checks; read off its lines by
  **`Form.calls_injective`**.
* **`exists_form`** — the body of a schema, and what it demands.
* **`Assembly`** — a linked module with the schemas that its functions check.
* **`Assembly.verdict_iff`** — two modules in lockstep.
-/

namespace DecoderForge.Standalone

open Layout (Call)
open SchemaReading
open Reader Piece

/-! ## Bodies -/

/-- What a function body is. -/
inductive Form where
  | flag (b : Bool)
  | refers (function : Nat)
  | checks (checks : List Check)

namespace Form

def calls : Form → List Call
  | .flag true => [.line "return true;"]
  | .flag false => [.line "errors.push(\x7b dataPath: path, message: \"boolean schema is false\" \x7d);",
      .line "return false;"]
  | .refers f => [.line ("return " ++ selfCall f "errors" ++ ";")]
  | .checks as => .line "var valid = true;" :: (as.flatMap Check.calls ++ [returnValid])

def Fits (constants : List String) : Form → Prop
  | .checks as => ∀ a ∈ as, a.Fits constants
  | _ => True

/-- Whether a value passes a body. -/
def Passes (draft : Draft) (code referred : Verdicts) (w : Json) (path : String) : Form → Prop
  | .flag b => b = true
  | .refers f => referred f w path
  | .checks as => ∀ a ∈ as, a.Passes draft (as.any Check.isRuling) code w path

/-- The first line of a body that calls the function of a reference. -/
theorem ne_refersLine {c : Call} {f : Nat} (h : c.text.take 8 ≠ "return v".toList) :
    c ≠ .line ("return " ++ selfCall f "errors" ++ ";") := by
  rintro rfl
  exact h (by simp [Call.text, selfCall, functionName])

/-- **A body is read off its lines.** -/
theorem calls_injective {constants : List String} {a b : Form} (ha : a.Fits constants) (hb : b.Fits constants)
    (h : a.calls = b.calls) : a = b := by
  cases a with
  | flag x => cases b with
    | flag y => cases x <;> cases y <;> simp [calls] at h ⊢
    | refers g => cases x <;> exact absurd (List.cons.inj h).1 (ne_refersLine (by decide))
    | checks bs => cases x <;> simp [calls] at h
  | refers f => cases b with
    | flag y => cases y <;> exact absurd (List.cons.inj h).1.symm (ne_refersLine (by decide))
    | refers g =>
        have hname : functionName f = functionName g := by simpa [calls, selfCall] using h
        rw [functionName_injective hname]
    | checks bs => exact absurd (List.cons.inj h).1.symm (ne_refersLine (by decide))
  | checks as => cases b with
    | flag y => cases y <;> simp [calls] at h
    | refers g => exact absurd (List.cons.inj h).1 (ne_refersLine (by decide))
    | checks bs => rw [Check.flatMap_calls_inj not_begins_returnValid ha hb (List.cons.inj h).2]

end Form

/-- **The body of a schema**, and what it demands. -/
theorem exists_form {E : Reader} {u : Json} {location : String} {ns : List Nat}
    (hbody : HasBody E.dialect.formats u)
    (hlegible : ∀ members : Json.Members, u = .obj members → members.get? "$ref" = none → Legible E.dialect members)
    (hns : List.Forall₂ E.Meets (body E.dialect.formats u location).demands ns) :
    ∃ F : Form, (body E.dialect.formats u location).lines ns = F.calls ∧ F.Fits E.constants
      ∧ ∀ w path, E.Accepts u w path ↔ F.Passes E.dialect.draft E.code E.referred w path := by
  cases u with
  | bool b =>
      refine ⟨.flag b, by cases b <;> rfl, trivial, fun w path => ?_⟩
      cases b with
      | true => exact iff_of_true accepts_true rfl
      | false => exact iff_of_false not_accepts_false Bool.false_ne_true
  | obj members =>
      cases href : Json.Members.get? members "$ref" with
      | none =>
          obtain ⟨checks, hlines, hfits, haccepts⟩ := body_means (hlegible members rfl href) href hns
          exact ⟨.checks checks, hlines, hfits, haccepts⟩
      | some v =>
          cases v with
          | str r =>
              have hrefers : RefersTo (.obj members) r := href
              have hlines : (body E.dialect.formats (.obj members) location).lines ns
                  = [.line ("return " ++ selfCall (ns.headD 0) "errors" ++ ";")] := by
                simp only [body, Site.get?, href]
                rfl
              rw [demands_of_refersTo E.dialect.formats hrefers] at hns
              cases hns with
              | @cons _ f _ _ hf hrest =>
                  refine ⟨.refers f, hlines, trivial, fun w path => ?_⟩
                  have hread : Meaning.read E.dialect (.obj members) = .ok (.reference (Meaning.written r)) := by
                    unfold Meaning.read
                    rw [Constraint.readBy_obj, href]
                  rw [accepts_iff hread, Constraint.issues, ← hf]
                  rfl
          | null | bool _ | num _ | arr _ | obj _ => simp [HasBody, href] at hbody
  | null | num _ | str _ | arr _ => exact hbody.elim

theorem Form.allClear (F : Form) : AllClear F.calls := by
  cases F with
  | flag b =>
      cases b with
      | true => exact .own rfl rfl
      | false => exact .cons (clear_own rfl rfl) (by simp) (.own rfl rfl)
  | refers f => exact .line (by simp [PlainFirst]) (by simp [newline_notMem_selfCall]) (by simp [List.getLast?_cons])
  | checks as =>
      exact .cons (clear_own rfl rfl) (by simp) ((AllClear.flatMap fun a _ => a.allClear).append (.own rfl rfl))

/-! ## Modules -/

/-- A linked module with the schemas that its functions check, each of which the engine can read. -/
structure Assembly (dialect : Dialect) where
  root : Json
  /-- The schema that the module is for. -/
  start : Json
  linkage : Linkage
  origins : Origins
  codes : List (List Call)
  wired : Wired root dialect.formats origins linkage
  functions : linkage.functions = codes.map some
  constants : ∀ value ∈ linkage.constants, '\n' ∉ value.toList
  visited : ∀ o ∈ origins, Visited root start o.1
  hasBody : ∀ u, Visited root start u → HasBody dialect.formats u
  legible : ∀ members : Json.Members, Visited root start (.obj members) → members.get? "$ref" = none →
    Legible dialect members

namespace Assembly

variable {dialect : Dialect} (M : Assembly dialect)

/-- Whether a schema accepts a value at a place, where so many references may be followed. -/
def Verdict (n : Nat) (u v : Json) (path : String) : Prop :=
  ∃ c, Meaning.read dialect u = .ok c ∧ c.issues (Meaning.issuesAt (resolveLocal? M.root) dialect n) v path = []

/-- A function that checks a schema. -/
def Checks (k : Nat) (u : Json) : Prop := ∃ location, M.origins[k]? = some (u, location)

/-- The verdicts of the functions. -/
def verdicts (n : Nat) : Verdicts := fun f v path => ∃ u, M.Checks f u ∧ M.Verdict n u v path

/-- The verdicts of the functions behind a reference, which uses one up. -/
def verdictsBehind : Nat → Verdicts
  | 0 => fun _ _ _ => False
  | n + 1 => M.verdicts n

variable {M}

theorem Checks.visited {k : Nat} {u : Json} (h : M.Checks k u) : Visited M.root M.start u := by
  obtain ⟨location, hk⟩ := h
  exact M.visited _ (List.mem_of_getElem? hk)

theorem Checks.unique {k : Nat} {u u' : Json} (h : M.Checks k u) (h' : M.Checks k u') : u = u' := by
  obtain ⟨location, hk⟩ := h
  obtain ⟨location', hk'⟩ := h'
  exact (Prod.mk.inj (Option.some.inj (hk.symm.trans hk'))).1

theorem verdicts_iff {n f : Nat} {u : Json} (h : M.Checks f u) {v : Json} {path : String} :
    M.verdicts n f v path ↔ M.Verdict n u v path := by
  constructor
  · rintro ⟨u', h', hv⟩
    exact h'.unique h ▸ hv
  · exact fun hv => ⟨u, h, hv⟩

variable (M)

theorem length_origins : M.origins.length = M.codes.length := by rw [M.wired.length, M.functions, List.length_map]

theorem Checks.lt_length {M : Assembly dialect} {k : Nat} {u : Json} (h : M.Checks k u) : k < M.codes.length := by
  obtain ⟨location, hk⟩ := h
  exact M.length_origins ▸ (List.getElem?_eq_some_iff.mp hk).1

/-- Every function checks a schema. -/
theorem exists_checks {k : Nat} (h : k < M.codes.length) : ∃ u, M.Checks k u := by
  have hk : k < M.origins.length := M.length_origins ▸ h
  exact ⟨M.origins[k].1, M.origins[k].2, List.getElem?_eq_getElem hk⟩

/-- The code of a function. -/
theorem exists_code {k : Nat} {u : Json} {location : String} (h : M.origins[k]? = some (u, location)) :
    ∃ ns, M.codes[k]? = some (functionCode k ((body dialect.formats u location).lines ns))
      ∧ List.Forall₂ (M.linkage.Supplies M.origins) (body dialect.formats u location).demands ns := by
  have hk : k < M.codes.length := Checks.lt_length ⟨location, h⟩
  have hcode : M.linkage.functions[k]? = some (some M.codes[k]) := by
    rw [M.functions, List.getElem?_map, List.getElem?_eq_getElem hk]
    rfl
  obtain ⟨u', location', ns, horigin, heq, hmet⟩ := M.wired.written hcode
  obtain ⟨rfl, rfl⟩ := Prod.mk.inj (Option.some.inj (h.symm.trans horigin))
  exact ⟨ns, by rw [List.getElem?_eq_getElem hk, heq], hmet⟩

theorem exists_read {u : Json} (h : Visited M.root M.start u) : ∃ c, Meaning.read dialect u = .ok c := by
  have hbody := M.hasBody u h
  unfold Meaning.read
  cases u with
  | bool b => cases b <;> exact ⟨_, by rw [Constraint.readBy]⟩
  | obj members =>
      cases href : Json.Members.get? members "$ref" with
      | none =>
          obtain ⟨cs, hcs⟩ := exists_mapM (M.legible members h href).readable
          refine ⟨.all cs, ?_⟩
          rw [Constraint.readBy_obj, href]
          exact congrArg (Except.map Constraint.all) hcs
      | some v =>
          cases v with
          | str r => exact ⟨_, by rw [Constraint.readBy_obj, href]⟩
          | null | bool _ | num _ | arr _ | obj _ => simp [HasBody, href] at hbody
  | null | num _ | str _ | arr _ => exact hbody.elim

/-- **The numbers in a body meet what it demands**, if functions have the verdicts of the schemas that they check. -/
theorem meets {n : Nat} {u : Json} {location : String} {ns : List Nat}
    (hns : List.Forall₂ (M.linkage.Supplies M.origins) (body dialect.formats u location).demands ns)
    {code referred : Verdicts}
    (hcode : ∀ f w, w.Inside u → M.Checks f w → ∀ v path, code f v path ↔ M.Verdict n w v path)
    (hreferred : ∀ f v path, (∃ t, M.Checks f t) → (referred f v path ↔ M.verdictsBehind n f v path)) :
    List.Forall₂ (Reader.Meets ⟨dialect, Meaning.issuesAt (resolveLocal? M.root) dialect n, M.linkage.constants, code,
      referred⟩) (body dialect.formats u location).demands ns := by
  refine ((List.forall₂_and_left _ _).mpr ⟨fun d hd => hd, hns⟩).imp fun d k hdk => ?_
  obtain ⟨hd, hk⟩ := hdk
  cases d with
  | constant value => exact hk
  | function w location' =>
      have hw : M.Checks k w := ⟨location', hk⟩
      exact ⟨M.exists_read hw.visited, hcode k w (body_within dialect.formats u location _ hd) hw⟩
  | reference r =>
      obtain ⟨target, htarget, horigin⟩ := M.wired.owned (Linkage.mem_of_lookup hk)
      intro v path
      refine (hreferred k v path ⟨target, r, horigin⟩).trans ?_
      -- to follow the reference uses one up
      cases n with
      | zero => simp [verdictsBehind, Meaning.issuesAt]
      | succ n =>
          exact (verdicts_iff ⟨r, horigin⟩).trans (Meaning.issuesAt_succ_eq_nil_iff htarget n v path).symm
  | fault f => exact hk

/-- **Each function is a form**, with the verdict of its schema where the functions that it calls have theirs. -/
theorem exists_function {n k : Nat} {u : Json} (hk : M.Checks k u) (code referred : Verdicts)
    (hcode : ∀ f w, w.Inside u → M.Checks f w → ∀ v path, code f v path ↔ M.Verdict n w v path)
    (hreferred : ∀ f v path, (∃ t, M.Checks f t) → (referred f v path ↔ M.verdictsBehind n f v path)) :
    ∃ F : Form, M.codes[k]? = some (functionCode k F.calls) ∧ F.Fits M.linkage.constants
      ∧ ∀ v path, M.Verdict n u v path ↔ F.Passes dialect.draft code referred v path := by
  obtain ⟨location, horigin⟩ := hk
  have hvisited := M.visited _ (List.mem_of_getElem? horigin)
  obtain ⟨ns, hcodes, hns⟩ := M.exists_code horigin
  obtain ⟨F, hlines, hfits, haccepts⟩ := exists_form (M.hasBody u hvisited)
    (fun members hmembers href => M.legible members (hmembers ▸ hvisited) href) (M.meets hns hcode hreferred)
  exact ⟨F, hlines ▸ hcodes, hfits, haccepts⟩

/-- All lines of a module show themselves. -/
theorem clearFunctions : ClearFunctions M.codes := by
  intro code hcode
  obtain ⟨k, hk, rfl⟩ := List.mem_iff_getElem.mp hcode
  obtain ⟨u, hu⟩ := M.exists_checks hk
  obtain ⟨F, hF, -⟩ := M.exists_function (n := 0) hu (M.verdicts 0) (M.verdictsBehind 0)
    (fun f w _ hf v path => verdicts_iff hf) fun f v path _ => Iff.rfl
  rw [List.getElem?_eq_getElem hk] at hF
  exact ⟨k, F.calls, Option.some.inj hF, F.allClear⟩

theorem clearModule : ClearModule M.linkage M.codes := ⟨M.functions, M.clearFunctions, M.constants⟩

/-! ## Linking -/

/-- What is demanded for a schema that is visited is visited, too. -/
theorem concerns_visited {root start u : Json} {validateFormats : Bool} {location : String}
    (hu : Visited root start u) (hfine : ∀ f, .fault f ∉ (body validateFormats u location).demands) :
    ∀ d ∈ (body validateFormats u location).demands, d.Concerns root (Visited root start) := by
  intro d hd
  by_cases href : ∃ r, RefersTo u r
  · obtain ⟨r, hr⟩ := href
    rw [demands_of_refersTo validateFormats hr, List.mem_singleton] at hd
    subst hd
    exact fun target htarget => hu.target hr htarget
  · have hcovers := body_covers validateFormats (fun r hr => href ⟨r, hr⟩) location
    cases d with
    | function w location' => exact hu.part (hcovers.asks (hcovers.made_iff.mp hfine) hd)
    | reference r => exact absurd hd (hcovers.noReference r)
    | constant _ | fault _ => exact trivial

/-- Linking assembles a module. -/
theorem exists_of_link (dialect : Dialect) {root start : Json} {pointer : String} {entry : Nat} {l : Linkage}
    (h : link root dialect.formats pointer = .ok (entry, l)) (htarget : resolveLocal? root pointer = some start)
    (hlegible : ∀ members : Json.Members, Visited root start (.obj members) → members.get? "$ref" = none →
      Legible dialect members) :
    ∃ M : Assembly dialect, M.root = root ∧ M.linkage = l ∧ M.Checks entry start := by
  have hpointer (target : Json) (ht : resolveLocal? root pointer = some target) : Visited root start target := by
    obtain rfl := Option.some.inj (htarget.symm.trans ht)
    exact .start
  obtain ⟨origins, codes, hwired, hcodes, hentry, hvisited⟩ :=
    exists_origins_of_link (fun u hu location hfine => concerns_visited hu hfine) hpointer h
  obtain ⟨target, ht, hacceptable⟩ :=
    (source_succeeds_iff root dialect.formats pointer).mp (exists_source_iff.mpr ⟨entry, l, h⟩)
  obtain rfl := Option.some.inj (htarget.symm.trans ht)
  have hconstants : ∀ value ∈ l.constants, '\n' ∉ value.toList :=
    (links_of_linkReference h).forall_constants (fun u location value hd => body_within dialect.formats u location _ hd)
      (fun value hd => by simp at hd) (by simp)
  obtain ⟨target, ht, horigin⟩ := hwired.owned (Linkage.mem_of_lookup hentry)
  obtain rfl := Option.some.inj (htarget.symm.trans ht)
  exact ⟨⟨root, start, l, origins, codes, hwired, hcodes, hconstants, hvisited, fun u hu => (hacceptable u hu).1,
    hlegible⟩, rfl, rfl, pointer, horigin⟩

/-! ## Two modules -/

variable {M} {N : Assembly dialect}

/-- **Modules with the same text are in lockstep**: function by function they check schemas with the same verdicts.
First by the number of references that may be followed, then down the schema. -/
theorem verdict_iff (hcodes : M.codes = N.codes) (hconstants : M.linkage.constants = N.linkage.constants) :
    ∀ (n : Nat) (u : Json) {k : Nat} {u' : Json}, M.Checks k u → N.Checks k u' → ∀ v path,
      M.Verdict n u v path ↔ N.Verdict n u' v path := by
  have hother {f : Nat} {w : Json} (hf : M.Checks f w) : ∃ w', N.Checks f w' := N.exists_checks (hcodes ▸ hf.lt_length)
  intro n
  induction n using Nat.strong_induction_on with
  | _ n ih =>
  intro u
  induction u using Json.inside_induction with
  | _ u ihu =>
  intro k u' hk hk' v path
  -- both bodies are weighed by the verdicts of the second module
  obtain ⟨F, hF, hfits, haccepts⟩ := M.exists_function (n := n) hk (N.verdicts n) (N.verdictsBehind n)
    (fun f w hw hf v path => by
      obtain ⟨w', hf'⟩ := hother hf
      exact (verdicts_iff hf').trans (ihu w hw hf hf' v path).symm)
    (fun f v path ⟨t, hf⟩ => by
      obtain ⟨t', hf'⟩ := hother hf
      cases n with
      | zero => exact Iff.rfl
      | succ n =>
          have hsame := ih n (Nat.lt_succ_self n) t hf hf' v path
          exact (verdicts_iff hf').trans (hsame.symm.trans (verdicts_iff hf).symm))
  obtain ⟨F', hF', hfits', haccepts'⟩ := N.exists_function (n := n) hk' (N.verdicts n) (N.verdictsBehind n)
    (fun f w _ hf v path => verdicts_iff hf) fun f v path _ => Iff.rfl
  -- the same lines are the same form, weighed alike on both sides
  have hcalls : F.calls = F'.calls := by
    rw [hcodes, hF'] at hF
    exact (functionCode_injective (Option.some.inj hF)).symm
  obtain rfl : F = F' := Form.calls_injective hfits (hconstants ▸ hfits') hcalls
  exact (haccepts v path).trans (haccepts' v path).symm

/-- Modules that are written alike export functions with the same verdicts. -/
theorem verdict_iff_of_text {entry entry' : Nat}
    (htext : Layout.render "  " (moduleCalls entry M.linkage) = Layout.render "  " (moduleCalls entry' N.linkage))
    {u u' : Json} (hentry : M.Checks entry u) (hentry' : N.Checks entry' u') (n : Nat) (v : Json) (path : String) :
    M.Verdict n u v path ↔ N.Verdict n u' v path := by
  obtain ⟨hconstants, hcodes, rfl⟩ := moduleCalls_injective M.clearModule N.clearModule htext
  exact verdict_iff hcodes hconstants n u hentry hentry' v path

end Assembly

end DecoderForge.Standalone
