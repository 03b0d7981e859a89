import DecoderForge.Proofs.Json.Printed
import DecoderForge.Proofs.Standalone.Checks
import DecoderForge.Standalone.Module

/-!
# DecoderForge — a validator module is read off its text

Every line of a module shows which call wrote it, and blank lines part the constants and the functions.  So the
text of a module determines its constants, the code of its functions, and the function that it exports.

## The architecture

* **`clear_opens`**, **`clear_line`** — lines that show their calls.
* **`Check.allClear`** — the lines of every check do.
* **`ClearModule`** — modules whose lines do.
* **`moduleCalls_injective`** — modules with the same text are the same.
-/

namespace DecoderForge.Standalone

open Layout (Call render IsLine)

/-! ## Clear lines -/

theorem newline_notMem_numeral (n : Nat) : '\n' ∉ Nat.toDigits 10 n := by
  intro h
  have hdigit := Text.isDigit_of_mem_numeral (n := n) '\n' (by simpa using h)
  exact absurd hdigit (by decide)

/-- The first character of a line that closes nothing. -/
def PlainFirst (text : List Char) : Prop := text ≠ [] ∧ ∀ c ∈ text.head?, c ≠ ' ' ∧ c ≠ '\x7d'

theorem clear_of {c : Call} (hown : c.isOwn = true) (hfirst : PlainFirst c.text) (hsingle : '\n' ∉ c.text)
    (hlevels : c.levels = (false, Layout.opensLevel c.text)) : c.IsClear := by
  have hcloses : Layout.closesLevel c.text = false := by
    rw [Layout.closesLevel, beq_eq_false_iff_ne]
    exact fun h => (hfirst.2 _ h).2 rfl
  refine Or.inr ⟨hown, ⟨hfirst.1, fun h => (hfirst.2 _ h).1 rfl, hsingle⟩, ?_⟩
  rw [hlevels, hcloses]

/-- A line that opens a block. -/
theorem clear_opens {head : String} (hfirst : PlainFirst head.toList) (hsingle : '\n' ∉ head.toList) :
    (opens head).IsClear := by
  have htext : (opens head).text = head.toList ++ [' ', '\x7b'] := by simp [opens, Call.text]
  refine clear_of rfl ?_ ?_ ?_
  · rw [htext]
    obtain ⟨c, rest, hhead⟩ := List.exists_cons_of_ne_nil hfirst.1
    have hc := hfirst.2
    rw [hhead] at hc ⊢
    exact ⟨by simp, hc⟩
  · rw [htext]
    simp [hsingle]
  · rw [htext]
    simp [Layout.opensLevel, opens, Call.levels]

/-- A line that ends in a semicolon. -/
theorem clear_line {text : String} (hfirst : PlainFirst text.toList) (hsingle : '\n' ∉ text.toList)
    (hlast : text.toList.getLast? = some ';') : (Call.line text).IsClear :=
  clear_of rfl hfirst hsingle (by simp [Call.levels, Layout.opensLevel, Call.text, hlast])

/-- A line of fixed text. -/
def isOwnLine (text : List Char) : Bool :=
  (text.head?.any fun c => c != ' ' && c != '\x7d') && text.all (· != '\n') && text.getLast? == some ';'

theorem clear_own {text : String} {chars : List Char} (htext : text = String.ofList chars)
    (h : isOwnLine chars = true) : (Call.line text).IsClear := by
  have hchars : text.toList = chars := by rw [htext, String.toList_ofList]
  simp only [isOwnLine, Bool.and_eq_true, Option.any_eq_true, bne_iff_ne, List.all_eq_true, beq_iff_eq] at h
  obtain ⟨⟨⟨c, hc, hfirst⟩, hsingle⟩, hlast⟩ := h
  rw [← hchars] at hc hsingle hlast
  refine clear_line ⟨?_, fun d hd => Option.mem_unique hc hd ▸ hfirst⟩ (fun hmem => hsingle _ hmem rfl) hlast
  rintro hnil
  rw [hnil] at hc
  exact absurd hc (by simp)

theorem clear_closes : closes.IsClear := Or.inr ⟨rfl, ⟨by decide, by decide, by decide⟩, by decide⟩

theorem clear_reopening : (Call.reopening "\x7d else \x7b").IsClear :=
  Or.inr ⟨rfl, ⟨by decide, by decide, by decide⟩, by decide⟩

/-- Calls that show themselves, without a blank line. -/
def AllClear (calls : List Call) : Prop := ∀ c ∈ calls, c.IsClear ∧ c ≠ .blank

namespace AllClear

theorem nil : AllClear [] := by simp [AllClear]

theorem cons {c : Call} {calls : List Call} (hc : c.IsClear) (hne : c ≠ .blank) (h : AllClear calls) :
    AllClear (c :: calls) := List.forall_mem_cons.mpr ⟨⟨hc, hne⟩, h⟩

theorem append {a b : List Call} (ha : AllClear a) (hb : AllClear b) : AllClear (a ++ b) :=
  List.forall_mem_append.mpr ⟨ha, hb⟩

theorem flatMap {α : Type} {f : α → List Call} {xs : List α} (h : ∀ x ∈ xs, AllClear (f x)) :
    AllClear (xs.flatMap f) := by
  intro c hc
  obtain ⟨x, hx, hcx⟩ := List.mem_flatMap.mp hc
  exact h x hx c hcx

theorem line {text : String} (hfirst : PlainFirst text.toList) (hsingle : '\n' ∉ text.toList)
    (hlast : text.toList.getLast? = some ';') : AllClear [.line text] :=
  .cons (clear_line hfirst hsingle hlast) (by simp) .nil

theorem own {text : String} {chars : List Char} (htext : text = String.ofList chars)
    (h : isOwnLine chars = true) : AllClear [.line text] := .cons (clear_own htext h) (by simp) .nil

/-- A block of clear calls. -/
theorem block {head : String} {calls : List Call} (hfirst : PlainFirst head.toList) (hsingle : '\n' ∉ head.toList)
    (h : AllClear calls) : AllClear (opens head :: calls ++ [closes]) :=
  (AllClear.cons (clear_opens hfirst hsingle) (by simp [opens]) h).append
    (.cons clear_closes (by simp [closes]) .nil)

end AllClear

theorem newline_notMem_stringLiteral (s : String) : '\n' ∉ (stringLiteral s).toList := Text.newline_notMem_quote s

theorem allClear_failLines (message : String) : AllClear (failLines message) :=
  .cons (clear_line (by simp [PlainFirst]) (by simp [newline_notMem_stringLiteral]) (by simp [List.getLast?_cons]))
    (by simp) (.own rfl rfl)

theorem allClear_failWhen {condition : String} (h : '\n' ∉ condition.toList) (message : String) :
    AllClear (failWhen condition message) :=
  .block (by simp [PlainFirst]) (by simp [h]) (allClear_failLines message)

theorem allClear_invalidUnless {call : String} (h : '\n' ∉ call.toList) : AllClear [invalidUnless call] :=
  .line (by simp [PlainFirst]) (by simp [h]) (by simp [List.getLast?_cons])

/-! ## Checks -/

theorem newline_notMem_typeCondition (name : String) : '\n' ∉ (typeCondition name).toList := by
  unfold typeCondition
  split <;> simp

theorem newline_notMem_number (n : Json.Number) : '\n' ∉ n.toText.toList := Json.newline_notMem_compact (.num n)

theorem newline_notMem_propertySegment (name : String) : '\n' ∉ (propertySegment name).toList := by
  unfold propertySegment
  split <;> exact newline_notMem_stringLiteral _

theorem allClear_patterns (p : PatternCheck) : AllClear p.calls :=
  .block (by simp [PlainFirst]) (by simp [constantName, newline_notMem_numeral])
    (.cons (clear_own rfl rfl) (by simp)
      (allClear_invalidUnless (by simp [functionName, newline_notMem_numeral])))

theorem allClear_others (others : Others) : AllClear others.calls := by
  cases others with
  | allowed => exact .nil
  | forbidden c known =>
      exact .block (by simp [PlainFirst]) (by simp [constantName, newline_notMem_numeral]) (allClear_failLines _)
  | checked c known f =>
      exact .block (by simp [PlainFirst]) (by simp [constantName, newline_notMem_numeral])
        (allClear_invalidUnless (by simp [functionName, newline_notMem_numeral]))

theorem newline_notMem_selfCall {f : Nat} {errors : String} (h : '\n' ∉ errors.toList) :
    '\n' ∉ (selfCall f errors).toList := by
  simp [selfCall, functionName, newline_notMem_numeral, h]

theorem newline_notMem_itemCall {f : Nat} {index path : String} (hindex : '\n' ∉ index.toList)
    (hpath : '\n' ∉ path.toList) : '\n' ∉ (itemCall f index path).toList := by
  simp [itemCall, functionName, newline_notMem_numeral, hindex, hpath]

theorem allClear_names (names : Option Nat) : AllClear (nameCalls names) := by
  cases names with
  | none => exact .nil
  | some f => exact allClear_failWhen (by simp [functionName, newline_notMem_numeral]) _

theorem allClear_branch (branch : Option Nat) : AllClear (branchCalls branch) := by
  cases branch with
  | none => exact .nil
  | some f => exact allClear_invalidUnless (newline_notMem_selfCall (by decide))

/-- **The lines of a check show themselves.** -/
theorem Check.allClear (a : Check) : AllClear a.calls := by
  cases a with
  | enter guard =>
      refine .cons ?_ (by simp) .nil
      have hopens (head : String) (h : PlainFirst head.toList) (h' : '\n' ∉ head.toList) :
          (Call.opening (head ++ " \x7b")).IsClear := clear_opens h h'
      cases guard with
      | number => exact hopens "if (typeof data === \"number\")" (by simp [PlainFirst]) (by simp)
      | string => exact hopens "if (typeof data === \"string\")" (by simp [PlainFirst]) (by simp)
      | array => exact hopens "if (Array.isArray(data))" (by simp [PlainFirst]) (by simp)
      | object => exact hopens "if (isObject(data))" (by simp [PlainFirst]) (by simp)
  | leave => exact .cons clear_closes (by simp [closes]) .nil
  | types names =>
      refine allClear_failWhen ?_ _
      have htexts : ∀ t ∈ (names.map TypeName.word).map typeCondition, '\n' ∉ t.toList := by
        intro t ht
        obtain ⟨name, -, rfl⟩ := List.mem_map.mp ht
        exact newline_notMem_typeCondition name
      have hconditions := Json.newline_notMem_intercalate (by decide : '\n' ∉ " || ".toList) htexts
      rw [String.toList_append, String.toList_append]
      exact Json.newline_notMem_append (Json.newline_notMem_append (by decide) hconditions) (by decide)
  | enum c v | const c v | pattern c text =>
      exact allClear_failWhen (by simp [constantName, newline_notMem_numeral]) _
  | limit upper exclusive n =>
      cases upper <;> cases exclusive <;> exact allClear_failWhen (by simp [newline_notMem_number]) _
  | multiple n => exact allClear_failWhen (by simp [newline_notMem_number]) _
  | measure => exact .own rfl rfl
  | length upper n => cases upper <;> exact allClear_failWhen (by simp [newline_notMem_numeral]) _
  | item i f =>
      refine .line (by simp [PlainFirst]) ?_ (by simp [List.getLast?_cons])
      simp [itemCall, functionName, newline_notMem_numeral]
  | itemsFrom start f =>
      exact .block (by simp [PlainFirst]) (by simp [newline_notMem_numeral])
        (allClear_invalidUnless (newline_notMem_itemCall (by decide) (by decide)))
  | count of upper n =>
      cases of <;> cases upper <;> exact allClear_failWhen (by simp [Counted.size, newline_notMem_numeral]) _
  | contains f => exact allClear_failWhen (by simp [functionName, newline_notMem_numeral]) _
  | unique => exact allClear_failWhen (by decide) _
  | required name | dependent other name =>
      exact allClear_failWhen (by simp [newline_notMem_stringLiteral]) _
  | property name f =>
      refine .line (by simp [PlainFirst]) ?_ (by simp [List.getLast?_cons])
      simp [functionName, newline_notMem_numeral, newline_notMem_stringLiteral, newline_notMem_propertySegment]
  | loop names patterns others =>
      refine .cons (clear_opens (by simp [PlainFirst]) (by simp)) (by simp [opens]) ?_
      refine .cons (clear_own rfl rfl) (by simp) ?_
      refine (((?_ : AllClear _).append (.flatMap fun p _ => allClear_patterns p)).append
        (allClear_others others)).append (.cons clear_closes (by simp [closes]) .nil)
      exact (allClear_names names).append (.own rfl rfl)
  | dependents name =>
      exact .cons (clear_opens (by simp [PlainFirst]) (by simp [newline_notMem_stringLiteral])) (by simp [opens]) .nil
  | dependentSchema name f =>
      refine .line (by simp [PlainFirst]) ?_ (by simp [List.getLast?_cons])
      simp [functionName, newline_notMem_numeral, newline_notMem_stringLiteral]
  | all f => exact allClear_invalidUnless (newline_notMem_selfCall (by decide))
  | any fs =>
      have htexts : ∀ t ∈ fs.map fun f => selfCall f "anyErrors", '\n' ∉ t.toList := by
        intro t ht
        obtain ⟨f, -, rfl⟩ := List.mem_map.mp ht
        exact newline_notMem_selfCall (by decide)
      have halternatives := Json.newline_notMem_intercalate (by decide : '\n' ∉ " || ".toList) htexts
      refine .cons (clear_own rfl rfl) (by simp) (.block (by simp [PlainFirst]) ?_
        (.cons (clear_own rfl rfl) (by simp) (allClear_failLines _)))
      rw [String.toList_append, String.toList_append]
      exact Json.newline_notMem_append (Json.newline_notMem_append (by decide) halternatives) (by decide)
  | one fs =>
      have hlines : AllClear (fs.map fun f => .line ("if (" ++ selfCall f "oneErrors" ++ ") matches++;")) := by
        intro c hc
        obtain ⟨f, -, rfl⟩ := List.mem_map.mp hc
        exact ⟨clear_line (by simp [PlainFirst]) (by simp [newline_notMem_selfCall]) (by simp [List.getLast?_cons]),
          by simp⟩
      refine .cons (clear_own rfl rfl) (by simp) ?_
      refine .cons (clear_own rfl rfl) (by simp) ?_
      have hblock : AllClear (opens "if (matches !== 1)"
          :: (.line "if (matches === 0) Array.prototype.push.apply(errors, oneErrors);"
            :: failLines "should match exactly one schema in oneOf") ++ [closes]) :=
        .block (by simp [PlainFirst]) (by simp)
          (.cons (clear_own rfl rfl) (by simp) (allClear_failLines _))
      simpa [calls] using hlines.append hblock
  | not f => exact allClear_failWhen (newline_notMem_selfCall (by decide)) _
  | choose c yes no =>
      refine .cons (clear_opens (by simp [PlainFirst]) (by simp [newline_notMem_selfCall])) (by simp [opens]) ?_
      exact (((allClear_branch yes).append (.cons clear_reopening (by simp) .nil)).append (allClear_branch no)).append
        (.cons clear_closes (by simp [closes]) .nil)

/-! ## Blocks -/

variable {r r' : List Call}

/-- Calls up to a blank line are found again. -/
theorem block_append_inj {a b : List Call} (ha : AllClear a) (hb : AllClear b)
    (h : a ++ .blank :: r = b ++ .blank :: r') : a = b ∧ r = r' := by
  have hrow {a : List Call} (ha : AllClear a) : ∀ c ∈ a, (c != .blank) = true :=
    fun c hc => bne_iff_ne.mpr (ha c hc).2
  obtain ⟨hab, hr⟩ := Text.run_append_inj (hrow ha) (hrow hb) (by simp) (by simp) h
  exact ⟨hab, (List.cons.inj hr).2⟩

theorem constantCalls_append_inj : ∀ (n : Nat) {values values' : List String},
    constantCalls n values ++ .blank :: r = constantCalls n values' ++ .blank :: r' → values = values' ∧ r = r'
  | _, [], [], h => ⟨rfl, (List.cons.inj h).2⟩
  | _, [], _ :: _, h => by simp [constantCalls] at h
  | _, _ :: _, [], h => by simp [constantCalls] at h
  | n, value :: values, value' :: values', h => by
      obtain ⟨hline, hrest⟩ := List.cons.inj h
      obtain rfl : value = value' := by simpa using hline
      obtain ⟨rfl, hr⟩ := constantCalls_append_inj (n + 1) hrest
      exact ⟨rfl, hr⟩

/-- The constants of a module, behind a blank line if there are any. -/
def constantBlock (values : List String) : List Call :=
  if values.isEmpty then [] else .blank :: constantCalls 0 values

theorem constantBlock_append_inj {values values' : List String} {head head' : String}
    (h : constantBlock values ++ .blank :: opens head :: r = constantBlock values' ++ .blank :: opens head' :: r') :
    values = values' ∧ opens head :: r = opens head' :: r' := by
  cases values with
  | nil => cases values' with
    | nil => exact ⟨rfl, (List.cons.inj h).2⟩
    | cons value' rest' => simp [constantBlock, constantCalls, opens] at h
  | cons value rest => cases values' with
    | nil => simp [constantBlock, constantCalls, opens] at h
    | cons value' rest' => exact constantCalls_append_inj 0 (List.cons.inj h).2

/-! ## Functions -/

/-- Functions whose lines show themselves. -/
def ClearFunctions (codes : List (List Call)) : Prop :=
  ∀ code ∈ codes, ∃ n lines, code = functionCode n lines ∧ AllClear lines

theorem allClear_functionCode {n : Nat} {lines : List Call} (h : AllClear lines) : AllClear (functionCode n lines) :=
  .block (by simp [PlainFirst]) (by simp [functionName, newline_notMem_numeral]) h

/-- The functions of a module, each behind a blank line. -/
def functionBlocks (codes : List (List Call)) : List Call := codes.flatMap fun code => .blank :: code

/-- The exported function. -/
def entryBlock (entry : Nat) : List Call :=
  [opens "function validate(data)", .line "var errors = [];",
    .line ("var valid = " ++ functionName entry ++ "(data, \"\", errors);"),
    .line "validate.errors = valid ? null : errors;", .line "return valid;", closes]

def exportBlock : List Call := [.line "module.exports = validate;", .line "module.exports.default = validate;"]

theorem entryCalls_eq (entry : Nat) : entryCalls entry = .blank :: entryBlock entry ++ .blank :: exportBlock := rfl

theorem allClear_entryBlock (entry : Nat) : AllClear (entryBlock entry) := by
  have hlines : AllClear [.line "var errors = [];",
      .line ("var valid = " ++ functionName entry ++ "(data, \"\", errors);"),
      .line "validate.errors = valid ? null : errors;", .line "return valid;"] := by
    refine .cons (clear_own rfl rfl) (by simp) ?_
    refine .cons (clear_line (by simp [PlainFirst]) (by simp [functionName, newline_notMem_numeral])
      (by simp [List.getLast?_cons])) (by simp) ?_
    refine .cons (clear_own rfl rfl) (by simp) ?_
    exact .own rfl rfl
  exact .block (by simp [PlainFirst]) (by simp) hlines

theorem allClear_exportBlock : AllClear exportBlock :=
  .cons (clear_own rfl rfl) (by simp)
    (.own rfl rfl)

theorem entryBlock_injective {entry entry' : Nat} (h : entryBlock entry = entryBlock entry') : entry = entry' := by
  have hname : functionName entry = functionName entry' := by simpa [entryBlock] using h
  exact functionName_injective hname

/-- What follows the constants begins with a blank line and a function. -/
theorem exists_functionBlocks {codes : List (List Call)} (h : ClearFunctions codes) (entry : Nat) :
    ∃ head rest, functionBlocks codes ++ entryCalls entry = .blank :: opens head :: rest := by
  cases codes with
  | nil => exact ⟨_, _, rfl⟩
  | cons code rest =>
      obtain ⟨n, lines, rfl, -⟩ := h code List.mem_cons_self
      exact ⟨_, _, rfl⟩

/-- An exported function is no function with more functions behind it. -/
theorem entryCalls_ne_functionBlocks {entry entry' n : Nat} {lines : List Call} {codes : List (List Call)}
    (hlines : AllClear lines) (hcodes : ClearFunctions codes) :
    entryCalls entry ≠ functionBlocks (functionCode n lines :: codes) ++ entryCalls entry' := by
  intro h
  obtain ⟨head, rest, hrest⟩ := exists_functionBlocks hcodes entry'
  rw [functionBlocks, List.flatMap_cons, List.append_assoc, ← functionBlocks, hrest, entryCalls_eq] at h
  obtain ⟨-, hexports⟩ :=
    block_append_inj (allClear_entryBlock entry) (allClear_functionCode hlines) (List.cons.inj h).2
  simp [exportBlock, opens] at hexports

theorem functionBlocks_inj {entry entry' : Nat} : ∀ {codes codes' : List (List Call)}, ClearFunctions codes →
    ClearFunctions codes' → functionBlocks codes ++ entryCalls entry = functionBlocks codes' ++ entryCalls entry' →
      codes = codes' ∧ entry = entry'
  | [], [], _, _, h => by
      have hblocks := (List.cons.inj h).2
      exact ⟨rfl, entryBlock_injective
        (block_append_inj (allClear_entryBlock entry) (allClear_entryBlock entry') hblocks).1⟩
  | [], code' :: codes', _, h', h => by
      obtain ⟨⟨n, lines, rfl, hlines⟩, hcodes⟩ := List.forall_mem_cons.mp h'
      exact absurd h (entryCalls_ne_functionBlocks hlines hcodes)
  | code :: codes, [], hc, _, h => by
      obtain ⟨⟨n, lines, rfl, hlines⟩, hcodes⟩ := List.forall_mem_cons.mp hc
      exact absurd h.symm (entryCalls_ne_functionBlocks hlines hcodes)
  | code :: codes, code' :: codes', hc, hc', h => by
      obtain ⟨⟨n, lines, rfl, hlines⟩, hcodes⟩ := List.forall_mem_cons.mp hc
      obtain ⟨⟨n', lines', rfl, hlines'⟩, hcodes'⟩ := List.forall_mem_cons.mp hc'
      obtain ⟨head, rest, hrest⟩ := exists_functionBlocks hcodes entry
      obtain ⟨head', rest', hrest'⟩ := exists_functionBlocks hcodes' entry'
      have hblocks := h
      rw [functionBlocks, functionBlocks, List.flatMap_cons, List.flatMap_cons, List.append_assoc, List.append_assoc,
        ← functionBlocks, ← functionBlocks, hrest, hrest'] at hblocks
      obtain ⟨hcode, hmore⟩ :=
        block_append_inj (allClear_functionCode hlines) (allClear_functionCode hlines') (List.cons.inj hblocks).2
      obtain ⟨rfl, hentry⟩ := functionBlocks_inj hcodes hcodes' (by rw [hrest, hrest', hmore])
      exact ⟨by rw [hcode], hentry⟩

/-! ## Modules -/

/-- A module with its functions, all of whose lines show themselves. -/
structure ClearModule (l : Linkage) (codes : List (List Call)) : Prop where
  written : l.functions = codes.map some
  functions : ClearFunctions codes
  constants : ∀ value ∈ l.constants, '\n' ∉ value.toList

/-- What every module begins with. -/
def frontCalls : List Call := [.line "/* eslint-disable */", .line "\"use strict\";", .blank] ++ helperCalls

/-- What follows. -/
def ownCalls (entry : Nat) (constants : List String) (codes : List (List Call)) : List Call :=
  constantBlock constants ++ (functionBlocks codes ++ entryCalls entry)

theorem moduleCalls_eq {l : Linkage} {codes : List (List Call)} (h : l.functions = codes.map some) (entry : Nat) :
    moduleCalls entry l = frontCalls ++ ownCalls entry l.constants codes := by
  unfold moduleCalls
  rw [h, List.flatMap_map]
  simp only [ownCalls, List.append_assoc]
  rfl

theorem clear_constantCalls : ∀ (n : Nat) {values : List String}, (∀ value ∈ values, '\n' ∉ value.toList) →
    ∀ c ∈ constantCalls n values, c.IsClear
  | _, [], _ => by simp [constantCalls]
  | n, value :: rest, h => by
      obtain ⟨hvalue, hrest⟩ := List.forall_mem_cons.mp h
      refine List.forall_mem_cons.mpr ⟨clear_line (by simp [PlainFirst]) ?_ (by simp [List.getLast?_cons]),
        clear_constantCalls (n + 1) hrest⟩
      simp [constantName, newline_notMem_numeral, hvalue]

theorem ClearModule.clear {l : Linkage} {codes : List (List Call)} (h : ClearModule l codes) (entry : Nat) :
    ∀ c ∈ ownCalls entry l.constants codes, c.IsClear := by
  have hblank : Call.IsClear .blank := Or.inl rfl
  simp only [ownCalls, List.forall_mem_append]
  refine ⟨?_, ?_, ?_⟩
  · unfold constantBlock
    split
    · simp
    · exact List.forall_mem_cons.mpr ⟨hblank, clear_constantCalls 0 h.constants⟩
  · intro c hc
    obtain ⟨code, hcode, hmem⟩ := List.mem_flatMap.mp hc
    obtain ⟨n, lines, rfl, hlines⟩ := h.functions code hcode
    rcases List.mem_cons.mp hmem with rfl | hmem
    · exact hblank
    · exact (allClear_functionCode hlines c hmem).1
  · rw [entryCalls_eq]
    refine List.forall_mem_append.mpr
      ⟨List.forall_mem_cons.mpr ⟨hblank, fun c hc => (allClear_entryBlock entry c hc).1⟩,
        List.forall_mem_cons.mpr ⟨hblank, fun c hc => (allClear_exportBlock c hc).1⟩⟩

/-- **A module is read off its text**: its constants, the code of its functions, and the function it exports. -/
theorem moduleCalls_injective {l l' : Linkage} {codes codes' : List (List Call)} (h : ClearModule l codes)
    (h' : ClearModule l' codes') {entry entry' : Nat}
    (htext : render "  " (moduleCalls entry l) = render "  " (moduleCalls entry' l')) :
    l.constants = l'.constants ∧ codes = codes' ∧ entry = entry' := by
  have hfront : ∀ c ∈ frontCalls, c.isOwn = true := by decide
  rw [moduleCalls_eq h.written, moduleCalls_eq h'.written] at htext
  have hcalls := Layout.render_append_injective hfront (h.clear entry) (h'.clear entry') htext
  obtain ⟨head, rest, hrest⟩ := exists_functionBlocks h.functions entry
  obtain ⟨head', rest', hrest'⟩ := exists_functionBlocks h'.functions entry'
  rw [ownCalls, ownCalls, hrest, hrest'] at hcalls
  obtain ⟨hconstants, hfunctions⟩ := constantBlock_append_inj hcalls
  obtain ⟨hcodes, hentry⟩ := functionBlocks_inj h.functions h'.functions (by rw [hrest, hrest', hfunctions])
  exact ⟨hconstants, hcodes, hentry⟩

theorem functionCode_injective {n : Nat} {lines lines' : List Call}
    (h : functionCode n lines = functionCode n lines') : lines = lines' :=
  List.append_cancel_right (List.cons.inj h).2

end DecoderForge.Standalone
