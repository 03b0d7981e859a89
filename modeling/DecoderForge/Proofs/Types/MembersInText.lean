import DecoderForge.Proofs.Layout.StringLiterals
import DecoderForge.Proofs.Layout.Words
import DecoderForge.Proofs.Types.Brackets

/-!
# DecoderForge — the members of an object type, read off its text

An object type is written with comments, with quotes around some of its names, and with types of several lines that
are indented anew at every level.  A reader that knows none of this takes the text without comments and blanks, cuts
it at semicolons, and reads the name, the mark and the type of every piece.

## The architecture

* **`key?`**, **`entry?`**, **`entries?`** — the reader.
* **`key?_keyText`** — a name is read as it was, whether or not it stands in quotes.
* **`Whole`**, **`whole_render`** — texts that a reader takes for one type, and types over such words.
* **`entries?_object`** — what is read off the text of an object type, however deep it stands.
-/

namespace DecoderForge.Types

open Layout

/-! ## The reader -/

/-- What is read of a member: its name in UTF-16, whether it may be missing, and its type without comments and
blanks. -/
inductive Entry where
  | named (name : List Nat) (isOptional : Bool) (type : List Char)
  /-- The member that stands for all others. -/
  | others (type : List Char)
deriving DecidableEq, Repr

/-- The string literal at the front of a text, and what follows it. -/
def literalOff (st : LexState) : List Char → Option (List Char × List Char)
  | [] => none
  | c :: rest =>
    (st.step c).bind fun r =>
      if r.1 = .code then some ([c], rest) else (literalOff r.1 rest).map fun off => (c :: off.1, off.2)

/-- The name at the front of a text, in quotes or not, and what follows it. -/
def key? (text : List Char) : Option (List Nat × List Char) :=
  match text with
  | [] => none
  | c :: _ =>
    if c = '\'' ∨ c = '"' then
      (literalOff .code text).bind fun off => (StringLiteral.value? off.1).map fun name => (name, off.2)
    else if isWordChar c then some (Text.utf16 (text.takeWhile isWordChar), text.dropWhile isWordChar)
    else none

/-- A piece between semicolons as a member. -/
def member? (piece : List Char) : Option Entry :=
  match Text.dropStart? "[k:string]:".toList piece with
  | some type => some (.others type)
  | none =>
    (key? piece).bind fun off =>
      match off.2 with
      | '?' :: ':' :: type => some (.named off.1 true type)
      | ':' :: type => some (.named off.1 false type)
      | _ => none

/-- Pieces as members, if all of them are. -/
def members? : List (List Char) → Option (List Entry)
  | [] => some []
  | piece :: more => (member? piece).bind fun entry => (members? more).map (entry :: ·)

/-- The members of an object type, off its text without comments and blanks. -/
def entries? : List Char → Option (List Entry)
  | '{' :: inside =>
    if inside.getLast? = some '}' then
      (pieces .code 0 inside.dropLast).bind fun ps => if ps.getLast? = some [] then members? ps.dropLast else none
    else none
  | _ => none

/-! ## Names -/

/-- A literal ends where its string does. -/
theorem literalOff_within {st st' : LexState} {a : List Char} (h : Within st a st') (rest : List Char) :
    literalOff st (a ++ rest) = (literalOff st' rest).map fun off => (a ++ off.1, off.2) := by
  induction h with
  | nil _ => simp
  | @cons st st₁ st₂ c text _ hstep hrest ih =>
      have hne : st₁ ≠ .code := by
        rintro rfl
        cases hrest with
        | nil h => exact absurd h (by decide)
        | cons h _ _ => exact absurd h (by decide)
      rw [List.cons_append, literalOff, hstep]
      simp only [Option.bind_some, if_neg hne, ih, Option.map_map]
      rfl

theorem literalOff_quoteChars (style : Style) (text rest : List Char) :
    literalOff .code (style.quoteChars text ++ rest) = some (style.quoteChars text, rest) := by
  unfold Style.quoteChars
  rw [quoteMark_eq]
  generalize (!style.singleQuote) = double
  obtain ⟨hopen, hclose⟩ := step_quote double
  have hend : literalOff (.quoted double) ([quoteOf double] ++ rest) = some ([quoteOf double], rest) := by
    rw [List.singleton_append, literalOff, hclose]
    rfl
  rw [List.cons_append, List.cons_append, List.append_assoc, literalOff, hopen]
  show (literalOff (.quoted double) _).map _ = _
  rw [literalOff_within (Within.escaped double text), hend]
  rfl

/-- The characters of a plain name. -/
theorem isWordChar_of_isPlainIdentifier {name : List Char} (h : isPlainIdentifier name = true) :
    ∃ c rest, name = c :: rest ∧ ∀ d ∈ name, isWordChar d = true := by
  cases name with
  | nil => exact absurd h (by decide)
  | cons c rest =>
      unfold isPlainIdentifier at h
      rw [Bool.and_eq_true, List.all_eq_true] at h
      refine ⟨c, rest, rfl, List.forall_mem_cons.mpr ⟨?_, h.2⟩⟩
      have hfirst := h.1
      simp only [Bool.or_eq_true] at hfirst
      simp only [isWordChar, Char.isAlphanum, Bool.or_eq_true]
      tauto

/-- **A name is read as it was**, whether or not it stands in quotes. -/
theorem key?_keyText (style : Style) (name : String) {rest : List Char}
    (hrest : ∀ c ∈ rest.head?, isWordChar c = false) :
    key? (keyText style name ++ rest) = some (Text.utf16 name.toList, rest) := by
  unfold keyText
  split
  · next h =>
    obtain ⟨c, more, hname, hword⟩ := isWordChar_of_isPlainIdentifier h
    have hc : isWordChar c = true := hword c (by rw [hname]; exact List.mem_cons_self)
    have hquote : ¬ (c = '\'' ∨ c = '"') := by
      rintro (rfl | rfl) <;> exact absurd hc (by decide)
    have htake : (name.toList ++ rest).takeWhile isWordChar = name.toList := Text.takeWhile_run hword hrest
    have hdrop : (name.toList ++ rest).dropWhile isWordChar = rest := by
      rw [List.dropWhile_append_of_pos hword]
      cases rest with
      | nil => rfl
      | cons d rest => exact List.dropWhile_cons_of_neg (by simp [hrest d rfl])
    rw [hname] at htake hdrop ⊢
    rw [List.cons_append] at htake hdrop ⊢
    simp only [key?, if_neg hquote, hc, if_true, htake, hdrop]
  · have hread := literalOff_quoteChars style name.toList rest
    have hvalue := StringLiteral.value?_quoteChars style name.toList
    have hmark : style.quoteMark = '\'' ∨ style.quoteMark = '"' := by
      unfold Style.quoteMark
      split
      · exact .inl rfl
      · exact .inr rfl
    unfold key?
    show (if style.quoteMark = '\'' ∨ style.quoteMark = '"' then _ else _) = _
    rw [if_pos hmark, hread]
    show (StringLiteral.value? _).map _ = _
    rw [hvalue]
    rfl

/-- No name begins with a bracket. -/
theorem head?_keyText (style : Style) (name : String) (rest : List Char) :
    (keyText style name ++ rest).head? ≠ some '[' := by
  unfold keyText
  split
  · next h =>
    obtain ⟨c, more, hname, hword⟩ := isWordChar_of_isPlainIdentifier h
    have hc : isWordChar c = true := hword c (by rw [hname]; exact List.mem_cons_self)
    rw [hname]
    intro heq
    obtain rfl := Option.some.inj heq
    exact absurd hc (by decide)
  · intro heq
    have hmark : style.quoteMark = '[' := Option.some.inj heq
    unfold Style.quoteMark at hmark
    split at hmark <;> exact absurd hmark (by decide)

/-! ## Members -/

/-- What stands behind a name. -/
def markCode (isOptional : Bool) (type : List Char) : List Char :=
  if isOptional then '?' :: ':' :: type else ':' :: type

/-- A member without comments and blanks. -/
def memberCode (style : Style) (head : MemberHead) (type : List Char) : List Char :=
  keyText style head.name ++ markCode head.isOptional type

/-- The member that stands for all others without blanks. -/
def othersCode (type : List Char) : List Char := "[k:string]:".toList ++ type

theorem member?_memberCode (style : Style) (head : MemberHead) (type : List Char) :
    member? (memberCode style head type) = some (.named (Text.utf16 head.name.toList) head.isOptional type) := by
  have hstart : ∀ {code : List Char}, code.head? ≠ some '[' → Text.dropStart? "[k:string]:".toList code = none := by
    intro code hcode
    cases code with
    | nil => rfl
    | cons c rest =>
        have hne : '[' ≠ c := fun h => hcode (by rw [← h]; rfl)
        exact (Text.dropStart?_cons '[' "k:string]:".toList c rest).trans (if_neg (by simpa using hne))
  have hmark : ∀ c ∈ (markCode head.isOptional type).head?, isWordChar c = false := by
    intro c hc
    cases hoptional : head.isOptional with
    | true =>
        rw [hoptional] at hc
        obtain rfl := Option.some.inj hc
        rfl
    | false =>
        rw [hoptional] at hc
        obtain rfl := Option.some.inj hc
        rfl
  unfold member? memberCode
  rw [hstart (head?_keyText style head.name _)]
  show (key? _).bind _ = _
  rw [key?_keyText style head.name hmark, Option.bind_some]
  cases head.isOptional with
  | true => rfl
  | false => rfl

theorem member?_othersCode (type : List Char) : member? (othersCode type) = some (.others type) := rfl

/-- A property name is left as it is. -/
theorem squeezes_keyText (style : Style) (name : String) : Squeezes (keyText style name) (keyText style name) := by
  unfold keyText
  split
  · next h =>
    have hplain := Squeezes.plain (plain_of_isPlainIdentifier h)
    obtain ⟨-, -, -, hword⟩ := isWordChar_of_isPlainIdentifier h
    have hkept : name.toList.filter (fun c => !Text.isBlank c) = name.toList := by
      refine List.filter_eq_self.mpr fun c hc => ?_
      cases hblank : Text.isBlank c with
      | false => rfl
      | true =>
          have hc := hword c hc
          rw [isWordChar_eq_false_of_blank hblank] at hc
          exact absurd hc (by simp)
    rwa [hkept] at hplain
  · exact squeezes_quoteChars style name.toList

theorem squeezes_memberText (style : Style) {head : MemberHead} (hdoc : Hidden .code (docText head.doc) .code)
    {type code : List Char} (h : Squeezes type code) :
    Squeezes (memberText style head type) (memberCode style head code ++ [';']) := by
  have hmark : Squeezes (if head.isOptional then ['?'] else []) (if head.isOptional then ['?'] else []) := by
    cases head.isOptional <;> exact ⟨⟨[], rfl⟩, rfl⟩
  have hcolon : Squeezes ": ".toList [':'] := ⟨⟨[], rfl⟩, rfl⟩
  have hend : Squeezes [';'] [';'] := ⟨⟨[], rfl⟩, rfl⟩
  have hall := (((((Squeezes.of_hidden hdoc).append (squeezes_keyText style head.name)).append hmark).append
    hcolon).append h).append hend
  have hcode : memberCode style head code ++ [';']
      = [] ++ keyText style head.name ++ (if head.isOptional then ['?'] else []) ++ [':'] ++ code ++ [';'] := by
    unfold memberCode markCode
    cases head.isOptional <;> simp
  rw [hcode]
  exact hall

theorem squeezes_indexText {type code : List Char} (h : Squeezes type code) :
    Squeezes (indexText type) (othersCode code ++ [';']) := by
  have hfront : Squeezes "[k: string]: ".toList "[k:string]:".toList := ⟨⟨_, rfl⟩, rfl⟩
  have hend : Squeezes [';'] [';'] := ⟨⟨[], rfl⟩, rfl⟩
  exact (hfront.append h).append hend

/-- Members between braces, without comments and blanks. -/
theorem squeezes_bracesText (style : Style) {texts codes : List (List Char)}
    (h : List.Forall₂ (fun text code => Squeezes text (code ++ [';'])) texts codes) :
    Squeezes (bracesText style.indentUnit texts) ('{' :: codes.flatMap (· ++ [';']) ++ ['}']) := by
  have hlines : Squeezes (texts.flatMap fun text => indentLines style.indentUnit text ++ ['\n'])
      (codes.flatMap (· ++ [';'])) := by
    induction h with
    | nil => exact ⟨⟨[], rfl⟩, rfl⟩
    | @cons text code texts codes hfirst _ ih =>
        have hnewline : Squeezes ['\n'] [] := ⟨⟨[], rfl⟩, rfl⟩
        have hline := (squeezes_indentLines style.blank_indentUnit hfirst).append hnewline
        rw [List.append_nil] at hline
        exact hline.append ih
  have hopen : Squeezes "\x7b\n".toList ['{'] := ⟨⟨_, rfl⟩, rfl⟩
  have hclose : Squeezes ['}'] ['}'] := ⟨⟨_, rfl⟩, rfl⟩
  unfold bracesText
  cases h with
  | nil => exact ⟨⟨_, rfl⟩, rfl⟩
  | cons _ _ => exact (hopen.append hlines).append hclose

/-! ## Whole texts -/

/-- Text that is taken for one type: it begins and ends in code, and no semicolon takes it apart. -/
def Whole (text : List Char) : Prop := ∃ code, Squeezes text code ∧ Unbroken code

theorem whole_iff {text : List Char} :
    Whole text ↔ Squeezes text (squeezed .code text) ∧ Unbroken (squeezed .code text) := by
  constructor
  · rintro ⟨code, hsqueezes, hunbroken⟩
    rw [hsqueezes.2]
    exact ⟨hsqueezes, hunbroken⟩
  · rintro ⟨hsqueezes, hunbroken⟩
    exact ⟨_, hsqueezes, hunbroken⟩

theorem Whole.append {a b : List Char} (ha : Whole a) (hb : Whole b) : Whole (a ++ b) := by
  obtain ⟨code, hsqueezes, hunbroken⟩ := ha
  obtain ⟨code', hsqueezes', hunbroken'⟩ := hb
  exact ⟨code ++ code', hsqueezes.append hsqueezes', hunbroken.append hunbroken'⟩

/-- Plain text without a semicolon. -/
theorem whole_of_plain {text : List Char} (h : ∀ c ∈ text, isPlain c = true) (hsemicolon : ';' ∉ text) :
    Whole text := by
  refine ⟨_, Squeezes.plain h, unbroken_of_plain (fun c hc => h c ?_) fun hc => hsemicolon ?_⟩
  · exact List.mem_of_mem_filter hc
  · exact List.mem_of_mem_filter hc

theorem whole_quoteChars (style : Style) (text : List Char) : Whole (style.quoteChars text) :=
  ⟨_, squeezes_quoteChars style text, unbroken_quoteChars style text⟩

/-- Between brackets. -/
theorem Whole.between {text : List Char} (h : Whole text) {o c : Char}
    (ho : LexState.code.step o = some (.code, [o])) (hopen : isOpener o = true)
    (hc : LexState.code.step c = some (.code, [c])) (hclose : isOpener c = false)
    (hkept : LexState.code.kept o = [o]) (hkept' : LexState.code.kept c = [c]) : Whole (o :: text ++ [c]) := by
  obtain ⟨code, hsqueezes, hunbroken⟩ := h
  exact ⟨o :: code ++ [c], ((Squeezes.sign ho hkept).append hsqueezes).append (Squeezes.sign hc hkept'),
    hunbroken.enclosed.between ho hopen hc hclose⟩

theorem Whole.joinWith {sep : List Char} (hsep : Whole sep) {texts : List (List Char)} (h : ∀ t ∈ texts, Whole t) :
    Whole (Text.joinWith sep texts) :=
  joinWith_of_append (whole_of_plain (by decide) (by decide)) Whole.append hsep h

/-! ## Object types -/

/-- The members of an object type without comments and blanks. -/
def memberCodes (style : Style) (members : List (MemberHead × TypeExpr)) (index : Option TypeExpr) :
    List (List Char) :=
  members.map (fun m => memberCode style m.1 (squeezed .code (m.2.render style)))
    ++ index.toList.map fun e => othersCode (squeezed .code (e.render style))

/-- The members of an object type as they are to be read. -/
def entriesOf (style : Style) (members : List (MemberHead × TypeExpr)) (index : Option TypeExpr) : List Entry :=
  members.map (fun m => .named (Text.utf16 m.1.name.toList) m.1.isOptional (squeezed .code (m.2.render style)))
    ++ index.toList.map fun e => .others (squeezed .code (e.render style))

theorem members?_map_append {α : Type} {f : α → List Char} {g : α → Entry} (h : ∀ x, member? (f x) = some (g x))
    (more : List (List Char)) :
    ∀ items : List α, members? (items.map f ++ more) = (members? more).map (items.map g ++ ·)
  | [] => by simp
  | x :: items => by
      rw [List.map_cons, List.cons_append, members?, h, Option.bind_some, members?_map_append h more items,
        Option.map_map]
      rfl

theorem members?_memberCodes (style : Style) (members : List (MemberHead × TypeExpr)) (index : Option TypeExpr) :
    members? (memberCodes style members index) = some (entriesOf style members index) := by
  have hothers : members? (index.toList.map fun e => othersCode (squeezed .code (e.render style)))
      = some (index.toList.map fun e => .others (squeezed .code (e.render style))) := by
    cases index with
    | none => rfl
    | some e => simp [members?, member?_othersCode]
  have hnamed : ∀ m : MemberHead × TypeExpr,
      member? (memberCode style m.1 (squeezed .code (m.2.render style)))
        = some (.named (Text.utf16 m.1.name.toList) m.1.isOptional (squeezed .code (m.2.render style))) := fun m =>
    member?_memberCode style m.1 _
  unfold memberCodes entriesOf
  rw [members?_map_append hnamed, hothers, Option.map_some]

section Object

variable {style : Style} {members : List (MemberHead × TypeExpr)} {index : Option TypeExpr}

theorem unbroken_keyText (style : Style) (name : String) : Unbroken (keyText style name) := by
  unfold keyText
  split
  · next h =>
    refine unbroken_of_plain (plain_of_isPlainIdentifier h) fun hmem => ?_
    obtain ⟨-, -, -, hword⟩ := isWordChar_of_isPlainIdentifier h
    exact absurd (hword _ hmem) (by decide)
  · exact unbroken_quoteChars style name.toList

theorem unbroken_memberCode (style : Style) (head : MemberHead) {type : List Char} (h : Unbroken type) :
    Unbroken (memberCode style head type) := by
  have hcolon : Unbroken [':'] := unbroken_plain (by decide) (by decide)
  have hmark : Unbroken ['?'] := unbroken_plain (by decide) (by decide)
  refine (unbroken_keyText style head.name).append ?_
  unfold markCode
  cases head.isOptional with
  | true => exact hmark.append (hcolon.append h)
  | false => exact hcolon.append h

theorem unbroken_othersCode {type : List Char} (h : Unbroken type) : Unbroken (othersCode type) := by
  have hname : Unbroken "k:string".toList := unbroken_of_plain (by decide) (by decide)
  have hcolon : Unbroken [':'] := unbroken_plain (by decide) (by decide)
  exact ((hname.enclosed.between rfl rfl rfl rfl).append hcolon).append h

variable (hdoc : ∀ m ∈ members, Hidden .code (docText m.1.doc) .code)
  (hmembers : ∀ m ∈ members, Whole (m.2.render style)) (hindex : ∀ e ∈ index, Whole (e.render style))

include hmembers hindex

theorem unbroken_memberCodes : ∀ code ∈ memberCodes style members index, Unbroken code := by
  intro code hcode
  rcases List.mem_append.mp hcode with hcode | hcode
  · obtain ⟨m, hm, rfl⟩ := List.mem_map.mp hcode
    exact unbroken_memberCode style m.1 (whole_iff.mp (hmembers m hm)).2
  · obtain ⟨e, he, rfl⟩ := List.mem_map.mp hcode
    exact unbroken_othersCode (whole_iff.mp (hindex e (Option.mem_toList.mp he))).2

include hdoc

/-- **An object type without comments and blanks.** -/
theorem squeezes_object : Squeezes ((TypeExpr.object members index).render style)
    ('{' :: (memberCodes style members index).flatMap (· ++ [';']) ++ ['}']) := by
  have hnamed : List.Forall₂ (fun text code => Squeezes text (code ++ [';']))
      (members.map fun m => memberText style m.1 (m.2.render style))
      (members.map fun m => memberCode style m.1 (squeezed .code (m.2.render style))) := by
    rw [List.forall₂_map_left_iff, List.forall₂_map_right_iff, List.forall₂_same]
    exact fun m hm => squeezes_memberText style (hdoc m hm) (whole_iff.mp (hmembers m hm)).1
  have hothers : List.Forall₂ (fun text code => Squeezes text (code ++ [';']))
      (TypeExpr.renderIndex style index)
      (index.toList.map fun e => othersCode (squeezed .code (e.render style))) := by
    cases index with
    | none => exact .nil
    | some e => exact .cons (squeezes_indexText (whole_iff.mp (hindex e rfl)).1) .nil
  rw [TypeExpr.render, renderMembers_eq_map]
  exact squeezes_bracesText style (List.rel_append hnamed hothers)

/-- An object type of whole types is one type. -/
theorem whole_object : Whole ((TypeExpr.object members index).render style) := by
  refine ⟨_, squeezes_object hdoc hmembers hindex, ?_⟩
  have hpiece : ∀ code ∈ memberCodes style members index, Enclosed (code ++ [';']) := fun code hcode =>
    (unbroken_memberCodes hmembers hindex code hcode).enclosed.append enclosed_semicolon
  exact (flatMap_of_append Unbroken.nil.enclosed Enclosed.append hpiece).between rfl rfl rfl rfl

/-- **The members that are read**, however deep an object type stands. -/
theorem entries?_object (depth : Nat) :
    entries? (squeezed .code
        ((indentLines style.indentUnit)^[depth] ((TypeExpr.object members index).render style)))
      = some (entriesOf style members index) := by
  have hdeep : Squeezes ((indentLines style.indentUnit)^[depth] ((TypeExpr.object members index).render style))
      ('{' :: (memberCodes style members index).flatMap (· ++ [';']) ++ ['}']) := by
    induction depth with
    | zero => exact squeezes_object hdoc hmembers hindex
    | succ depth ih =>
        rw [Function.iterate_succ_apply']
        exact squeezes_indentLines style.blank_indentUnit ih
  rw [hdeep.2, List.cons_append, entries?, List.getLast?_concat, if_pos rfl, List.dropLast_concat,
    pieces_flatMap (unbroken_memberCodes hmembers hindex)]
  simp [members?_memberCodes]

end Object

/-! ## Trees -/

/-- Members whose comment is one up to its end. -/
def CommentHead (head : MemberHead) : Prop := Hidden .code (docText head.doc) .code

/-- **Types over whole words are whole.** -/
theorem whole_render (style : Style) {e : TypeExpr} (h : Built Whole CommentHead e) : Whole (e.render style) := by
  have hempty : Whole [] := whole_of_plain (by decide) (by decide)
  have hpair : Whole ('[' :: [] ++ [']']) := hempty.between rfl rfl rfl rfl rfl rfl
  induction h with
  | word h => exact h
  | join _ _ ih =>
      rw [TypeExpr.render, renderAll_eq_map]
      exact Whole.joinWith (whole_of_plain (by decide) (by decide)) (List.forall_mem_map.mpr ih)
  | meet _ _ ih =>
      rw [TypeExpr.render, renderAll_eq_map]
      exact Whole.joinWith (whole_of_plain (by decide) (by decide)) (List.forall_mem_map.mpr ih)
  | paren _ ih =>
      rw [TypeExpr.render]
      exact ih.between rfl rfl rfl rfl rfl rfl
  | array _ ih =>
      rw [TypeExpr.render]
      exact ih.append hpair
  | @tuple items rest _ _ ih ihrest =>
      have hrest : ∀ t ∈ TypeExpr.renderRest style rest, Whole t := by
        cases rest with
        | none => simp [TypeExpr.renderRest]
        | some e =>
            refine List.forall_mem_singleton.mpr ?_
            exact ((whole_of_plain (by decide) (by decide)).append (ihrest e rfl)).append hpair
      rw [TypeExpr.render, renderAll_eq_map]
      have hall : Whole (Text.joinWith ", ".toList
          (items.map (TypeExpr.render style) ++ TypeExpr.renderRest style rest)) :=
        Whole.joinWith (whole_of_plain (by decide) (by decide)) fun t ht =>
          (List.mem_append.mp ht).elim (List.forall_mem_map.mpr ih t) (hrest t)
      exact hall.between rfl rfl rfl rfl rfl rfl
  | object hheads _ _ ih ihindex => exact whole_object hheads ih ihindex

end DecoderForge.Types
