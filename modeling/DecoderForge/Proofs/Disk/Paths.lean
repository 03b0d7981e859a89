import DecoderForge.Disk.Basic
import DecoderForge.Proofs.Schema.Reference

/-!
# DecoderForge — where paths lead

A path is followed one component at a time, from folder to folder.  Whether it can be followed depends on
the disk; the places it passes depend on the path alone.

## The architecture

* **`Disk.getLast?_way_of_locate`** — a path leads to the end of its way.
* **`Disk.way_parentPath?`** — the way to a path begins with the way to its parent.
* **`Disk.follow`** — where the steps of a path lead, and **`Disk.follow_of_locate`** — its place is there.
* **`Disk.locate_join`** — the place of a file in a folder.
-/

namespace DecoderForge

namespace Disk

/-! ## The way of a path -/

theorem passed_of_prefix {segments segments' : List (List Char)} (h : segments' <+: segments) :
    ∀ at' : Location, passed at' segments' ⊆ passed at' segments := by
  induction segments' generalizing segments with
  | nil =>
      intro at' l hl
      rw [passed, List.mem_singleton] at hl
      subst hl
      cases segments with
      | nil => exact List.mem_singleton_self _
      | cons s rest => exact List.mem_cons_self
  | cons s rest ih =>
      obtain ⟨tail, rfl⟩ := h
      intro at'
      exact List.cons_subset_cons _ (ih ⟨tail, rfl⟩ _)

/-- Where a step leads. -/
theorem step_eq_ok {d : Disk} {at' next : Location} {s : List Char} (h : d.step at' s = .ok next)
    (hs : s.isEmpty = false) :
    next = if s.isEmpty || s == ['.'] then at'
      else if s == ['.', '.'] then at'.dropLast else at' ++ [String.ofList s] := by
  unfold step at h
  split at h
  · exact absurd h (by simp)
  · exact absurd h (by simp)
  · simp only [hs, Bool.false_or]
    split at h
    · next hdot => rw [if_pos hdot, Except.ok.inj h]
    · next hdot =>
      rw [if_neg hdot]
      split at h
      · next hup => rw [if_pos hup, Except.ok.inj h]
      · next hup => rw [if_neg hup, Except.ok.inj h]

/-- Steps lead to the last place that is passed. -/
theorem getLast?_passed_of_walk {d : Disk} {l : Location} :
    ∀ {segments : List (List Char)} {at' : Location},
      d.walk at' (segments.filter fun s => !s.isEmpty) = .ok l →
        (passed at' segments).getLast? = some l
  | [], at', h => by
      obtain rfl := Except.ok.inj h
      rfl
  | s :: rest, at', h => by
      suffices hrest : (passed (if s.isEmpty || s == ['.'] then at'
          else if s == ['.', '.'] then at'.dropLast else at' ++ [String.ofList s]) rest).getLast?
            = some l by
        rw [passed, List.getLast?_cons, hrest]
        rfl
      by_cases hempty : s.isEmpty = true
      · rw [List.filter_cons_of_neg (by simp [hempty])] at h
        simp only [hempty, Bool.true_or, if_true]
        exact getLast?_passed_of_walk h
      · rw [List.filter_cons_of_pos (by simpa using hempty), walk] at h
        cases hstep : d.step at' s with
        | error f =>
            rw [hstep] at h
            exact absurd h (by simp [Except.bind])
        | ok next =>
            rw [hstep] at h
            rw [← step_eq_ok hstep (by simpa using hempty)]
            exact getLast?_passed_of_walk h

/-- **A path leads to the end of its way.** -/
theorem getLast?_way_of_locate {d : Disk} {path : List Char} {l : Location}
    (h : d.locate path = .ok l) : (d.way path).getLast? = some l := by
  unfold locate at h
  split at h
  · exact absurd h (by simp)
  · simp only [bind, Except.bind] at h
    split at h
    · exact absurd h (by simp)
    · next at' hwalk =>
      split at h
      · exact absurd h (by simp)
      · obtain rfl := Except.ok.inj h
        exact getLast?_passed_of_walk hwalk

/-- A path leads to a place on its way. -/
theorem locate_mem_way {d : Disk} {path : List Char} {l : Location} (h : d.locate path = .ok l) :
    l ∈ d.way path :=
  List.mem_of_getLast? (getLast?_way_of_locate h)

/-- The way of a path depends on the working folder only. -/
theorem way_congr {d d' : Disk} (h : d'.workingFolder = d.workingFolder) (path : List Char) :
    d'.way path = d.way path := by
  unfold way
  rw [h]

/-- What is left of segments without some at their end. -/
theorem dropEnd_prefix (p : List Char → Bool) (segments : List (List Char)) :
    (segments.reverse.dropWhile p).reverse <+: segments := by
  rw [← List.reverse_suffix, List.reverse_reverse]
  exact List.dropWhile_suffix p

/-- The segments of a parent are the first of the path, unless it is empty. -/
theorem splitAt_parentPath? {path parent : List Char} (h : parentPath? path = some parent) :
    parent = [] ∨ Text.splitAt '/' parent <+: Text.splitAt '/' path := by
  unfold parentPath? at h
  simp only at h
  split at h
  · exact absurd h (by simp)
  · next last before hsegments =>
    obtain rfl := Option.some.inj h
    have hbefore : before.reverse <+: Text.splitAt '/' path := by
      have hbegins := dropEnd_prefix (fun s => (Path.component? s).isNone) (Text.splitAt '/' path)
      rw [hsegments, List.reverse_cons] at hbegins
      exact (List.prefix_append _ _).trans hbegins
    have hclean : ∀ t ∈ before.reverse, '/' ∉ t := fun t ht =>
      Text.notMem_of_mem_splitAt t (hbefore.subset ht)
    unfold Path.trimEnd
    simp only
    generalize hcut : ((Text.splitAt '/' (Text.joinWith ['/'] before.reverse)).reverse.dropWhile
      fun s => (Path.component? s).isNone).reverse = cut
    by_cases hnil : cut = []
    · exact Or.inl (by rw [hnil]; rfl)
    · right
      by_cases hnone : before.reverse = []
      · rw [hnone] at hcut
        exact absurd hcut.symm hnil
      · rw [Text.splitAt_joinWith hnone hclean] at hcut
        have hbegins : cut <+: before.reverse := by
          rw [← hcut]
          exact dropEnd_prefix _ _
        rw [Text.splitAt_joinWith hnil fun t ht => hclean t (hbegins.subset ht)]
        exact hbegins.trans hbefore

/-- **The way to a path begins with the way to its parent.** -/
theorem way_parentPath? {path parent : List Char} (h : parentPath? path = some parent)
    (hparent : parent ≠ []) (hpath : path ≠ []) (d : Disk) : d.way parent ⊆ d.way path := by
  rcases splitAt_parentPath? h with hnil | hbegins
  · exact absurd hnil hparent
  have habsolute : Path.isAbsolute parent = Path.isAbsolute path := by
    have hhead : (Text.splitAt '/' parent).head? = (Text.splitAt '/' path).head? := by
      obtain ⟨tail, htail⟩ := hbegins
      rw [← htail]
      cases hsegments : Text.splitAt '/' parent with
      | nil => exact absurd hsegments (Text.splitAt_ne_nil _ _)
      | cons first more => rfl
    unfold Path.isAbsolute
    rw [Bool.eq_iff_iff, beq_iff_eq, beq_iff_eq, Text.head?_eq_sep_iff hparent,
      Text.head?_eq_sep_iff hpath, hhead]
  unfold way
  rw [habsolute]
  exact passed_of_prefix hbegins _

/-! ## Following a path

The steps of a path are followed from folder to folder.  Where they lead is the place of the path, but for
the empty path, and for a file behind which a slash demands a folder. -/

/-- The steps of a path. -/
def steps (path : List Char) : List (List Char) :=
  (Text.splitAt '/' path).filter fun s => !s.isEmpty

/-- Where a path begins. -/
def origin (d : Disk) (path : List Char) : Location :=
  if Path.isAbsolute path then [] else d.workingFolder

/-- Where the steps of a path lead. -/
def follow (d : Disk) (path : List Char) : Except FileFault Location :=
  d.walk (d.origin path) (steps path)

theorem locate_eq_follow {path : List Char} (hpath : path ≠ []) (d : Disk) :
    d.locate path = (d.follow path).bind fun l =>
      match endsInSlash path, d.entry? l with
      | true, some (.file _) => .error .notADirectory
      | _, _ => .ok l := by
  unfold locate
  rw [if_neg (by simpa using hpath)]
  rfl

/-- A path without a slash at its end demands nothing. -/
theorem locate_of_plain {path : List Char} (hpath : path ≠ []) (hslash : endsInSlash path = false)
    (d : Disk) : d.locate path = d.follow path := by
  rw [locate_eq_follow hpath, hslash]
  cases d.follow path <;> rfl

/-- **Whatever has a place is where its steps lead.** -/
theorem follow_of_locate {d : Disk} {path : List Char} {l : Location} (h : d.locate path = .ok l) :
    path ≠ [] ∧ d.follow path = .ok l := by
  have hpath : path ≠ [] := by
    rintro rfl
    exact absurd h (by simp [locate])
  rw [locate_eq_follow hpath] at h
  refine ⟨hpath, ?_⟩
  cases hfollow : d.follow path with
  | error f =>
      rw [hfollow] at h
      exact absurd h (by simp [Except.bind])
  | ok l' =>
      rw [hfollow] at h
      simp only [Except.bind] at h
      split at h
      · exact absurd h (by simp)
      · rw [Except.ok.inj h]

/-- A path that leads to a folder has its place there, with a slash at its end or without. -/
theorem locate_of_folder {d : Disk} {path : List Char} {l : Location} (hpath : path ≠ [])
    (hfollow : d.follow path = .ok l) (hfolder : d.entry? l = some .folder) :
    d.locate path = .ok l := by
  rw [locate_eq_follow hpath, hfollow]
  simp only [Except.bind, hfolder]
  cases endsInSlash path <;> rfl

theorem walk_append (d : Disk) : ∀ (a b : List (List Char)) (at' : Location),
    d.walk at' (a ++ b) = (d.walk at' a).bind fun l => d.walk l b
  | [], _, _ => rfl
  | s :: a, b, at' => by
      rw [List.cons_append, walk, walk]
      cases d.step at' s with
      | error f => rfl
      | ok next => exact walk_append d a b next

/-! ## Files in a folder -/

/-- A name of a file, as a component that is followed into the folder. -/
structure IsFileName (file : List Char) : Prop where
  nonempty : file ≠ []
  single : '/' ∉ file
  not_here : file ≠ ['.']
  not_up : file ≠ ['.', '.']

/-- A step to a file leads into the folder, if it is one. -/
theorem step_isFileName {file : List Char} (hfile : IsFileName file) (d : Disk) (l : Location) :
    d.step l file = match d.entry? l with
      | none => .error .notFound
      | some (.file _) => .error .notADirectory
      | some .folder => .ok (l ++ [String.ofList file]) := by
  unfold step
  rcases d.entry? l with _ | _ | _ <;> simp only [beq_iff_eq, hfile.not_here, hfile.not_up, if_false]

/-- The path of a file begins where the path of its folder begins, and takes one step more. -/
theorem steps_join (base : List Char) {file : List Char} (hfile : IsFileName file) :
    Path.isAbsolute (Path.join base file) = Path.isAbsolute base
      ∧ steps (Path.join base file) = steps base ++ [file] := by
  have hsplit : Text.splitAt '/' file = [file] := Text.splitAt_of_notMem hfile.single
  have hlast : [file].filter (fun s => !s.isEmpty) = [file] := by simp [hfile.nonempty]
  have hrelative : Path.isAbsolute file = false := by
    unfold Path.isAbsolute
    rw [beq_eq_false_iff_ne]
    exact fun hhead => hfile.single (List.mem_of_mem_head? hhead)
  have hhead (rest : List Char) (hbase : base ≠ []) :
      Path.isAbsolute (base ++ rest) = Path.isAbsolute base := by
    unfold Path.isAbsolute
    rw [List.head?_append_of_ne_nil _ hbase]
  unfold Path.join steps
  rw [hrelative, Bool.false_or]
  by_cases hbase : base = []
  · subst hbase
    exact ⟨hrelative, by rw [List.isEmpty_nil, if_pos rfl, hsplit, hlast]; rfl⟩
  rw [if_neg (by simpa using hbase)]
  by_cases hslash : (base.getLast? == some '/') = true
  · -- the slash that is there leaves an empty segment behind it
    have hends : base = base.dropLast ++ '/' :: [] :=
      (List.dropLast_append_getLast? '/' (beq_iff_eq.mp hslash)).symm
    rw [if_pos hslash]
    refine ⟨hhead file hbase, ?_⟩
    have hfront : Text.splitAt '/' (base ++ file) = Text.splitAt '/' base.dropLast ++ [file] := by
      rw [← hsplit, ← Text.splitAt_append]
      nth_rewrite 1 [hends]
      rw [List.append_assoc, List.cons_append, List.nil_append]
    have hback : Text.splitAt '/' base = Text.splitAt '/' base.dropLast ++ [[]] := by
      nth_rewrite 1 [hends]
      exact Text.splitAt_append '/' [] base.dropLast
    rw [hfront, hback, List.filter_append, List.filter_append, hlast]
    simp
  · rw [if_neg hslash, List.append_assoc, List.singleton_append]
    exact ⟨hhead _ hbase, by rw [Text.splitAt_append, hsplit, List.filter_append, hlast]⟩

theorem join_ne_nil (base : List Char) {file : List Char} (hfile : IsFileName file) :
    Path.join base file ≠ [] := by
  intro h
  have hsteps := (steps_join base hfile).2
  rw [h] at hsteps
  exact absurd hsteps.symm (by simp [steps, Text.splitAt])

theorem endsInSlash_join (base : List Char) {file : List Char} (hfile : IsFileName file) :
    endsInSlash (Path.join base file) = false := by
  have hlast : file.getLast? ≠ some '/' := fun h => hfile.single (List.mem_of_getLast? h)
  unfold endsInSlash Path.join
  rw [beq_eq_false_iff_ne]
  split
  · exact hlast
  · split
    · rwa [List.getLast?_append_of_ne_nil _ hfile.nonempty]
    · rwa [List.getLast?_append_of_ne_nil _ hfile.nonempty]

/-- **The place of a file** is one step behind its folder. -/
theorem locate_join (d : Disk) (base : List Char) {file : List Char} (hfile : IsFileName file) :
    d.locate (Path.join base file) = (d.follow base).bind fun l => d.step l file := by
  obtain ⟨habsolute, hsteps⟩ := steps_join base hfile
  rw [locate_of_plain (join_ne_nil base hfile) (endsInSlash_join base hfile)]
  unfold follow origin
  rw [habsolute, hsteps, walk_append]
  refine congrArg _ (funext fun l => ?_)
  unfold walk
  cases d.step l file <;> rfl

end Disk

end DecoderForge
