import DecoderForge.Proofs.Disk.Folders

/-!
# DecoderForge — the last name of a path

A path with a last name is a folder and that name.  An ending is put behind the whole name, or in place of the one
that the name has, and the folder stays.  Both lead to the same place exactly where the name has no ending.

## The architecture

* **`Path.trimEnd_eq_append`** — a folder, and the last name in it.
* **`Path.withExtension_eq_append`** — another ending on the last name.
* **`locate_ending_eq_iff`** — when an ending behind the name and one in place of another lead to one file.
-/

namespace DecoderForge.Disk

/-- A name does not start at the root. -/
theorem IsFileName.isAbsolute_append {file : List Char} (hfile : IsFileName file) (rest : List Char) :
    Path.isAbsolute (file ++ rest) = false := by
  unfold Path.isAbsolute
  rw [List.head?_append_of_ne_nil _ hfile.nonempty, beq_eq_false_iff_ne]
  exact fun hhead => hfile.single (List.mem_of_mem_head? hhead)

namespace Path

/-- What stands in front of a name: nothing, or a folder up to its slash. -/
def IsFront (front : List Char) : Prop := front = [] ∨ front.getLast? = some '/'

/-- Whether the last name of a path has an ending. -/
def hasExtension (path : List Char) : Bool := (fileName? path).any fun name => stem name != name

/-- A name behind what stands in front of it. -/
theorem join_of_isFront {front file : List Char} (hfront : IsFront front) (hfile : IsFileName file) :
    join front file = front ++ file := by
  have hrelative : isAbsolute file = false := List.append_nil file ▸ hfile.isAbsolute_append []
  unfold join
  rw [hrelative]
  obtain rfl | hslash := hfront
  · rfl
  · cases front with
    | nil => rfl
    | cons c front =>
      rw [hslash]
      rfl

/-- Names behind each other. -/
theorem join_join {folder file : List Char} (hfolder : IsFileName folder) (hfile : IsFileName file)
    (base : List Char) : join (join base folder) file = join base (folder ++ '/' :: file) := by
  have hinner : join (join base folder) file = join base folder ++ '/' :: file := by
    have hslash : ((join base folder).getLast? == some '/') = false := endsInSlash_join base hfolder
    have hempty : (join base folder).isEmpty = false := by simpa using join_ne_nil base hfolder
    have hrelative : isAbsolute file = false := List.append_nil file ▸ hfile.isAbsolute_append []
    rw [join, hrelative, hempty, hslash]
    simp
  rw [hinner]
  have hrelative : isAbsolute folder = false := List.append_nil folder ▸ hfolder.isAbsolute_append []
  unfold join
  rw [hrelative, hfolder.isAbsolute_append]
  split
  · rfl
  split
  · rw [List.append_assoc]
  · simp only [List.append_assoc]

/-- The last name of a path is what stands behind its last slash. -/
theorem fileName?_join (base : List Char) {file : List Char} (hfile : IsFileName file) :
    fileName? (join base file) = some file := by
  have hcomponent : component? file = some (.name file) := by
    simp [component?, hfile.nonempty, hfile.not_here, hfile.not_up]
  have hsteps : components (join base file) = (steps (join base file)).filterMap component? := by
    unfold components steps
    rw [List.filterMap_filter]
    refine List.filterMap_congr fun s _ => ?_
    cases s with
    | nil => rfl
    | cons c s => rfl
  unfold fileName?
  rw [hsteps, (steps_join base hfile).2, List.filterMap_append, List.filterMap_cons, hcomponent, List.filterMap_nil,
    List.getLast?_concat]

/-- Segments in front of a last one. -/
theorem joinWith_concat (sep last : List Char) : ∀ segments : List (List Char),
    Text.joinWith sep (segments ++ [last]) = segments.flatMap (· ++ sep) ++ last
  | [] => rfl
  | [s] => by simp [Text.joinWith]
  | s :: t :: rest => by
      have ih := joinWith_concat sep last (t :: rest)
      show s ++ sep ++ Text.joinWith sep (t :: rest ++ [last]) = _
      rw [ih, ← List.append_assoc]
      rfl

theorem isFront_flatMap (segments : List (List Char)) : IsFront (segments.flatMap (· ++ ['/'])) := by
  cases hlast : segments.getLast? with
  | none =>
    rw [List.getLast?_eq_none_iff.mp hlast]
    exact .inl rfl
  | some s =>
    obtain ⟨front, rfl⟩ := List.getLast?_eq_some_iff.mp hlast
    right
    simp

/-- The last thing that segments say is what is said by the first of them from behind that says anything. -/
theorem getLast?_filterMap {α β : Type} (f : α → Option β) (l : List α) :
    (l.filterMap f).getLast? = (l.reverse.dropWhile fun a => (f a).isNone).head?.bind f := by
  rw [← List.head?_reverse, ← List.filterMap_reverse, List.head?_filterMap]
  induction l.reverse with
  | nil => rfl
  | cons a l ih =>
    rw [List.findSome?_cons, List.dropWhile_cons]
    cases ha : f a with
    | none => simpa [ha] using ih
    | some b => simp [ha]

theorem component?_eq_name {segment name : List Char} (h : component? segment = some (.name name)) :
    segment = name ∧ name ≠ [] ∧ name ≠ ['.'] ∧ name ≠ ['.', '.'] := by
  unfold component? at h
  split at h
  · cases h
  · next hsome =>
    split at h
    · cases h
    · next hup =>
      obtain rfl := Component.name.inj (Option.some.inj h)
      rw [Bool.or_eq_true, not_or, beq_iff_eq, beq_iff_eq] at hsome
      exact ⟨rfl, hsome.1, hsome.2, fun heq => hup (beq_iff_eq.mpr heq)⟩

/-- **A path with a last name is a folder and that name**, up to slashes behind it. -/
theorem trimEnd_eq_append {path name : List Char} (h : fileName? path = some name) :
    IsFileName name ∧ ∃ front, IsFront front ∧ trimEnd path = front ++ name := by
  have hlast : (components path).getLast? = some (.name name) := by
    unfold fileName? at h
    split at h
    · next s hs => rw [hs, Option.some.inj h]
    · cases h
  unfold components at hlast
  rw [getLast?_filterMap] at hlast
  obtain ⟨segment, hhead, hcomponent⟩ := Option.bind_eq_some_iff.mp hlast
  obtain ⟨rfl, hne, hhere, hup⟩ := component?_eq_name hcomponent
  -- the segments that say something end in the name
  obtain ⟨before, hcut⟩ := List.head?_eq_some_iff.mp hhead
  have hmem : segment ∈ Text.splitAt '/' path := by
    rw [← List.mem_reverse]
    exact (List.dropWhile_suffix _).subset (hcut ▸ List.mem_cons_self)
  refine ⟨⟨hne, Text.notMem_of_mem_splitAt segment hmem, hhere, hup⟩, _, isFront_flatMap before.reverse, ?_⟩
  unfold trimEnd
  dsimp only
  rw [hcut, List.reverse_cons]
  exact joinWith_concat ['/'] segment before.reverse

/-- **Another ending on the last name** leaves what stands in front of it alone. -/
theorem withExtension_eq_append {path name front : List Char} (hname : fileName? path = some name)
    (hfront : trimEnd path = front ++ name) (ending : List Char) :
    withExtension path ending = front ++ (stem name ++ ['.'] ++ ending) := by
  unfold withExtension
  rw [hname]
  dsimp only
  rw [hfront, List.length_append, Nat.add_sub_cancel, List.take_left, List.append_assoc, List.append_assoc,
    List.append_assoc]

/-- A stem has no characters of its own. -/
theorem stem_subset (name : List Char) : stem name ⊆ name := by
  unfold stem
  split
  · exact List.Subset.refl _
  · next c rest =>
    split
    · split
      · exact List.cons_subset_cons _ (List.nil_subset _)
      · exact List.Subset.refl _
    · next before hbefore =>
      refine List.cons_subset_cons _ fun d hd => ?_
      have hd : d ∈ (rest.reverse.dropWhile (· != '.')).tail := List.mem_reverse.mp hd
      exact List.mem_reverse.mp ((List.dropWhile_suffix _).subset (List.mem_of_mem_tail hd))

/-- A name with an ending of letters is the name of a file. -/
theorem isFileName_ending {name ending : List Char} (hname : '/' ∉ name) (hending : '/' ∉ ending)
    (hlong : 2 ≤ ending.length) : IsFileName (name ++ ['.'] ++ ending) where
  nonempty := by simp
  single := by simp [hname, hending]
  not_here h := by
    have := congrArg List.length h
    simp only [List.length_append, List.length_cons, List.length_nil] at this
    omega
  not_up h := by
    have := congrArg List.length h
    simp only [List.length_append, List.length_cons, List.length_nil] at this
    omega

end Path

open DecoderForge.Disk.Path

/-- **An ending behind a name and one in place of its own** lead to the same file exactly where the name has none.
That a file stands behind the name is what makes the place of the other matter. -/
theorem locate_ending_eq_iff {d : Disk} {path ending : List Char} (hname : (fileName? path).isSome = true)
    (hending : '/' ∉ ending) (hlong : 2 ≤ ending.length) {l : Location}
    (hl : d.locate (trimEnd path ++ ['.'] ++ ending) = .ok l) :
    d.locate (withExtension path ending) = .ok l ↔ hasExtension path = false := by
  obtain ⟨name, hname⟩ := Option.isSome_iff_exists.mp hname
  obtain ⟨hfile, front, hfront, htrim⟩ := trimEnd_eq_append hname
  have hwhole : IsFileName (name ++ ['.'] ++ ending) := isFileName_ending hfile.single hending hlong
  have hstem : IsFileName (stem name ++ ['.'] ++ ending) :=
    isFileName_ending (fun hmem => hfile.single (stem_subset name hmem)) hending hlong
  -- both paths lead to a name in one folder, and the name is what tells them apart
  rw [htrim, List.append_assoc, List.append_assoc, ← List.append_assoc name, ← join_of_isFront hfront hwhole] at hl
  rw [withExtension_eq_append hname htrim, ← join_of_isFront hfront hstem]
  have hextension : hasExtension path = false ↔ stem name = name := by simp [hasExtension, hname]
  rw [hextension]
  constructor
  · intro h
    have heq := file_eq_of_locate_join hstem hwhole h hl
    exact List.append_cancel_right (List.append_cancel_right heq)
  · intro h
    rw [h]
    exact hl

end DecoderForge.Disk
