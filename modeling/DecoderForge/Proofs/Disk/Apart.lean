import DecoderForge.Proofs.Disk.Changes

/-!
# DecoderForge — paths that do not meet

Whatever is done with a path asks for the places on its way and for no others.  Two paths are apart where
neither leads to a place that the other passes: what is written at the end of one is then never seen from
the other.

## The architecture

* **`Disk.Apart`** — neither path leads to a place on the way of the other, and **`Disk.apart_iff`** — of
  plain paths, none is the other or lies above it.
* **`Disk.AlikeFor`** — a path meets the same on two disks.
* **`Disk.AlikeFor.locate`**, **`Disk.AlikeFor.read`**, **`Disk.AlikeFor.write`** — then the same is done
  with it.
-/

namespace DecoderForge.Disk

/-! ## The end of a way -/

/-- Where a path leads if every folder on its way exists. -/
def goal (d : Disk) (path : List Char) : Location := (d.way path).getLast?.getD []

theorem passed_ne_nil (at' : Location) (segments : List (List Char)) : passed at' segments ≠ [] := by
  cases segments <;> simp [passed]

theorem goal_mem_way (d : Disk) (path : List Char) : d.goal path ∈ d.way path := by
  unfold goal
  obtain ⟨l, hl⟩ := Option.ne_none_iff_exists'.mp
    (List.getLast?_eq_none_iff.not.mpr (passed_ne_nil (d.origin path) (Text.splitAt '/' path)))
  have hl : (d.way path).getLast? = some l := hl
  rw [hl]
  exact List.mem_of_getLast? hl

/-- **A path leads to its goal**, if anywhere. -/
theorem eq_goal_of_locate {d : Disk} {path : List Char} {l : Location} (h : d.locate path = .ok l) :
    l = d.goal path := by
  unfold goal
  rw [getLast?_way_of_locate h]
  rfl

/-! ## Disks alike for a path -/

/-- A path meets the same on two disks. -/
structure AlikeFor (path : List Char) (d d' : Disk) : Prop where
  working : d'.workingFolder = d.workingFolder
  entries : ∀ l ∈ d.way path, d'.entry? l = d.entry? l

theorem step_congr {d d' : Disk} {at' : Location} (h : d'.entry? at' = d.entry? at')
    (segment : List Char) : d'.step at' segment = d.step at' segment := by
  unfold step
  rw [h]

theorem walk_congr {d d' : Disk} : ∀ {segments : List (List Char)} {at' : Location},
    (∀ l ∈ passed at' segments, d'.entry? l = d.entry? l) →
      d'.walk at' (segments.filter fun s => !s.isEmpty)
        = d.walk at' (segments.filter fun s => !s.isEmpty)
  | [], _, _ => rfl
  | s :: rest, at', h => by
      rw [passed, List.forall_mem_cons] at h
      obtain ⟨hhere, hrest⟩ := h
      by_cases hempty : s.isEmpty = true
      · rw [List.filter_cons_of_neg (by simp [hempty])]
        simp only [hempty, Bool.true_or, if_true] at hrest
        exact walk_congr hrest
      · rw [List.filter_cons_of_pos (by simpa using hempty), walk, walk, step_congr hhere]
        cases hstep : d.step at' s with
        | error f => rfl
        | ok next =>
            rw [← step_eq_ok hstep (by simpa using hempty)] at hrest
            exact walk_congr hrest

namespace AlikeFor

variable {path : List Char} {d d' : Disk}

/-- **The path leads to the same place**, or meets the same fault. -/
theorem locate (h : AlikeFor path d d') : d'.locate path = d.locate path := by
  by_cases hpath : path = []
  · rw [hpath]
    rfl
  · have hfollow : d'.follow path = d.follow path := by
      unfold follow origin
      rw [h.working]
      exact walk_congr h.entries
    rw [locate_eq_follow hpath, locate_eq_follow hpath, hfollow]
    cases hend : d.follow path with
    | error f => rfl
    | ok l =>
        simp only [Except.bind]
        rw [h.entries l (List.mem_of_getLast? (getLast?_passed_of_walk hend))]

/-- **The same is read.** -/
theorem read (h : AlikeFor path d d') : d'.read path = d.read path := by
  unfold Disk.read
  rw [h.locate]
  cases hlocate : d.locate path with
  | error f => rfl
  | ok l =>
      simp only [bind, Except.bind]
      rw [h.entries l (locate_mem_way hlocate)]

/-- **The same is written**, at the goal of the path. -/
theorem write (h : AlikeFor path d d') (bytes : List UInt8) :
    d'.write path bytes = (d.write path bytes).map fun _ => d'.put (d.goal path) (.file bytes) := by
  unfold Disk.write
  rw [h.locate]
  cases hlocate : d.locate path with
  | error f => rfl
  | ok l =>
      simp only [bind, Except.bind]
      rw [h.entries l (locate_mem_way hlocate), eq_goal_of_locate hlocate]
      split <;> rfl

end AlikeFor

/-- **A file that can be written is written at the goal of its path**, where no folder stands. -/
theorem goal_of_write {d d' : Disk} {path : List Char} {bytes : List UInt8}
    (h : d.write path bytes = .ok d') :
    endsInSlash path = false ∧ d.locate path = .ok (d.goal path)
      ∧ d.entry? (d.goal path) ≠ some .folder ∧ d' = d.put (d.goal path) (.file bytes) := by
  obtain ⟨hslash, l, hlocate, hfree, hput⟩ := write_eq_ok h
  obtain rfl := eq_goal_of_locate hlocate
  exact ⟨hslash, hlocate, hfree, hput⟩

/-! ## Paths apart -/

/-- Neither path leads to a place on the way of the other. -/
def Apart (d : Disk) (path path' : List Char) : Prop :=
  d.goal path ∉ d.way path' ∧ d.goal path' ∉ d.way path

instance (d : Disk) (path path' : List Char) : Decidable (d.Apart path path') := by
  unfold Apart
  infer_instance

theorem Apart.symm {d : Disk} {path path' : List Char} (h : d.Apart path path') : d.Apart path' path :=
  And.symm h

/-- Paths apart lead to different places. -/
theorem Apart.goal_ne {d : Disk} {path path' : List Char} (h : d.Apart path path') :
    d.goal path ≠ d.goal path' := by
  intro heq
  exact h.1 (heq ▸ goal_mem_way d path')

/-- A path without the names that stand for a folder itself and for the one above it. -/
def IsPlainPath (path : List Char) : Prop := ∀ s ∈ steps path, s ≠ ['.'] ∧ s ≠ ['.', '.']

/-- The names that plain steps pass. -/
theorem passed_of_plain : ∀ {segments : List (List Char)} (at' : Location),
    (∀ s ∈ segments.filter (fun s => !s.isEmpty), s ≠ ['.'] ∧ s ≠ ['.', '.']) →
      (∀ l, l ∈ passed at' segments ↔ ∃ names, names <+: segments.filter (fun s => !s.isEmpty)
        ∧ l = at' ++ names.map String.ofList)
      ∧ (passed at' segments).getLast?
        = some (at' ++ (segments.filter fun s => !s.isEmpty).map String.ofList)
  | [], at', _ => by
      refine ⟨fun l => ?_, by simp [passed]⟩
      simp [passed]
  | s :: rest, at', h => by
      by_cases hempty : s.isEmpty = true
      · rw [List.filter_cons_of_neg (by simp [hempty])] at h ⊢
        obtain ⟨hmem, hlast⟩ := passed_of_plain at' h
        simp only [passed, hempty, Bool.true_or, if_true]
        refine ⟨fun l => ?_, by rw [List.getLast?_cons, hlast]; rfl⟩
        rw [List.mem_cons, hmem]
        constructor
        · rintro (rfl | hl)
          · exact ⟨[], List.nil_prefix, by simp⟩
          · exact hl
        · exact Or.inr
      · rw [List.filter_cons_of_pos (by simpa using hempty)] at h ⊢
        obtain ⟨⟨hdot, hup⟩, hrest⟩ := List.forall_mem_cons.mp h
        obtain ⟨hmem, hlast⟩ := passed_of_plain (at' ++ [String.ofList s]) hrest
        have hnext : (if s.isEmpty || s == ['.'] then at'
            else if s == ['.', '.'] then at'.dropLast else at' ++ [String.ofList s])
              = at' ++ [String.ofList s] := by
          rw [if_neg (by simpa [hempty] using hdot), if_neg (by simpa using hup)]
        rw [passed, hnext]
        refine ⟨fun l => ?_, by rw [List.getLast?_cons, hlast]; simp⟩
        rw [List.mem_cons, hmem]
        constructor
        · rintro (rfl | ⟨names, hnames, rfl⟩)
          · exact ⟨[], List.nil_prefix, by simp⟩
          · exact ⟨s :: names, (List.prefix_cons_inj s).mpr hnames, by simp⟩
        · rintro ⟨names, hnames, rfl⟩
          rcases names with _ | ⟨name, names⟩
          · exact Or.inl (by simp)
          · obtain ⟨rfl, hrest⟩ := List.cons_prefix_cons.mp hnames
            exact Or.inr ⟨names, hrest, by simp⟩

/-- The goal of a plain path is on the way of another plain path if it is the other or lies above it. -/
theorem goal_mem_way_iff {d : Disk} {path path' : List Char} (hplain : IsPlainPath path)
    (hplain' : IsPlainPath path') (horigin : d.origin path = d.origin path') :
    d.goal path ∈ d.way path' ↔ steps path <+: steps path' := by
  have hgoal : d.goal path = d.origin path' ++ (steps path).map String.ofList := by
    have hlast : (d.way path).getLast? = some (d.origin path ++ (steps path).map String.ofList) :=
      (passed_of_plain _ hplain).2
    unfold goal
    rw [hlast, Option.getD_some, horigin]
  have hway := (passed_of_plain (d.origin path') hplain').1 (d.goal path)
  refine hway.trans ⟨?_, fun h => ⟨_, h, hgoal⟩⟩
  rintro ⟨names, hnames, heq⟩
  rw [hgoal] at heq
  have hsame : steps path = names :=
    List.map_injective_iff.mpr (fun _ _ h => String.ofList_injective h) (List.append_cancel_left heq)
  rw [hsame]
  exact hnames

/-- **Plain paths are apart** if they are different and neither lies above the other. -/
theorem apart_iff {d : Disk} {path path' : List Char} (hplain : IsPlainPath path)
    (hplain' : IsPlainPath path') (horigin : d.origin path = d.origin path') :
    d.Apart path path' ↔ ¬ steps path <+: steps path' ∧ ¬ steps path' <+: steps path := by
  unfold Apart
  rw [goal_mem_way_iff hplain hplain' horigin, goal_mem_way_iff hplain' hplain horigin.symm]

end DecoderForge.Disk
