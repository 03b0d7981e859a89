import DecoderForge.Proofs.Disk.Paths
import DecoderForge.Proofs.Schema.Inside

/-!
# DecoderForge — what operations change on a disk

Making folders adds folders on the way to the last of them, where nothing stood; writing a file changes the
place that its path leads to, where no folder stood.  Folders stay folders in either case, so that paths
lead where they led before.

## The architecture

* **`Disk.entry?_put`** — what stands where after something is put somewhere.
* **`Disk.KeepsFolders`** — folders stay, and **`Disk.KeepsFolders.locate`** — so do the places of paths.
* **`Disk.addsFolders_attemptFolders`** — what making folders changes.
* **`Disk.write_eq_ok`** — what writing a file changes.
-/

namespace DecoderForge.Disk

/-! ## Entries -/

@[simp] theorem entry?_nil (d : Disk) : d.entry? [] = some .folder := rfl

/-- **What stands where** after something is put at a place below the top folder. -/
theorem entry?_put (d : Disk) {l : Location} (hl : l ≠ []) (e : DiskEntry) (l' : Location) :
    Disk.entry? (d.put l e) l' = if l' = l then some e else d.entry? l' := by
  unfold entry? put
  by_cases hnil : l' = []
  · subst hnil
    rw [if_neg (Ne.symm hl)]
    rfl
  · have hnonempty : l'.isEmpty = false := by simpa using hnil
    simp only [hnonempty, Bool.false_eq_true, if_false, List.lookup_cons]
    by_cases hl' : l' = l
    · simp [hl']
    · have hother : (l' != l) = true := by simpa using hl'
      rw [beq_false_of_ne hl', if_neg hl']
      exact Json.lookup_filter (p := (· != l)) hother d.entries

@[simp] theorem workingFolder_put (d : Disk) (l : Location) (e : DiskEntry) :
    (d.put l e).workingFolder = d.workingFolder := rfl

/-! ## Folders that stay -/

/-- Every folder of a disk is a folder of another. -/
structure KeepsFolders (d d' : Disk) : Prop where
  working : d'.workingFolder = d.workingFolder
  folders : ∀ l, d.entry? l = some .folder → d'.entry? l = some .folder

theorem KeepsFolders.refl (d : Disk) : KeepsFolders d d := ⟨rfl, fun _ h => h⟩

theorem KeepsFolders.trans {d₁ d₂ d₃ : Disk} (h : KeepsFolders d₁ d₂) (h' : KeepsFolders d₂ d₃) :
    KeepsFolders d₁ d₃ :=
  ⟨h'.working.trans h.working, fun l hl => h'.folders l (h.folders l hl)⟩

/-- Where a folder stands nothing is put over it. -/
theorem keepsFolders_put {d : Disk} {l : Location} (hl : l ≠ []) (e : DiskEntry)
    (h : d.entry? l ≠ some .folder) : KeepsFolders d (d.put l e) := by
  refine ⟨rfl, fun l' hl' => ?_⟩
  rw [entry?_put d hl, if_neg]
  · exact hl'
  · rintro rfl
    exact h hl'

/-- Steps from folder to folder stay possible. -/
theorem KeepsFolders.walk {d d' : Disk} (h : KeepsFolders d d') {l : Location} :
    ∀ {segments : List (List Char)} {at' : Location}, d.walk at' segments = .ok l →
      d'.walk at' segments = .ok l
  | [], _, hwalk => hwalk
  | s :: rest, at', hwalk => by
      rw [Disk.walk] at hwalk ⊢
      cases hstep : d.step at' s with
      | error f =>
          rw [hstep] at hwalk
          exact absurd hwalk (by simp [Except.bind])
      | ok next =>
          rw [hstep] at hwalk
          have hfolder : d.entry? at' = some .folder := by
            unfold step at hstep
            split at hstep
            · exact absurd hstep (by simp)
            · exact absurd hstep (by simp)
            · assumption
          have hstep' : d'.step at' s = .ok next := by
            rw [← hstep, step, step, hfolder, h.folders at' hfolder]
          rw [hstep']
          exact h.walk hwalk

/-- **Paths lead where they led before**, where they do not demand a folder. -/
theorem KeepsFolders.locate {d d' : Disk} (h : KeepsFolders d d') {path : List Char} {l : Location}
    (hslash : endsInSlash path = false) (hlocate : d.locate path = .ok l) : d'.locate path = .ok l := by
  unfold Disk.locate at hlocate ⊢
  split at hlocate
  · exact absurd hlocate (by simp)
  · next hempty =>
    rw [if_neg hempty, h.working]
    simp only [bind, Except.bind] at hlocate ⊢
    split at hlocate
    · exact absurd hlocate (by simp)
    · next at' hwalk =>
      rw [h.walk hwalk]
      simp only [hslash] at hlocate ⊢
      exact hlocate

/-! ## Making folders -/

/-- A disk differs from another by folders only, at some places where nothing stood. -/
structure AddsFolders (places : Location → Prop) (d d' : Disk) : Prop where
  working : d'.workingFolder = d.workingFolder
  added : ∀ l, d'.entry? l ≠ d.entry? l →
    d.entry? l = none ∧ d'.entry? l = some .folder ∧ places l

namespace AddsFolders

variable {places places' : Location → Prop} {d₁ d₂ d₃ : Disk}

theorem refl (places : Location → Prop) (d : Disk) : AddsFolders places d d :=
  ⟨rfl, fun _ h => absurd rfl h⟩

theorem mono (h : AddsFolders places d₁ d₂) (hsub : ∀ l, places l → places' l) :
    AddsFolders places' d₁ d₂ :=
  ⟨h.working, fun l hl => ⟨(h.added l hl).1, (h.added l hl).2.1, hsub l (h.added l hl).2.2⟩⟩

theorem keepsFolders (h : AddsFolders places d₁ d₂) : KeepsFolders d₁ d₂ := by
  refine ⟨h.working, fun l hl => ?_⟩
  by_cases hsame : d₂.entry? l = d₁.entry? l
  · rw [hsame, hl]
  · exact (h.added l hsame).2.1

theorem trans (h : AddsFolders places d₁ d₂) (h' : AddsFolders places d₂ d₃) :
    AddsFolders places d₁ d₃ := by
  refine ⟨h'.working.trans h.working, fun l hl => ?_⟩
  by_cases hfirst : d₂.entry? l = d₁.entry? l
  · rw [← hfirst] at hl ⊢
    exact h'.added l hl
  · obtain ⟨hnone, hfolder, hplace⟩ := h.added l hfirst
    exact ⟨hnone, h'.keepsFolders.folders l hfolder, hplace⟩

end AddsFolders

/-- A folder is made where its path leads, if nothing stands there. -/
theorem makeFolder_eq_ok {d d' : Disk} {path : List Char} (h : d.makeFolder path = .ok d') :
    ∃ l, d.locate path = .ok l ∧ d.entry? l = none ∧ d' = d.put l .folder := by
  unfold makeFolder at h
  cases hlocate : d.locate path with
  | error f =>
      rw [hlocate] at h
      exact absurd h (by simp [bind, Except.bind])
  | ok l =>
      rw [hlocate] at h
      simp only [bind, Except.bind] at h
      split at h
      · exact absurd h (by simp [throw, throwThe, MonadExceptOf.throw])
      · next hnone => exact ⟨l, rfl, hnone, (Except.ok.inj h).symm⟩

theorem addsFolders_makeFolder {d d' : Disk} {path : List Char} (h : d.makeFolder path = .ok d') :
    AddsFolders (· ∈ d.way path) d d' := by
  obtain ⟨l, hlocate, hnone, rfl⟩ := makeFolder_eq_ok h
  have hl : l ≠ [] := by
    rintro rfl
    exact absurd hnone (by simp)
  refine ⟨rfl, fun l' hl' => ?_⟩
  rw [entry?_put d hl] at hl' ⊢
  by_cases heq : l' = l
  · subst heq
    exact ⟨hnone, if_pos rfl, locate_mem_way hlocate⟩
  · exact absurd (if_neg heq) hl'

/-- Making folders adds folders on the way, whether or not it gets to the end. -/
theorem addsFolders_attemptFoldersWithin : ∀ (n : Nat) (d : Disk) (path : List Char),
    AddsFolders (· ∈ d.way path) d (d.attemptFoldersWithin n path).2
  | 0, d, path => .refl _ d
  | n + 1, d, path => by
      rw [attemptFoldersWithin]
      split
      · exact .refl _ d
      · next hempty =>
        have hpath : path ≠ [] := by simpa using hempty
        split
        · next hmade => exact addsFolders_makeFolder hmade
        · split
          · exact .refl _ d
          · next parent hparent =>
            -- the folders above come first, all of them on the way to the parent
            have habove : AddsFolders (· ∈ d.way path) d (d.attemptFoldersWithin n parent).2 := by
              by_cases hnil : parent = []
              · subst hnil
                cases n <;> exact .refl _ d
              · exact (addsFolders_attemptFoldersWithin n d parent).mono
                  (way_parentPath? hparent hnil hpath d)
            split
            · next f d₁ heq =>
              rw [heq] at habove
              exact habove
            · next d₁ heq =>
              rw [heq] at habove
              split
              · next d₂ hmade =>
                exact habove.trans ((addsFolders_makeFolder hmade).mono
                  fun l hl => way_congr habove.working path ▸ hl)
              · exact habove
        · exact .refl _ d

/-- **Making folders adds folders on the way**, where nothing stood. -/
theorem addsFolders_attemptFolders (d : Disk) (path : List Char) :
    AddsFolders (· ∈ d.way path) d (d.attemptFolders path).2 :=
  addsFolders_attemptFoldersWithin _ d path

/-! ## Writing -/

/-- **A file is written where its path leads**, if no folder stands there. -/
theorem write_eq_ok {d d' : Disk} {path : List Char} {bytes : List UInt8}
    (h : d.write path bytes = .ok d') :
    endsInSlash path = false
      ∧ ∃ l, d.locate path = .ok l ∧ d.entry? l ≠ some .folder ∧ d' = d.put l (.file bytes) := by
  unfold write at h
  cases hlocate : d.locate path with
  | error f =>
      rw [hlocate] at h
      exact absurd h (by simp [bind, Except.bind])
  | ok l =>
      rw [hlocate] at h
      simp only [bind, Except.bind] at h
      split at h
      · exact absurd h (by simp [throw, throwThe, MonadExceptOf.throw])
      · next hplain =>
        rw [Bool.or_eq_true, not_or, beq_iff_eq, Bool.not_eq_true] at hplain
        exact ⟨hplain.2, l, rfl, hplain.1, (Except.ok.inj h).symm⟩

end DecoderForge.Disk
