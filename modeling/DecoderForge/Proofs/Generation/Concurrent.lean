import DecoderForge.Proofs.Disk.Apart
import DecoderForge.Proofs.Generation.Updates
import DecoderForge.Proofs.Result
import Mathlib.Algebra.GroupWithZero.Nat
import Mathlib.Logic.Relation

/-!
# DecoderForge — files updated at the same time

The files of a batch are updated side by side.  Each of them is first read and then, if need be, written,
and between the two actions any of the others may act.  If the paths are apart nobody sees what another
has done, so that every order of the actions ends alike: as if the files were updated one after another.

## The architecture

* **`Batch.Step`** — one file of a batch acts, and **`Batch.Runs`** — the files act in some order.
* **`Batch.Tracks`** — what a batch has done on its way, kept by every action: **`Batch.Tracks.step`**.
* **`Batch.runs_attemptAll`** — one after another is one of the orders.
* **`Batch.Ends`** — how a batch ends, and **`Batch.ends_of_runs`** — every order ends so.
* **`Batch.ends_of_runs_plain`** — for plain paths of which none is another or lies above it.
-/

namespace DecoderForge

namespace Run

/-! ## The two actions of an update -/

/-- What is done with a file whose bytes have been read. -/
def concluded (mode : WriteMode) (f : PendingFile) (existing : Option (List UInt8)) (d : Disk) :
    Except GenerateError (WriteOutcome × Disk) :=
  if existing == some f.bytes then .ok (.unchanged, d)
  else match mode with
    | .check =>
      .ok (.stale (Diff.unified f.path (Text.decodeLossy (existing.getD [])) f.content.toList), d)
    | .write =>
      match d.write f.path.toList f.bytes with
      | .ok d => .ok (.written, d)
      | .error fault => .error (.writeFailed f.path fault)

/-- **An update** reads the file and does what is left. -/
theorem updated_eq (mode : WriteMode) (f : PendingFile) (d : Disk) :
    updated mode f.path f.content d
      = (readExisting f.path d).bind fun existing => concluded mode f existing d := by
  unfold updated concluded PendingFile.bytes
  cases readExisting f.path d with
  | error e => rfl
  | ok existing =>
      simp only [bind, Except.bind]
      split
      · rfl
      · cases mode with
        | check => rfl
        | write => rfl

theorem readExisting_of_alike {f : PendingFile} {d d' : Disk} (h : Disk.AlikeFor f.path.toList d d') :
    readExisting f.path d' = readExisting f.path d := by
  unfold readExisting
  rw [h.read]

/-- **What is left does the same** on disks that are alike for the path. -/
theorem concluded_of_alike {f : PendingFile} {d d' : Disk} (h : Disk.AlikeFor f.path.toList d d')
    (mode : WriteMode) (existing : Option (List UInt8)) :
    concluded mode f existing d' = (concluded mode f existing d).map fun r =>
      (r.1, if r.1 = .written then d'.put (d.goal f.path.toList) (.file f.bytes) else d') := by
  unfold concluded
  split
  · rfl
  · cases mode with
    | check => rfl
    | write =>
        simp only [h.write]
        cases d.write f.path.toList f.bytes with
        | error fault => rfl
        | ok d₁ => rfl

/-- What is left of an update in write mode: nothing, or the file is written. -/
theorem concluded_write_eq_ok {f : PendingFile} {existing : Option (List UInt8)} {d d' : Disk}
    {outcome : WriteOutcome} (h : concluded .write f existing d = .ok (outcome, d')) :
    outcome = .unchanged ∧ existing = some f.bytes
      ∨ outcome = .written ∧ d.write f.path.toList f.bytes = .ok d' := by
  unfold concluded at h
  split at h
  · next hsame => exact Or.inl ⟨(Prod.mk.inj (Except.ok.inj h)).1.symm, beq_iff_eq.mp hsame⟩
  · simp only at h
    split at h
    · next d₁ hwrite =>
      obtain ⟨rfl, rfl⟩ := Prod.mk.inj (Except.ok.inj h)
      exact Or.inr ⟨rfl, hwrite⟩
    · exact absurd h (by simp)

/-- Whatever has been written was written in write mode. -/
theorem write_of_concluded_written {mode : WriteMode} {f : PendingFile} {existing : Option (List UInt8)}
    {d d' : Disk} (h : concluded mode f existing d = .ok (.written, d')) :
    mode = .write ∧ d.write f.path.toList f.bytes = .ok d' := by
  cases mode with
  | write =>
      rcases concluded_write_eq_ok h with ⟨hunchanged, -⟩ | ⟨-, hwrite⟩
      · exact absurd hunchanged (by decide)
      · exact ⟨rfl, hwrite⟩
  | check =>
      unfold concluded at h
      split at h <;> exact absurd (Prod.mk.inj (Except.ok.inj h)).1 (by simp)

end Run

/-- What becomes of a file that is updated alone. -/
def PendingFile.fate (mode : WriteMode) (d : Disk) (f : PendingFile) : Except GenerateError FileReport :=
  (Run.updated mode f.path f.content d).map fun r => ⟨f.path, r.1⟩

/-- What stands at the goal of a file that has been updated alone. -/
def PendingFile.trace (mode : WriteMode) (d : Disk) (f : PendingFile) : Option DiskEntry :=
  match f.fate mode d with
  | .ok ⟨_, .written⟩ => some (.file f.bytes)
  | _ => d.entry? (d.goal f.path.toList)

theorem PendingFile.trace_of_written {mode : WriteMode} {d : Disk} {f : PendingFile}
    (h : f.fate mode d = .ok ⟨f.path, .written⟩) : f.trace mode d = some (.file f.bytes) := by
  rw [trace, h]

/-- A file that is not written leaves what stands at its goal. -/
theorem PendingFile.trace_of_ne {mode : WriteMode} {d : Disk} {f : PendingFile}
    (h : f.fate mode d ≠ .ok ⟨f.path, .written⟩) :
    f.trace mode d = d.entry? (d.goal f.path.toList) := by
  unfold trace
  split
  · next path hfate =>
    obtain ⟨r, -, hr⟩ := map_eq_ok hfate
    obtain ⟨rfl, -⟩ := FileReport.mk.inj hr
    exact absurd hfate h
  · rfl

/-- The same stands at every place of two disks. -/
structure Disk.Alike (d d' : Disk) : Prop where
  working : d'.workingFolder = d.workingFolder
  entries : ∀ l, d'.entry? l = d.entry? l

/-! ## Batches -/

namespace Batch

/-- How far the update of a file has come. -/
inductive Stage where
  | waiting
  | compared (existing : Option (List UInt8))
  | done (result : Except GenerateError FileReport)

/-- A file of a batch with how far it has come. -/
structure Item where
  file : PendingFile
  stage : Stage

/-- **The next action** of a file, and the disk after it: the file is read, or what is left is done. -/
def Item.next (mode : WriteMode) (d : Disk) (i : Item) : Option (Stage × Disk) :=
  match i.stage with
  | .waiting =>
    match Run.readExisting i.file.path d with
    | .ok existing => some (.compared existing, d)
    | .error e => some (.done (.error e), d)
  | .compared existing =>
    match Run.concluded mode i.file existing d with
    | .ok (outcome, d') => some (.done (.ok ⟨i.file.path, outcome⟩), d')
    | .error e => some (.done (.error e), d)
  | .done _ => none

end Batch

/-- Files on their way, and the disk that they share. -/
structure Batch where
  items : List Batch.Item
  disk : Disk

namespace Batch

/-- A batch before any of its files has acted. -/
def start (files : List PendingFile) (d : Disk) : Batch := ⟨files.map fun f => ⟨f, .waiting⟩, d⟩

/-- **One file acts**, any of them. -/
inductive Step (mode : WriteMode) : Batch → Batch → Prop where
  | act {before after : List Item} {i : Item} {stage : Stage} {d d' : Disk}
      (h : i.next mode d = some (stage, d')) :
      Step mode ⟨before ++ i :: after, d⟩ ⟨before ++ ⟨i.file, stage⟩ :: after, d'⟩

/-- **The files act in some order.** -/
abbrev Runs (mode : WriteMode) : Batch → Batch → Prop := Relation.ReflTransGen (Step mode)

/-- No file has anything left to do. -/
def Finished (b : Batch) : Prop := ∀ i ∈ b.items, ∃ result, i.stage = .done result

/-- The results of the files, in the order of the batch. -/
def results (b : Batch) : List (Except GenerateError FileReport) :=
  b.items.filterMap fun i => match i.stage with
    | .done result => some result
    | _ => none

/-- What the batch returns: the reports, or the first failure. -/
def returned (b : Batch) : Except GenerateError (List FileReport) := b.results.mapM id

/-! ## What is kept -/

/-- The file has found what it finds alone. -/
def Item.Faithful (mode : WriteMode) (d : Disk) (i : Item) : Prop :=
  match i.stage with
  | .waiting => True
  | .compared existing => Run.readExisting i.file.path d = .ok existing
  | .done result => result = i.file.fate mode d

/-- What stands at the goal of a file that has come so far. -/
def Item.trace (mode : WriteMode) (d : Disk) (i : Item) : Option DiskEntry :=
  match i.stage with
  | .done _ => i.file.trace mode d
  | _ => d.entry? (d.goal i.file.path.toList)

/-- What a batch has done on its way: every file what it does alone, and nobody anything else. -/
structure Tracks (mode : WriteMode) (files : List PendingFile) (d : Disk) (b : Batch) : Prop where
  files_eq : b.items.map Item.file = files
  working : b.disk.workingFolder = d.workingFolder
  faithful : ∀ i ∈ b.items, i.Faithful mode d
  own : ∀ i ∈ b.items, b.disk.entry? (d.goal i.file.path.toList) = i.trace mode d
  other : ∀ l, (∀ f ∈ files, l ≠ d.goal f.path.toList) → b.disk.entry? l = d.entry? l
  kept : mode = .check → b.disk = d

variable {mode : WriteMode} {files : List PendingFile} {d : Disk} {b b' : Batch}

theorem tracks_start (mode : WriteMode) (files : List PendingFile) (d : Disk) :
    Tracks mode files d (start files d) := by
  refine ⟨?_, rfl, fun i hi => ?_, fun i hi => ?_, fun _ _ => rfl, fun _ => rfl⟩
  · unfold start
    rw [List.map_map]
    exact List.map_id files
  all_goals
    obtain ⟨f, -, rfl⟩ := List.mem_map.mp hi
  · trivial
  · rfl

/-- Where the files of a batch are apart, each is apart from those before and behind it. -/
theorem Tracks.apart_of_ne {before after : List Item} {i : Item} (h : Tracks mode files d b)
    (hapart : files.Pairwise fun f g => d.Apart f.path.toList g.path.toList)
    (hitems : b.items = before ++ i :: after) :
    ∀ j ∈ before ++ after, d.Apart i.file.path.toList j.file.path.toList := by
  rw [← h.files_eq, hitems, List.map_append, List.map_cons, List.pairwise_append] at hapart
  obtain ⟨-, hafter, hbefore⟩ := hapart
  intro j hj
  rcases List.mem_append.mp hj with hj | hj
  · exact (hbefore _ (List.mem_map_of_mem hj) _ List.mem_cons_self).symm
  · exact (List.pairwise_cons.mp hafter).1 _ (List.mem_map_of_mem hj)

/-- **A file meets what it meets alone**, as long as it has not written itself. -/
theorem Tracks.alikeFor {before after : List Item} {i : Item} (h : Tracks mode files d b)
    (hapart : files.Pairwise fun f g => d.Apart f.path.toList g.path.toList)
    (hitems : b.items = before ++ i :: after)
    (hfree : i.trace mode d = d.entry? (d.goal i.file.path.toList)) :
    Disk.AlikeFor i.file.path.toList d b.disk := by
  refine ⟨h.working, fun l hl => ?_⟩
  by_cases hgoal : l = d.goal i.file.path.toList
  · subst hgoal
    rw [h.own i (by simp [hitems]), hfree]
  · refine h.other l fun f hf => ?_
    rw [← h.files_eq, hitems] at hf
    obtain ⟨j, hj, rfl⟩ := List.mem_map.mp hf
    rcases List.mem_append.mp hj with hj | hj
    · -- the goal of another file is nowhere on the way
      rintro rfl
      exact (h.apart_of_ne hapart hitems j (List.mem_append_left after hj)).2 hl
    · rcases List.mem_cons.mp hj with rfl | hj
      · exact hgoal
      · rintro rfl
        exact (h.apart_of_ne hapart hitems j (List.mem_append_right before hj)).2 hl

/-- One file of a batch comes further, and at most its goal is touched. -/
theorem Tracks.replace {before after : List Item} {i i' : Item} {d₁ d₂ : Disk}
    (h : Tracks mode files d ⟨before ++ i :: after, d₁⟩)
    (hapart : files.Pairwise fun f g => d.Apart f.path.toList g.path.toList) (hfile : i'.file = i.file)
    (hworking : d₂.workingFolder = d₁.workingFolder) (hfaithful : i'.Faithful mode d)
    (hown : d₂.entry? (d.goal i.file.path.toList) = i'.trace mode d)
    (hother : ∀ l, l ≠ d.goal i.file.path.toList → d₂.entry? l = d₁.entry? l)
    (hkept : mode = .check → d₂ = d₁) :
    Tracks mode files d ⟨before ++ i' :: after, d₂⟩ := by
  have hapart' := h.apart_of_ne hapart rfl
  have hrest : ∀ j ∈ before ++ after, d₂.entry? (d.goal j.file.path.toList) = j.trace mode d := by
    intro j hj
    rw [hother _ (hapart' j hj).goal_ne.symm]
    refine h.own j ?_
    rcases List.mem_append.mp hj with hj | hj <;> simp [hj]
  refine ⟨?_, hworking.trans h.working, ?_, ?_, fun l hl => ?_, fun hmode => ?_⟩
  · rw [← h.files_eq]
    simp [hfile]
  · intro j hj
    rcases List.mem_append.mp hj with hj | hj
    · exact h.faithful j (by simp [hj])
    · rcases List.mem_cons.mp hj with rfl | hj
      · exact hfaithful
      · exact h.faithful j (by simp [hj])
  · intro j hj
    rcases List.mem_append.mp hj with hj | hj
    · exact hrest j (List.mem_append_left after hj)
    · rcases List.mem_cons.mp hj with rfl | hj
      · rw [hfile]
        exact hown
      · exact hrest j (List.mem_append_right before hj)
  · have hi : i.file ∈ files := by
      rw [← h.files_eq]
      simp
    exact (hother l (hl i.file hi)).trans (h.other l hl)
  · exact (hkept hmode).trans (h.kept hmode)

/-- **What one action keeps.** -/
theorem Tracks.step (h : Tracks mode files d b)
    (hapart : files.Pairwise fun f g => d.Apart f.path.toList g.path.toList) (hstep : Step mode b b') :
    Tracks mode files d b' := by
  obtain @⟨before, after, ⟨f, stage⟩, stage', d₁, d₂, hnext⟩ := hstep
  have hfaithful := h.faithful ⟨f, stage⟩ (by simp)
  cases stage with
  | waiting =>
      have halike := h.alikeFor hapart rfl rfl
      have hgoal := h.own ⟨f, .waiting⟩ (by simp)
      simp only [Item.next, Run.readExisting_of_alike halike] at hnext
      cases hread : Run.readExisting f.path d with
      | ok existing =>
          simp only [hread, Option.some.injEq, Prod.mk.injEq] at hnext
          obtain ⟨rfl, rfl⟩ := hnext
          exact h.replace hapart rfl rfl hread hgoal (fun _ _ => rfl) fun _ => rfl
      | error e =>
          simp only [hread, Option.some.injEq, Prod.mk.injEq] at hnext
          obtain ⟨rfl, rfl⟩ := hnext
          have hfate : f.fate mode d = .error e := by
            rw [PendingFile.fate, Run.updated_eq, hread]
            rfl
          have hfree : f.trace mode d = d.entry? (d.goal f.path.toList) :=
            PendingFile.trace_of_ne (by simp [hfate])
          exact h.replace hapart rfl rfl hfate.symm (hgoal.trans hfree.symm) (fun _ _ => rfl) fun _ => rfl
  | compared existing =>
      have halike := h.alikeFor hapart rfl rfl
      have hgoal := h.own ⟨f, .compared existing⟩ (by simp)
      have hread : Run.readExisting f.path d = .ok existing := hfaithful
      simp only [Item.next, Run.concluded_of_alike halike] at hnext
      cases hconcluded : Run.concluded mode f existing d with
      | error e =>
          simp only [hconcluded, Except.map, Option.some.injEq, Prod.mk.injEq] at hnext
          obtain ⟨rfl, rfl⟩ := hnext
          have hfate : f.fate mode d = .error e := by
            rw [PendingFile.fate, Run.updated_eq, hread]
            simp [Except.bind, hconcluded, Except.map]
          have hfree : f.trace mode d = d.entry? (d.goal f.path.toList) :=
            PendingFile.trace_of_ne (by simp [hfate])
          exact h.replace hapart rfl rfl hfate.symm (hgoal.trans hfree.symm) (fun _ _ => rfl) fun _ => rfl
      | ok r =>
          obtain ⟨outcome, alone⟩ := r
          simp only [hconcluded, Except.map, Option.some.injEq, Prod.mk.injEq] at hnext
          obtain ⟨rfl, rfl⟩ := hnext
          have hfate : f.fate mode d = .ok ⟨f.path, outcome⟩ := by
            rw [PendingFile.fate, Run.updated_eq, hread]
            simp [Except.bind, hconcluded, Except.map]
          by_cases hwritten : outcome = .written
          · -- the file stands at its goal now, and nowhere else has anything changed
            subst hwritten
            obtain ⟨hmode, hwrite⟩ := Run.write_of_concluded_written hconcluded
            have hplace : d.goal f.path.toList ≠ [] := by
              intro hnil
              have hfree := (Disk.goal_of_write hwrite).2.2.1
              rw [hnil] at hfree
              exact hfree (by simp)
            refine h.replace hapart rfl rfl hfate.symm ?_ (fun l hl => ?_) fun hcheck => ?_
            · rw [if_pos rfl, Disk.entry?_put _ hplace, if_pos rfl]
              exact (PendingFile.trace_of_written hfate).symm
            · rw [if_pos rfl, Disk.entry?_put _ hplace, if_neg hl]
            · exact absurd (hmode.symm.trans hcheck) (by decide)
          · have hfree : f.trace mode d = d.entry? (d.goal f.path.toList) :=
              PendingFile.trace_of_ne fun heq => hwritten (by simpa [hfate] using heq)
            rw [if_neg hwritten]
            exact h.replace hapart rfl rfl hfate.symm (hgoal.trans hfree.symm) (fun _ _ => rfl) fun _ => rfl
  | done result => exact absurd hnext (by simp [Item.next])

/-- **What any run keeps.** -/
theorem tracks_of_runs (hapart : files.Pairwise fun f g => d.Apart f.path.toList g.path.toList)
    (hruns : Runs mode (start files d) b) : Tracks mode files d b := by
  induction hruns with
  | refl => exact tracks_start mode files d
  | tail _ hstep ih => exact ih.step hapart hstep

/-! ## Finished batches -/

/-- Each file of a finished batch has met its fate, and left its trace. -/
theorem Tracks.of_finished (h : Tracks mode files d b) (hfinished : b.Finished) :
    b.results = files.map (PendingFile.fate mode d)
      ∧ ∀ f ∈ files, b.disk.entry? (d.goal f.path.toList) = f.trace mode d := by
  have hdone : ∀ i ∈ b.items, i.stage = .done (i.file.fate mode d) := by
    intro i hi
    obtain ⟨result, hresult⟩ := hfinished i hi
    have hfaithful := h.faithful i hi
    unfold Item.Faithful at hfaithful
    rw [hresult] at hfaithful ⊢
    exact congrArg _ hfaithful
  rw [← h.files_eq]
  constructor
  · unfold results
    rw [List.map_map, ← List.filterMap_eq_map]
    refine List.filterMap_congr fun i hi => ?_
    rw [hdone i hi]
    rfl
  · intro f hf
    obtain ⟨i, hi, rfl⟩ := List.mem_map.mp hf
    rw [h.own i hi, Item.trace, hdone i hi]

/-- **Two runs that finish leave the same disk.** -/
theorem Tracks.alike (h : Tracks mode files d b) (h' : Tracks mode files d b') (hfinished : b.Finished)
    (hfinished' : b'.Finished) : b.disk.Alike b'.disk := by
  refine ⟨h'.working.trans h.working.symm, fun l => ?_⟩
  by_cases hgoal : ∃ f ∈ files, l = d.goal f.path.toList
  · obtain ⟨f, hf, rfl⟩ := hgoal
    rw [(h.of_finished hfinished).2 f hf, (h'.of_finished hfinished').2 f hf]
  · have hother : ∀ f ∈ files, l ≠ d.goal f.path.toList := fun f hf heq => hgoal ⟨f, hf, heq⟩
    rw [h.other l hother, h'.other l hother]

/-! ## One file after another -/

/-- A file that acts until nothing is left. -/
theorem runs_single (mode : WriteMode) (before after : List Item) (f : PendingFile) (d : Disk) :
    Runs mode ⟨before ++ ⟨f, .waiting⟩ :: after, d⟩
      ⟨before ++ ⟨f, .done (f.fate mode d)⟩ :: after,
        match Run.updated mode f.path f.content d with
        | .ok (_, d') => d'
        | .error _ => d⟩ := by
  unfold PendingFile.fate
  rw [Run.updated_eq]
  cases hread : Run.readExisting f.path d with
  | error e => exact .single (.act (by simp [Item.next, hread, Except.bind, Except.map]))
  | ok existing =>
      have hfirst : Step mode ⟨before ++ ⟨f, .waiting⟩ :: after, d⟩
          ⟨before ++ ⟨f, .compared existing⟩ :: after, d⟩ := .act (by simp [Item.next, hread])
      refine .head hfirst (.single (.act ?_))
      simp only [Item.next, Except.bind]
      cases Run.concluded mode f existing d with
      | error e => rfl
      | ok r => rfl

/-- **One after another** is one of the orders in which files can act. -/
theorem runs_attemptAll (mode : WriteMode) : ∀ (files : List PendingFile) (before : List Item) (d : Disk),
    Runs mode ⟨before ++ files.map fun f => ⟨f, .waiting⟩, d⟩
      ⟨before ++ List.zipWith (fun f result => ⟨f, .done result⟩) files (Run.attemptAll mode d files).1,
        (Run.attemptAll mode d files).2⟩
  | [], before, d => .refl
  | f :: rest, before, d => by
      have hfirst := runs_single mode before (rest.map fun g => ⟨g, .waiting⟩) f d
      have hrest (d₁ : Disk) := runs_attemptAll mode rest (before ++ [⟨f, .done (f.fate mode d)⟩]) d₁
      rw [List.map_cons, Run.attemptAll]
      cases hupdated : Run.updated mode f.path f.content d with
      | error e =>
          rw [hupdated] at hfirst
          refine hfirst.trans ?_
          simpa [PendingFile.fate, hupdated, Except.map] using hrest d
      | ok r =>
          obtain ⟨outcome, d₁⟩ := r
          rw [hupdated] at hfirst
          refine hfirst.trans ?_
          simpa [PendingFile.fate, hupdated, Except.map] using hrest d₁

theorem length_attemptAll (mode : WriteMode) : ∀ (files : List PendingFile) (d : Disk),
    (Run.attemptAll mode d files).1.length = files.length
  | [], _ => rfl
  | f :: rest, d => by
      rw [Run.attemptAll]
      split <;> simp [length_attemptAll mode rest]

/-- The batch whose files were updated one after another. -/
theorem exists_runs_attemptAll (mode : WriteMode) (files : List PendingFile) (d : Disk) :
    ∃ b, Runs mode (start files d) b ∧ b.Finished ∧ b.results = (Run.attemptAll mode d files).1
      ∧ b.disk = (Run.attemptAll mode d files).2 := by
  refine ⟨_, runs_attemptAll mode files [] d, fun i hi => ?_, ?_, rfl⟩
  · rw [List.nil_append, ← List.map_uncurry_zip_eq_zipWith] at hi
    obtain ⟨⟨f, result⟩, -, rfl⟩ := List.mem_map.mp hi
    exact ⟨result, rfl⟩
  · unfold results
    simp only [List.nil_append]
    rw [← List.map_uncurry_zip_eq_zipWith, List.filterMap_map]
    show List.filterMap (some ∘ Prod.snd) (files.zip (Run.attemptAll mode d files).1) = _
    rw [List.filterMap_eq_map, List.map_snd_zip (length_attemptAll mode files d).le]

/-! ## No batch gets stuck -/

/-- How many actions a file has left at most. -/
def Stage.left : Stage → Nat
  | .waiting => 2
  | .compared _ => 1
  | .done _ => 0

/-- How many actions a batch has left at most. -/
def left (b : Batch) : Nat := (b.items.map fun i => i.stage.left).sum

theorem Item.left_of_next {i : Item} {d d' : Disk} {stage : Stage}
    (h : i.next mode d = some (stage, d')) : stage.left < i.stage.left := by
  obtain ⟨f, old⟩ := i
  unfold next at h
  cases old with
  | waiting =>
      simp only at h
      split at h <;> obtain ⟨rfl, -⟩ := Prod.mk.inj (Option.some.inj h) <;> simp [Stage.left]
  | compared existing =>
      simp only at h
      split at h <;> obtain ⟨rfl, -⟩ := Prod.mk.inj (Option.some.inj h) <;> simp [Stage.left]
  | done result => exact absurd h (by simp)

/-- **Every action leaves fewer to come.** -/
theorem Step.left_lt (h : Step mode b b') : b'.left < b.left := by
  obtain @⟨before, after, i, stage, d, d', hnext⟩ := h
  have hless := Item.left_of_next hnext
  unfold left
  simp only [List.map_append, List.map_cons, List.sum_append, List.sum_cons]
  omega

/-- As long as a batch is not finished one of its files can act. -/
theorem exists_step (mode : WriteMode) (h : ¬ b.Finished) : ∃ b', Step mode b b' := by
  obtain ⟨items, d⟩ := b
  unfold Finished at h
  push Not at h
  obtain ⟨i, hi, hopen⟩ := h
  obtain ⟨before, after, rfl⟩ := List.append_of_mem hi
  suffices hnext : ∃ stage d', i.next mode d = some (stage, d') by
    obtain ⟨stage, d', hnext⟩ := hnext
    exact ⟨_, .act hnext⟩
  unfold Item.next
  cases hstage : i.stage with
  | waiting => simp only; split <;> exact ⟨_, _, rfl⟩
  | compared existing => simp only; split <;> exact ⟨_, _, rfl⟩
  | done result => exact absurd hstage (hopen result)

/-- **Whatever has been done, the batch can be finished.** -/
theorem exists_finished (mode : WriteMode) (b : Batch) : ∃ b', Runs mode b b' ∧ b'.Finished := by
  by_cases hfinished : b.Finished
  · exact ⟨b, .refl, hfinished⟩
  · obtain ⟨b₁, hstep⟩ := exists_step mode hfinished
    have := hstep.left_lt
    obtain ⟨b₂, hruns, hfinished₂⟩ := exists_finished mode b₁
    exact ⟨b₂, .head hstep hruns, hfinished₂⟩
  termination_by b.left

/-! ## How a batch ends -/

/-- Results in a row are reports in a row, if none is a failure. -/
theorem eq_map_ok_of_mapM_id :
    ∀ {results : List (Except GenerateError FileReport)} {reports : List FileReport},
      results.mapM id = .ok reports → results = reports.map .ok
  | [], reports, h => by
      obtain rfl := Except.ok.inj h
      rfl
  | result :: rest, reports, h => by
      rw [List.mapM_cons] at h
      obtain ⟨report, hfirst, h⟩ := bind_eq_ok h
      obtain ⟨more, hrest, h⟩ := bind_eq_ok h
      obtain rfl := Except.ok.inj h
      obtain rfl : result = .ok report := hfirst
      rw [List.map_cons, eq_map_ok_of_mapM_id hrest]

/-- Folders stay folders, whatever is written. -/
theorem Tracks.keepsFolders (h : Tracks mode files d b) (hfinished : b.Finished) :
    d.KeepsFolders b.disk := by
  refine ⟨h.working, fun l hl => ?_⟩
  by_cases hgoal : ∃ f ∈ files, l = d.goal f.path.toList
  · obtain ⟨f, hf, rfl⟩ := hgoal
    rw [(h.of_finished hfinished).2 f hf, ← hl]
    refine PendingFile.trace_of_ne fun hwritten => ?_
    -- a file cannot be written over a folder
    obtain ⟨⟨outcome, d'⟩, hupdated, hreport⟩ := map_eq_ok hwritten
    obtain ⟨-, rfl⟩ := FileReport.mk.inj hreport
    rw [Run.updated_eq] at hupdated
    obtain ⟨existing, -, hconcluded⟩ := bind_eq_ok hupdated
    exact (Disk.goal_of_write (Run.write_of_concluded_written hconcluded).2).2.2.1 hl
  · rw [h.other l fun f hf heq => hgoal ⟨f, hf, heq⟩, hl]

/-- **A file that does not fail holds its content** when a batch in write mode has finished. -/
theorem Tracks.read (h : Tracks .write files d b) (hfinished : b.Finished)
    (hapart : files.Pairwise fun f g => d.Apart f.path.toList g.path.toList) {f : PendingFile}
    (hf : f ∈ files) {report : FileReport} (hfate : f.fate .write d = .ok report) :
    b.disk.read f.path.toList = .ok f.bytes := by
  have htrace := (h.of_finished hfinished).2 f hf
  obtain ⟨⟨outcome, d'⟩, hupdated, rfl⟩ := map_eq_ok hfate
  rw [Run.updated_eq] at hupdated
  obtain ⟨existing, hread, hconcluded⟩ := bind_eq_ok hupdated
  rcases Run.concluded_write_eq_ok hconcluded with ⟨rfl, rfl⟩ | ⟨rfl, hwrite⟩
  · -- the file held it before, and nobody has touched it
    rw [PendingFile.trace_of_ne (by simp [hfate])] at htrace
    obtain ⟨i, hi, rfl⟩ := List.mem_map.mp (h.files_eq ▸ hf)
    obtain ⟨before, after, hitems⟩ := List.append_of_mem hi
    have halike : Disk.AlikeFor i.file.path.toList d b.disk :=
      h.alikeFor hapart hitems ((h.own i hi).symm.trans htrace)
    rw [halike.read]
    unfold Run.readExisting at hread
    split at hread
    · next bytes hbytes =>
      obtain rfl := Option.some.inj (Except.ok.inj hread)
      exact hbytes
    · exact absurd hread (by simp)
    · exact absurd hread (by simp)
  · obtain ⟨hslash, hlocate, -, -⟩ := Disk.goal_of_write hwrite
    have hplace := (h.keepsFolders hfinished).locate hslash hlocate
    rw [PendingFile.trace_of_written hfate] at htrace
    unfold Disk.read
    rw [hplace]
    simp only [bind, Except.bind, htrace]
    rfl

/-- **How a batch ends.** -/
structure Ends (mode : WriteMode) (files : List PendingFile) (d : Disk) (b : Batch) : Prop where
  /-- Every file meets the fate that it meets alone. -/
  results : b.results = files.map (PendingFile.fate mode d)
  /-- What is returned is what is returned of one file after another, -/
  returned : b.returned = (Run.updateAll mode files d).1
  /-- and so is the disk. -/
  disk : (Run.updateAll mode files d).2.Alike b.disk
  /-- The reports are in the order of the batch. -/
  ordered : ∀ reports, b.returned = .ok reports →
    reports.map FileReport.path = files.map PendingFile.path
      ∧ files.map (PendingFile.fate mode d) = reports.map .ok
  /-- A failure is that of the first file of the batch that fails. -/
  first : ∀ e, b.returned = .error e →
    ∃ before f after, files = before ++ f :: after ∧ f.fate mode d = .error e
      ∧ ∀ g ∈ before, ∃ report, g.fate mode d = .ok report
  /-- In write mode every file that does not fail itself holds its content. -/
  holds : mode = .write → ∀ f ∈ files, ∀ report, f.fate mode d = .ok report →
    b.disk.read f.path.toList = .ok f.bytes
  /-- In check mode nothing has changed. -/
  kept : mode = .check → b.disk = d
  /-- What has changed is the content of files that did not fail. -/
  confined : ∀ l, b.disk.entry? l ≠ d.entry? l →
    ∃ f ∈ files, f.fate mode d = .ok ⟨f.path, .written⟩ ∧ l = d.goal f.path.toList
      ∧ b.disk.entry? l = some (.file f.bytes)

/-- The reports of files that do not fail are in the order of the files. -/
theorem ordered_of_fates {reports : List FileReport}
    (h : files.map (PendingFile.fate mode d) = reports.map .ok) :
    reports.map FileReport.path = files.map PendingFile.path := by
  induction files generalizing reports with
  | nil => simpa using h.symm
  | cons f rest ih =>
      rcases reports with _ | ⟨report, reports⟩
      · exact absurd h (by simp)
      · obtain ⟨hfirst, hrest⟩ := List.cons.inj h
        obtain ⟨r, -, rfl⟩ := map_eq_ok hfirst
        exact congrArg _ (ih hrest)

/-- The first of the fates that is a failure is that of the first file that fails. -/
theorem first_of_fates {reports : List FileReport} {e : GenerateError}
    {after : List (Except GenerateError FileReport)}
    (h : files.map (PendingFile.fate mode d) = reports.map .ok ++ .error e :: after) :
    ∃ before f rest, files = before ++ f :: rest ∧ f.fate mode d = .error e
      ∧ ∀ g ∈ before, ∃ report, g.fate mode d = .ok report := by
  obtain ⟨before, tail, rfl, hbefore, htail⟩ := List.map_eq_append_iff.mp h
  obtain ⟨f, rest, rfl, hf, -⟩ := List.map_eq_cons_iff.mp htail
  refine ⟨before, f, rest, rfl, hf, fun g hg => ?_⟩
  obtain ⟨report, -, hreport⟩ := List.mem_map.mp (hbefore ▸ List.mem_map_of_mem hg)
  exact ⟨report, hreport.symm⟩

theorem Tracks.ends (h : Tracks mode files d b) (hfinished : b.Finished)
    (hapart : files.Pairwise fun f g => d.Apart f.path.toList g.path.toList) : Ends mode files d b := by
  obtain ⟨b₀, hruns₀, hfinished₀, hresults₀, hdisk₀⟩ := exists_runs_attemptAll mode files d
  have h₀ := tracks_of_runs hapart hruns₀
  have hresults := (h.of_finished hfinished).1
  have hreports (reports : List FileReport) (hreturned : b.returned = .ok reports) :
      files.map (PendingFile.fate mode d) = reports.map .ok :=
    hresults.symm.trans (eq_map_ok_of_mapM_id hreturned)
  refine ⟨hresults, ?_, ?_, fun reports hreturned => ?_, fun e hreturned => ?_,
    fun hmode f hf report hfate => ?_, h.kept, fun l hl => ?_⟩
  · rw [Run.updateAll_apply, ← hresults₀, (h₀.of_finished hfinished₀).1, ← hresults]
    rfl
  · rw [Run.updateAll_apply, ← hdisk₀]
    exact h₀.alike h hfinished₀ hfinished
  · exact ⟨ordered_of_fates (hreports reports hreturned), hreports reports hreturned⟩
  · obtain ⟨reports, after, hfirst⟩ := Run.first_of_mapM_id hreturned
    exact first_of_fates (hresults.symm.trans hfirst)
  · subst hmode
    exact h.read hfinished hapart hf hfate
  · have hgoal : ∃ f ∈ files, l = d.goal f.path.toList := by
      by_contra hnone
      exact hl (h.other l fun f hf heq => hnone ⟨f, hf, heq⟩)
    obtain ⟨f, hf, rfl⟩ := hgoal
    have htrace := (h.of_finished hfinished).2 f hf
    have hwritten : f.fate mode d = .ok ⟨f.path, .written⟩ := by
      by_contra hother
      exact hl (htrace.trans (PendingFile.trace_of_ne hother))
    exact ⟨f, hf, hwritten, rfl, htrace.trans (PendingFile.trace_of_written hwritten)⟩

/-- **Every order of a batch ends alike.**  Files whose paths are apart may act in any order: no order gets
stuck, and every one that has finished has returned what one file after another returns, and has left the
same disk. -/
theorem ends_of_runs {mode : WriteMode} {files : List PendingFile} {d : Disk} {b : Batch}
    (hapart : files.Pairwise fun f g => d.Apart f.path.toList g.path.toList)
    (hruns : Runs mode (start files d) b) :
    (∃ b', Runs mode b b' ∧ b'.Finished) ∧ (b.Finished → Ends mode files d b) :=
  ⟨exists_finished mode b, fun hfinished => (tracks_of_runs hapart hruns).ends hfinished hapart⟩

/-- Two files, and between them one whose folder does not exist. -/
def notes : List PendingFile := [⟨"a", "x"⟩, ⟨"no/b", "y"⟩, ⟨"c", "z"⟩]

/-- The files as far as they have come. -/
def notesAt (first second third : Stage) (d : Disk) : Batch :=
  ⟨[⟨⟨"a", "x"⟩, first⟩, ⟨⟨"no/b", "y"⟩, second⟩, ⟨⟨"c", "z"⟩, third⟩], d⟩

/-- The last file is written while the first has only been read; the failure is that of the second, and
both others are there. -/
theorem ends_of_runs_notes :
    notes.Pairwise (fun f g => workplace.Apart f.path.toList g.path.toList)
      ∧ ∃ b, Runs .write (start notes workplace) b ∧ b.Finished ∧ Ends .write notes workplace b
        ∧ b.returned = .error (.writeFailed "no/b" .notFound)
        ∧ b.disk.read "a".toList = .ok [120] ∧ b.disk.read "c".toList = .ok [122] := by
  have hapart : notes.Pairwise (fun f g => workplace.Apart f.path.toList g.path.toList) := by decide
  let withThird := workplace.put ["box", "work", "c"] (.file [122])
  let withBoth := withThird.put ["box", "work", "a"] (.file [120])
  let written (path : String) : Stage := .done (.ok ⟨path, .written⟩)
  let failed : Stage := .done (.error (.writeFailed "no/b" .notFound))
  have hreadThird : Step .write (notesAt .waiting .waiting .waiting workplace)
      (notesAt .waiting .waiting (.compared none) workplace) := @Step.act _ [_, _] [] _ _ _ _ rfl
  have hreadFirst : Step .write (notesAt .waiting .waiting (.compared none) workplace)
      (notesAt (.compared none) .waiting (.compared none) workplace) := @Step.act _ [] [_, _] _ _ _ _ rfl
  have hwriteThird : Step .write (notesAt (.compared none) .waiting (.compared none) workplace)
      (notesAt (.compared none) .waiting (written "c") withThird) := @Step.act _ [_, _] [] _ _ _ _ rfl
  have hreadSecond : Step .write (notesAt (.compared none) .waiting (written "c") withThird)
      (notesAt (.compared none) (.compared none) (written "c") withThird) := @Step.act _ [_] [_] _ _ _ _ rfl
  have hwriteFirst : Step .write (notesAt (.compared none) (.compared none) (written "c") withThird)
      (notesAt (written "a") (.compared none) (written "c") withBoth) := @Step.act _ [] [_, _] _ _ _ _ rfl
  have hfail : Step .write (notesAt (written "a") (.compared none) (written "c") withBoth)
      (notesAt (written "a") failed (written "c") withBoth) := @Step.act _ [_] [_] _ _ _ _ rfl
  have hruns : Runs .write (start notes workplace) (notesAt (written "a") failed (written "c") withBoth) :=
    .head hreadThird (.head hreadFirst (.head hwriteThird (.head hreadSecond
      (.head hwriteFirst (.single hfail)))))
  have hfinished : (notesAt (written "a") failed (written "c") withBoth).Finished := by
    simp [Finished, notesAt, written, failed]
  exact ⟨hapart, _, hruns, hfinished, (ends_of_runs hapart hruns).2 hfinished, rfl, rfl, rfl⟩

/-- **Plain paths of one origin** need only be different, none of them an ancestor of another: then every order
ends alike. -/
theorem ends_of_runs_plain {mode : WriteMode} {files : List PendingFile} {d : Disk} {b : Batch}
    (hplain : ∀ f ∈ files, Disk.IsPlainPath f.path.toList)
    (horigin : ∀ f ∈ files, ∀ g ∈ files, d.origin f.path.toList = d.origin g.path.toList)
    (hunrelated : files.Pairwise fun f g => ¬ Disk.steps f.path.toList <+: Disk.steps g.path.toList
      ∧ ¬ Disk.steps g.path.toList <+: Disk.steps f.path.toList)
    (hruns : Runs mode (start files d) b) :
    (∃ b', Runs mode b b' ∧ b'.Finished) ∧ (b.Finished → Ends mode files d b) := by
  have hapart : files.Pairwise fun f g => d.Apart f.path.toList g.path.toList :=
    hunrelated.imp_of_mem fun hf hg => (Disk.apart_iff (hplain _ hf) (hplain _ hg) (horigin _ hf _ hg)).mpr
  exact ⟨exists_finished mode b, fun hfinished => (tracks_of_runs hapart hruns).ends hfinished hapart⟩

end Batch

end DecoderForge
