import DecoderForge.Diff.Unified
import DecoderForge.Disk.Basic
import DecoderForge.Plan

/-!
# DecoderForge — writing only what changes

A file is written only if its bytes differ; in check mode nothing is written and the differences are
reported.

* `Run.update` — one file.
* `Run.updateAll` — several files; all are attempted, and the first failure counts.
-/

namespace DecoderForge

/-- Whether files are written or only compared. -/
inductive WriteMode where
  | write
  | check
deriving DecidableEq, Repr

/-- What became of a file. -/
inductive WriteOutcome where
  | written
  | unchanged
  /-- It would have been written; the differences are given. -/
  | stale (diff : String)
deriving DecidableEq, Repr

/-- A file with what became of it. -/
structure FileReport where
  path : String
  outcome : WriteOutcome
deriving DecidableEq, Repr

/-- A computation on a disk; what it did before a failure stays done. -/
abbrev Run := ExceptT GenerateError (StateM Disk)

namespace Run

/-- The bytes of a file that may be missing. -/
def readExisting (path : String) (d : Disk) : Except GenerateError (Option (List UInt8)) :=
  match d.read path.toList with
  | .ok bytes => .ok (some bytes)
  | .error .notFound => .ok none
  | .error f => .error (.writeFailed path f)

/-- What becomes of one file, and the disk afterwards. -/
def updated (mode : WriteMode) (path content : String) (d : Disk) :
    Except GenerateError (WriteOutcome × Disk) := do
  let existing ← readExisting path d
  let bytes := Text.encode content.toList
  if existing == some bytes then return (.unchanged, d)
  match mode with
  | .check =>
    let old := Text.decodeLossy (existing.getD [])
    return (.stale (Diff.unified path old content.toList), d)
  | .write =>
    match d.write path.toList bytes with
    | .ok d => return (.written, d)
    | .error f => throw (.writeFailed path f)

/-- Writes a file unless it holds the content already. -/
def update (mode : WriteMode) (path content : String) : Run WriteOutcome := do
  match updated mode path content (← get) with
  | .ok (outcome, d) =>
    set d
    return outcome
  | .error e => throw e

/-- Attempts to write every file; the outcomes are in order. -/
def attemptAll (mode : WriteMode) (d : Disk) :
    List PendingFile → List (Except GenerateError FileReport) × Disk
  | [] => ([], d)
  | f :: rest =>
    match updated mode f.path f.content d with
    | .ok (outcome, d) =>
      let (more, d) := attemptAll mode d rest
      (.ok ⟨f.path, outcome⟩ :: more, d)
    | .error e =>
      let (more, d) := attemptAll mode d rest
      (.error e :: more, d)

/-- Writes every file; the first failure counts. -/
def updateAll (mode : WriteMode) (files : List PendingFile) : Run (List FileReport) := do
  let (results, d) := attemptAll mode (← get) files
  set d
  match results.mapM id with
  | .ok reports => return reports
  | .error e => throw e

end Run

end DecoderForge
