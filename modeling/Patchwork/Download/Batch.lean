import Patchwork.Download.Fetch
/-!
Downloading several files. The members of a batch take turns in any order, one stage at a time;
which order is given by a schedule. One failure fails the batch and removes what all members put in
place.
-/
namespace Patchwork

/-- How far a member of a batch has come. -/
inductive BatchStage where
  | waiting
  | roomy
  | obtained (bytes : ByteArray) (artifact : Artifact)
  | placed (artifact : Artifact)
  | stopped

/-- A member of a batch. -/
structure BatchMember where
  download : Download
  stage : BatchStage

/-- The members of a batch in the order of the requests, and the first failure. -/
structure Batch where
  members : List BatchMember
  failure : Option Failure

namespace Batch

/-- A batch that was not begun. -/
def ofDownloads (rs : List Download) : Batch := ⟨rs.map fun r => ⟨r, .waiting⟩, none⟩

/-- The next stage of a member. -/
def nextStage (m : BatchMember) : Action BatchStage :=
  match m.stage with
  | .waiting => do
    m.download.makeRoom
    return .roomy
  | .roomy => do
    let (bytes, artifact) ← m.download.obtain
    return .obtained bytes artifact
  | .obtained bytes artifact => do
    m.download.install bytes
    return .placed artifact
  | stage => return stage

/-- Lets the member at an index take a turn. A failure is kept if it is the first. -/
def turn (b : Batch) (index : Nat) : Action Batch := do
  match b.members[index]? with
  | none => return b
  | some m =>
    tryCatch
      (do
        let stage ← nextStage m
        return { b with members := b.members.set index { m with stage } })
      fun e =>
        return {
          members := b.members.set index { m with stage := .stopped }
          failure := b.failure <|> some e }

/-- Lets members take turns by a schedule of their indices. -/
def run (b : Batch) (schedule : List Nat) : Action Batch := schedule.foldlM turn b

/-- The artifact of a member that is in place. -/
def placed? (m : BatchMember) : Option Artifact :=
  match m.stage with
  | .placed artifact => some artifact
  | _ => none

/-- The schedule that finishes each of so many members before it begins the next. -/
def inOrder (count : Nat) : List Nat :=
  (List.range count).flatMap fun index => [index, index, index]

/-- Downloads all files of a batch by a schedule, or none of them. -/
def fetchBy (schedule : List Nat) (rs : List Download) : Action (List Artifact) := do
  let b ← (ofDownloads rs).run schedule
  match b.failure with
  | none => return b.members.filterMap placed?
  | some e =>
    rs.forM Download.discard
    throw e

/-- Downloads all files of a batch, or none of them. -/
def fetch (rs : List Download) : Action (List Artifact) := fetchBy (inOrder rs.length) rs

/-- Tells the files that are in place from those that are to be downloaded. -/
def sortOut : List Download → Action (List Artifact × List Download)
  | [] => return ([], [])
  | r :: rest => do
    match ← r.reusable? with
    | some artifact => do
      let (reused, pending) ← sortOut rest
      return (artifact :: reused, pending)
    | none => do
      let (reused, pending) ← sortOut rest
      return (reused, r :: pending)

/-- Downloads the files that are not in place with the expected digest. The files that were in place
come first in the answer. -/
def ensure (rs : List Download) : Action (List Artifact) := do
  let (reused, pending) ← sortOut rs
  return reused ++ (← fetch pending)

end Batch
end Patchwork
