import Patchwork.Release.Catalog
import Patchwork.Workspace.Migrate
/-!
Following the releases. Of the version directories the one that follows the newest release is moved
to a release that came out later, if there is one.
-/
namespace Patchwork

/-- A version directory by name, and the release that it follows. -/
structure TrackedVersion where
  dir : String
  version : String
deriving DecidableEq, Repr

/-- Which release to move to: one of a kind, where `none` stands for any, and the next one or the
latest. -/
structure UpdatePolicy where
  kind : Option String
  latest : Bool
deriving DecidableEq, Repr

namespace Workspace

/-- The release that a version directory follows; other directories follow none. -/
def tracked? (w : Workspace) (name : String) : Action (Option TrackedVersion) := do
  let dir := w.versionDir name
  if ← Action.isFile (Profile.fileIn dir) then
    let profile ← Profile.load dir
    return some ⟨name, profile.version⟩
  else return none

/-- The version directories in order. -/
def tracked (w : Workspace) : Action (List TrackedVersion) := do
  if ← Action.isDir w.versions then
    let names ← Action.ask (.listing w.versions.text) (·.names w.versions)
    return (← names.mapM w.tracked?).filterMap id
  else return []

end Workspace

namespace UpdatePolicy

/-- The release to move to from another one, before times are compared. -/
def candidate? (policy : UpdatePolicy) (c : Catalog) (current : Release) : Option Release :=
  (if policy.latest then c.first? policy.kind else c.successor? current.id policy.kind).filter
    fun r => r.id != current.id

/-- The release to move to from another one: it must have come out later. -/
def target? (policy : UpdatePolicy) (c : Catalog) (current : Release) :
    Outcome (Option Release) := do
  match policy.candidate? c current with
  | none => return none
  | some r =>
    let later ← r.instant
    let earlier ← current.instant
    return if earlier.earlier later then some r else none

end UpdatePolicy

/-- The newest release that is tracked, and the directory that follows it. -/
def newestTracked (w : Workspace) (c : Catalog) (tracked : List TrackedVersion) :
    Outcome (Release × String) := do
  if tracked.isEmpty then throw (.usage (.noVersionDirs w.versions.text))
  match ← c.newestAmong (tracked.map TrackedVersion.version) with
  | none => throw (.usage .noneInCatalog)
  | some current =>
    let dir := (tracked.find? fun t => t.version == current.id).map TrackedVersion.dir
    return (current, dir.getD current.id)

/-- Moves the directory that follows the newest release, if a later release is wanted. -/
def Workspace.update (s : Surroundings) (w : Workspace) (c : Catalog) (policy : UpdatePolicy) :
    Action (Option Migration) := do
  let tracked ← w.tracked
  let (current, dir) ← Action.ofOutcome (newestTracked w c tracked)
  match ← Action.ofOutcome (policy.target? c current) with
  | none => return none
  | some r =>
    let migration : Migration := ⟨dir, r.id⟩
    migration.run s w
    return some migration

end Patchwork
