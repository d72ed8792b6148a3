import Patchwork.Script.Edit
/-!
The changes of an edit script: neighbouring deletions and insertions joined, each change with the
kept items in front of it.
-/
namespace Patchwork

/-- A change and what is kept between the change before it and this one. -/
structure Change (α : Type) where
  kept : List α
  deleted : List α
  inserted : List α
deriving DecidableEq, Repr

namespace Change
variable {α : Type}

/-- What the change reads, with the kept items in front. -/
def old (c : Change α) : List α := c.kept ++ c.deleted

/-- What the change writes, with the kept items in front. -/
def new (c : Change α) : List α := c.kept ++ c.inserted

end Change

/-- The changes of a script in order, and what is kept after the last one. -/
structure Changes (α : Type) where
  changes : List (Change α)
  tail : List α

namespace EditScript
variable {α : Type}

/-- Reads the changes off a script. `kept` are the kept items since the last change; `opened` holds
what is deleted and inserted since then, if anything was. -/
def collect : List α → Option (List α × List α) → EditScript α → Changes α
  | kept, none, [] => ⟨[], kept⟩
  | kept, some (ds, is), [] => ⟨[⟨kept, ds, is⟩], []⟩
  | kept, none, .keep xs :: rest => collect (kept ++ xs) none rest
  | kept, some (ds, is), .keep xs :: rest =>
    let more := collect xs none rest
    ⟨⟨kept, ds, is⟩ :: more.changes, more.tail⟩
  | kept, opened, .delete xs :: rest =>
    let (ds, is) := opened.getD ([], [])
    collect kept (some (ds ++ xs, is)) rest
  | kept, opened, .insert xs :: rest =>
    let (ds, is) := opened.getD ([], [])
    collect kept (some (ds, is ++ xs)) rest

/-- The changes of a script. -/
def changes (s : EditScript α) : Changes α := collect [] none s

end EditScript
end Patchwork
