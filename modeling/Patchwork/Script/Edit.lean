/-!
Edit scripts between two sequences: stretches that are kept, deleted or inserted, in order. What a
script reads is its old side, what it writes its new side; a script fits two sequences when these
are its sides.
-/
namespace Patchwork

/-- One stretch of an edit script. -/
inductive Edit (α : Type) where
  | keep (items : List α)
  | delete (items : List α)
  | insert (items : List α)
deriving DecidableEq, Repr

namespace Edit
variable {α : Type}

/-- The items of the stretch. -/
def items : Edit α → List α
  | keep xs => xs
  | delete xs => xs
  | insert xs => xs

/-- What the stretch reads. -/
def old : Edit α → List α
  | keep xs => xs
  | delete xs => xs
  | insert _ => []

/-- What the stretch writes. -/
def new : Edit α → List α
  | keep xs => xs
  | delete _ => []
  | insert xs => xs

/-- The same kind of stretch over other items. -/
def withItems (e : Edit α) (xs : List α) : Edit α :=
  match e with
  | keep _ => keep xs
  | delete _ => delete xs
  | insert _ => insert xs

/-- What happens to a stretch that is not kept. -/
inductive Kind where
  | deletion
  | insertion
deriving DecidableEq, Repr

/-- What happens to the stretch, unless it is kept. -/
def kind? : Edit α → Option Kind
  | keep _ => none
  | delete _ => some .deletion
  | insert _ => some .insertion

end Edit

/-- Stretches in order. -/
abbrev EditScript (α : Type) := List (Edit α)

namespace EditScript
variable {α : Type}

/-- The sequence that the script reads. -/
def old (s : EditScript α) : List α := s.flatMap Edit.old

/-- The sequence that the script writes. -/
def new (s : EditScript α) : List α := s.flatMap Edit.new

/-- The script turns `xs` into `ys`. -/
def Fits (s : EditScript α) (xs ys : List α) : Prop := s.old = xs ∧ s.new = ys

end EditScript
end Patchwork
