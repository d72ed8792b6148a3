import Patchwork.Proofs.Patch.Compared
import Patchwork.Proofs.Patch.Windows

/-! The lines of a result.  They are the file's lines that were kept and the lines that
applied hunks insert, put one after another (`Composed`).  Each carries its own newline, so
cutting the result gives them back exactly when none but the last lacks one.  Two lines
are joined only behind an inserted line that lacks its newline, or where lines were
inserted behind a file's last line that does (`composed_of_made`). -/

namespace Patchwork

/-- A line of a result: one of the file's, or one that a hunk inserts. -/
inductive Piece where
  | kept (line : String)
  | inserted (line : String)
deriving DecidableEq

namespace Piece

def text : Piece → String
  | kept t => t
  | inserted t => t

/-- The file's line, if it is one. -/
def kept? : Piece → Option String
  | kept t => some t
  | inserted _ => none

/-- The inserted line, if it is one. -/
def inserted? : Piece → Option String
  | kept _ => none
  | inserted t => some t

end Piece

namespace HunkRun

/-- The hunks that are applied. -/
def appliedHunks (slots : List Slot) : List Hunk :=
  (slots.filter fun slot => slot.accepted?.isSome).map Prod.fst

/-! ## Where the lines of a result come from -/

/-- Some lines, the lines that are kept of them and the lines that are inserted. -/
structure Drawn (xs inserted out : List String) (pieces : List Piece) : Prop where
  text : pieces.map Piece.text = out
  kept : (pieces.filterMap Piece.kept?).Sublist xs
  inserted : pieces.filterMap Piece.inserted? = inserted

theorem Drawn.append {xs xs' ins ins' out out' : List String} {ps ps' : List Piece}
    (h : Drawn xs ins out ps) (h' : Drawn xs' ins' out' ps') :
    Drawn (xs ++ xs') (ins ++ ins') (out ++ out') (ps ++ ps') := by
  constructor
  · rw [List.map_append, h.text, h'.text]
  · rw [List.filterMap_append]
    exact h.kept.append h'.kept
  · rw [List.filterMap_append, h.inserted, h'.inserted]

theorem drawn_kept (xs : List String) : Drawn xs [] xs (xs.map .kept) := by
  constructor
  · rw [List.map_map]
    exact List.map_id xs
  · rw [List.filterMap_map]
    exact List.filterMap_some ▸ List.Sublist.refl _
  · rw [List.filterMap_map]
    exact List.filterMap_eq_nil_iff.mpr fun _ _ => rfl

theorem Put.drawn {body : List PatchLine} {window out : List String} (put : Put body window out) :
    ∃ pieces, Drawn window (body.filterMap PatchLine.inserted?) out pieces := by
  induction put with
  | done => exact ⟨[], rfl, .slnil, rfl⟩
  | context text line _ ih =>
    obtain ⟨pieces, drawn⟩ := ih
    exact ⟨_, (drawn_kept [line]).append drawn⟩
  | delete text line _ ih =>
    obtain ⟨pieces, drawn⟩ := ih
    exact ⟨pieces, drawn.text, drawn.kept.cons line, drawn.inserted⟩
  | insert text _ ih =>
    obtain ⟨pieces, drawn⟩ := ih
    exact ⟨.inserted text :: pieces, congrArg _ drawn.text, drawn.kept, congrArg _ drawn.inserted⟩

/-- Every line of a text with windows replaced is one of the file's or of a hunk's. -/
theorem Spliced.drawn {line : Nat} {xs out : List String} {ps : List Placement}
    (spliced : Spliced line xs ps out) :
    ∃ pieces, Drawn xs (ps.flatMap fun p => p.body.filterMap PatchLine.inserted?) out pieces := by
  induction spliced with
  | kept line xs => exact ⟨_, drawn_kept xs⟩
  | window start covers put after ih =>
    obtain ⟨pieces, drawn⟩ := ih
    obtain ⟨middle, put⟩ := put.drawn
    exact ⟨_, (drawn_kept _).append (put.append drawn)⟩

end HunkRun

/-- A placement inserts all that its hunk inserts; what it may leave out is context. -/
theorem Placement.Justified.inserted {lines : Array String} {tolerance : Tolerance} {h : Hunk}
    {p : Placement} (justified : p.Justified lines tolerance h) :
    p.body.filterMap PatchLine.inserted? = h.lines.filterMap PatchLine.inserted? := by
  obtain ⟨-, rests⟩ := justified
  split at rests
  · rw [rests.2.1]
  · obtain ⟨-, -, ⟨front, back, split, -, -, context⟩, -⟩ := rests
    -- fuzz leaves out lines at the ends of the hunk, and only context
    have none {ls : List PatchLine} (h : ∀ l ∈ ls, l.isContext) :
        ls.filterMap PatchLine.inserted? = [] :=
      List.filterMap_eq_nil_iff.mpr fun l hl => by
        have := h l hl
        cases l <;> simp_all [PatchLine.isContext, PatchLine.inserted?]
    rw [split, List.filterMap_append, List.filterMap_append,
      none fun l hl => context l (List.mem_append_left _ hl),
      none fun l hl => context l (List.mem_append_right _ hl), List.nil_append, List.append_nil]
  · rw [rests.1]

namespace HunkRun

/-- What the placements insert is what the applied hunks insert. -/
theorem flatMap_inserted {lines : Array String} {tolerance : Tolerance} {slots : List Slot}
    (justified : ∀ slot ∈ slots, slot.Justified lines tolerance) :
    ((slots.filterMap Slot.accepted?).flatMap fun p => p.body.filterMap PatchLine.inserted?) =
      (appliedHunks slots).flatMap fun h => h.lines.filterMap PatchLine.inserted? := by
  induction slots with
  | nil => rfl
  | cons slot slots ih =>
    obtain ⟨first, others⟩ := List.forall_mem_cons.mp justified
    cases accepted : slot.accepted? with
    | none =>
      have rest : appliedHunks (slot :: slots) = appliedHunks slots := by
        simp [appliedHunks, accepted]
      rw [List.filterMap_cons_none accepted, rest, ih others]
    | some p =>
      have applied : appliedHunks (slot :: slots) = slot.1 :: appliedHunks slots := by
        simp [appliedHunks, accepted]
      have placed := first p (Slot.accepted?_eq_some_iff.mp accepted).1
      rw [List.filterMap_cons_some accepted, applied, List.flatMap_cons, List.flatMap_cons,
        placed.inserted, ih others]

/-! ## Where lines are joined -/

/-- **A result and the lines that it is made of.** -/
structure Composed (text : String) (slots : List Slot) (run : HunkRun) (pieces : List Piece) :
    Prop where
  content : run.content = Text.join (pieces.map Piece.text)
  /-- The lines are the file's with the windows of the applied hunks replaced. -/
  spliced : Spliced 0 (Text.lines text) (slots.filterMap Slot.accepted?) (pieces.map Piece.text)
  kept : (pieces.filterMap Piece.kept?).Sublist (Text.lines text)
  inserted : pieces.filterMap Piece.inserted? =
    (appliedHunks slots).flatMap fun h => h.lines.filterMap PatchLine.inserted?
  /-- Cutting the result gives the lines back unless one is empty, or one that is not the
  last lacks its newline. -/
  split : Text.lines run.content = pieces.map Piece.text ↔
    "" ∉ pieces.map Piece.text ∧ ∀ t ∈ (pieces.map Piece.text).dropLast, Text.endsLine t
  /-- A line that lacks its newline in front of others is inserted, or it is the file's last
  line and all behind it are inserted. -/
  joined : ∀ front x back, pieces = front ++ x :: back → back ≠ [] → ¬ Text.endsLine x.text →
    (∃ t, x = .inserted t) ∨
      (Text.lines text).getLast? = some x.text ∧ ∀ y ∈ back, ∃ t, y = .inserted t

/-- Lines of a text and of hunks have newlines at their ends alone. -/
theorem isLine_of_drawn {text : String} {hunks : List Hunk} {out : List String}
    {pieces : List Piece} (formed : ∀ h ∈ hunks, h.WellFormed)
    (drawn : Drawn (Text.lines text)
      (hunks.flatMap fun h => h.lines.filterMap PatchLine.inserted?) out pieces) :
    ∀ x ∈ pieces, Text.IsLine x.text.toList := by
  intro x hx
  cases x with
  | kept t =>
    have mem : t ∈ Text.lines text := drawn.kept.subset (List.mem_filterMap.mpr ⟨.kept t, hx, rfl⟩)
    exact (Text.cut_lines text).isLine (List.mem_map_of_mem mem)
  | inserted t =>
    have mem : t ∈ pieces.filterMap Piece.inserted? := List.mem_filterMap.mpr ⟨.inserted t, hx, rfl⟩
    rw [drawn.inserted] at mem
    obtain ⟨h, hh, mem⟩ := List.mem_flatMap.mp mem
    obtain ⟨l, hl, inserted⟩ := List.mem_filterMap.mp mem
    cases l with
    | context | delete => cases inserted
    | insert =>
      cases inserted
      exact (formed h hh).lines.isLine hl

theorem joined_of_drawn {text : String} {ins out : List String} {pieces : List Piece}
    (drawn : Drawn (Text.lines text) ins out pieces) {front back : List Piece} {x : Piece}
    (split : pieces = front ++ x :: back) (unended : ¬ Text.endsLine x.text) :
    (∃ t, x = .inserted t) ∨
      (Text.lines text).getLast? = some x.text ∧ ∀ y ∈ back, ∃ t, y = .inserted t := by
  cases x with
  | inserted t => exact .inl ⟨t, rfl⟩
  | kept t =>
    -- of the kept lines only the file's last can lack its newline
    have among := drawn.kept
    rw [split, List.filterMap_append] at among
    obtain ⟨none, last⟩ := Text.eq_nil_of_sublist_lines
      ((List.sublist_append_right _ _).trans among) unended
    refine .inr ⟨last, fun y hy => ?_⟩
    cases y with
    | inserted t => exact ⟨t, rfl⟩
    | kept t => exact absurd (List.filterMap_eq_nil_iff.mp none _ hy) nofun

/-- **Every result is made of the file's lines and of lines that applied hunks insert**,
and where a line is joined to the next, the hunk or the file has the line without its
newline. -/
theorem composed_of_made {p : Patch} (made : p.Made) (text : String) (tolerance : Tolerance) :
    ∃ pieces, Composed text (slots (Text.lines text).toArray p.hunks tolerance)
      (HunkRun.of text p.hunks tolerance) pieces := by
  have justified := justified_slots (Text.lines text).toArray p.hunks tolerance
  have ordered := ordered_slots (Text.lines text).toArray p.hunks tolerance
  have spliced := spliced_splice ordered justified
  obtain ⟨pieces, drawn⟩ := spliced.drawn
  rw [flatMap_inserted justified] at drawn
  have applied : ∀ h ∈ appliedHunks (slots (Text.lines text).toArray p.hunks tolerance),
      h.WellFormed := by
    intro h hh
    have mem := (List.filter_sublist.map Prod.fst).subset hh
    rw [map_fst_slots] at mem
    exact made.wellFormed h mem
  have isLine := isLine_of_drawn applied drawn
  have content :
      (HunkRun.of text p.hunks tolerance).content = Text.join (pieces.map Piece.text) := by
    rw [drawn.text]
    rfl
  refine ⟨pieces, {
    content := content
    spliced := by rwa [drawn.text]
    kept := drawn.kept
    inserted := drawn.inserted
    split := ?_
    joined := fun front x back split _ => joined_of_drawn drawn split }⟩
  rw [content]
  exact Text.lines_join_iff_of_isLine (List.forall_mem_map.mpr isLine)

/-- A patch that puts a line without a newline in the place of a file's only line. -/
def unended : Patch where
  path := "notes.txt"
  kind := .modify
  hunks := [⟨⟨1, 1⟩, ⟨1, 1⟩, [.delete "a\n", .insert "b"]⟩]

theorem made_unended : unended.Made := by
  have read : (Patch.parse "notes.txt" <| "--- a/notes.txt\n+++ b/notes.txt\n@@ -1 +1 @@\n" ++
      "-a\n+b\n\\ No newline at end of file\n").toOption = some unended := by
    decide +kernel
  exact .parse _ (eq_ok_of_toOption read)

theorem composed_unended :
    ∃ pieces, Composed "a\nc\n"
      (slots (Text.lines "a\nc\n").toArray unended.hunks .shifted)
      (HunkRun.of "a\nc\n" unended.hunks .shifted) pieces :=
  composed_of_made made_unended "a\nc\n" .shifted

/-- In a file that has gained a line, the patch joins its line to the one behind it. -/
theorem lines_content_unended :
    unended.Made ∧
      splice (Text.lines "a\nc\n").toArray 0
        (slots (Text.lines "a\nc\n").toArray unended.hunks .shifted) = ["b", "c\n"] ∧
      Text.lines (HunkRun.of "a\nc\n" unended.hunks .shifted).content = ["bc\n"] :=
  ⟨made_unended, by decide +kernel, by decide +kernel⟩

end HunkRun
end Patchwork
