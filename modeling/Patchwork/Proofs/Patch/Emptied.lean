import Patchwork.Proofs.Patch.Framed
import Patchwork.Proofs.Patch.Joined

/-! What becomes of a file whose addition or removal applies.  Hunks that all apply each have
their place, one after another, and what they leave of the text is the text with those windows
replaced (`HunkRun.leaves_of`).  Of a file that is removed they may leave something, and then it
stays with what is left; nothing is put over an added file's lines, so those are the inserted
lines (`HunkRun.content_of_added`). -/

namespace Patchwork
namespace HunkRun

/-! ## Hunks that all apply -/

/-- **What hunks leave of a text**: each has a place that the tolerance allows, in order, and over
it stands what its lines make of it. -/
def Leaves (text : String) (hunks : List Hunk) (tolerance : Tolerance) (left : String) : Prop :=
  ∃ ps out, List.Forall₂ (fun h p => p.Justified (Text.lines text).toArray tolerance h) hunks ps ∧
    Spliced 0 (Text.lines text) ps out ∧ left = Text.join out

theorem accepted_of_failed_eq_nil {slots : List Slot} {out : List String}
    (all : (report slots out).failed = []) : ∀ slot ∈ slots, slot.accepted?.isSome := by
  intro slot listed
  have unfailed := List.map_eq_nil_iff.mp all
  have placed := List.filter_eq_nil_iff.mp unfailed slot listed
  rwa [Bool.not_eq_true, Option.isNone_eq_false_iff] at placed

theorem forall₂_of_accepted {lines : Array String} {tolerance : Tolerance} {slots : List Slot}
    (justified : ∀ slot ∈ slots, slot.Justified lines tolerance)
    (accepted : ∀ slot ∈ slots, slot.accepted?.isSome) :
    List.Forall₂ (fun h p => p.Justified lines tolerance h) (slots.map Prod.fst)
      (slots.filterMap Slot.accepted?) := by
  induction slots with
  | nil => exact .nil
  | cons slot slots ih =>
    obtain ⟨first, others⟩ := List.forall_mem_cons.mp justified
    obtain ⟨firstPlaced, othersPlaced⟩ := List.forall_mem_cons.mp accepted
    obtain ⟨p, placed⟩ := Option.isSome_iff_exists.mp firstPlaced
    rw [List.map_cons, List.filterMap_cons_some placed]
    exact .cons (first p (Slot.accepted?_eq_some_iff.mp placed).1) (ih others othersPlaced)

variable {text : String} {hunks : List Hunk} {tolerance : Tolerance}

/-- Hunks that all apply leave the text with their windows replaced. -/
theorem leaves_of (all : (HunkRun.of text hunks tolerance).failed = []) :
    Leaves text hunks tolerance (HunkRun.of text hunks tolerance).content := by
  have justified := justified_slots (Text.lines text).toArray hunks tolerance
  have ordered := ordered_slots (Text.lines text).toArray hunks tolerance
  have placed := forall₂_of_accepted justified (accepted_of_failed_eq_nil all)
  rw [map_fst_slots] at placed
  exact ⟨_, _, placed, spliced_splice ordered justified, rfl⟩

theorem Leaves.eq_of_nil {left : String} (leaves : Leaves "" hunks tolerance left) :
    left = Text.join (hunks.flatMap fun h => h.lines.filterMap PatchLine.inserted?) := by
  obtain ⟨ps, out, placed, spliced, rfl⟩ := leaves
  have inserted : (ps.flatMap fun p => p.body.filterMap PatchLine.inserted?) =
      hunks.flatMap fun h => h.lines.filterMap PatchLine.inserted? := by
    clear spliced
    induction placed with
    | nil => rfl
    | cons first _ ih => rw [List.flatMap_cons, List.flatMap_cons, first.inserted, ih]
  obtain ⟨pieces, drawn⟩ := spliced.drawn
  -- no line of the empty text is kept, so every piece is inserted
  have unkept := List.filterMap_eq_nil_iff.mp (List.eq_nil_of_sublist_nil drawn.kept)
  have texts : pieces.map Piece.text = pieces.filterMap Piece.inserted? := by
    clear drawn
    induction pieces with
    | nil => rfl
    | cons piece pieces ih =>
      obtain ⟨first, others⟩ := List.forall_mem_cons.mp unkept
      cases piece with
      | kept => cases first
      | inserted t => exact congrArg (t :: ·) (ih others)
  rw [← inserted, ← drawn.inserted, ← texts, drawn.text]

end HunkRun

/-! ## Files that are added and removed -/

/-- A patch that applies suits what is there, and its hunks all apply. -/
theorem Patch.content_of_applied {p : Patch} {baseline : Option ByteArray} {tolerance : Tolerance}
    {path : String} {fit : Fit}
    (applied : (p.apply baseline tolerance).report = ⟨path, .applied fit⟩) :
    ∃ text, p.target? baseline = some text ∧ (HunkRun.of text p.hunks tolerance).failed = [] ∧
      (p.apply baseline tolerance).content =
        if p.kind = .delete ∧ (HunkRun.of text p.hunks tolerance).content = "" then none
        else some (HunkRun.of text p.hunks tolerance).content.toUTF8 := by
  unfold apply at applied ⊢
  split at applied
  · cases applied
  · rename_i text target
    dsimp only at applied ⊢
    rcases failed : (HunkRun.of text p.hunks tolerance).failed with _ | ⟨h, hs⟩
    · exact ⟨text, target, failed, by simp⟩
    · rw [failed, if_neg (by nofun)] at applied
      cases applied

/-- **What an applied patch that removes or adds a file makes of it.** -/
structure Settled (p : Patch) (baseline : Option ByteArray) (tolerance : Tolerance)
    (result : Option ByteArray) : Prop where
  /-- A file is removed when the hunks leave nothing of it, else it holds what they leave. -/
  removed : p.kind = .delete → ∃ bytes text, baseline = some bytes ∧
    FileMap.text? bytes = some text ∧
    HunkRun.Leaves text p.hunks tolerance (HunkRun.of text p.hunks tolerance).content ∧
    result = if (HunkRun.of text p.hunks tolerance).content = "" then none
      else some (HunkRun.of text p.hunks tolerance).content.toUTF8
  /-- An added file holds the inserted lines. -/
  added : p.kind = .add → baseline = none ∧ result =
    some (Text.join (p.hunks.flatMap fun h => h.lines.filterMap PatchLine.inserted?)).toUTF8

/-- **An applied removal leaves no file unless its hunks leave some of it, and an applied addition
leaves the inserted lines**, in every tree and under every tolerance. -/
theorem PatchSet.settled_of_applied {s : PatchSet} (keyed : s.Keyed) {baseline : FileMap}
    {tolerance : Tolerance} {path : String} {fit : Fit}
    (applied : ⟨path, .applied fit⟩ ∈ (s.apply baseline tolerance).reports) :
    ∃ p, s.get? path = some p ∧
      Settled p baseline[path]? tolerance (s.apply baseline tolerance).tree[path]? := by
  obtain ⟨p, found, report⟩ := keyed.mem_reports.mp applied
  refine ⟨p, found, ?_⟩
  obtain ⟨text, target, all, content⟩ := Patch.content_of_applied report
  have leaves := HunkRun.leaves_of all
  rw [getElem?_apply keyed, found]
  dsimp only at content ⊢
  rw [content]
  constructor
  · intro kind
    rcases held : baseline[path]? with _ | bytes <;>
      simp only [Patch.target?, kind, held, reduceCtorEq] at target
    exact ⟨bytes, text, rfl, target, leaves, by simp [kind]⟩
  · intro kind
    rcases held : baseline[path]? with _ | bytes <;>
      simp only [Patch.target?, kind, held, reduceCtorEq, Option.some.injEq] at target
    subst target
    rw [← leaves.eq_of_nil, if_neg (by simp [kind])]
    exact ⟨rfl, rfl⟩

/-- A patch that adds a line in a file of its own applies where there is none. -/
theorem PatchSet.settled_of_applied_demo : ∃ set fit,
    empty.insertAll [⟨"a", .add, [⟨⟨0, 0⟩, ⟨1, 1⟩, [.insert "x\n"]⟩]⟩] = .ok set ∧ set.Keyed ∧
      ⟨"a", .applied fit⟩ ∈ (set.apply ∅ .shifted).reports ∧ ∃ p, set.get? "a" = some p ∧
        Settled p (∅ : FileMap)["a"]? .shifted (set.apply ∅ .shifted).tree["a"]? := by
  obtain ⟨set, made, held⟩ := @insertAll_ok empty
    [⟨"a", .add, [⟨⟨0, 0⟩, ⟨1, 1⟩, [.insert "x\n"]⟩]⟩] (List.pairwise_singleton _ _) (by simp [empty])
  have keyed : set.Keyed := Keyed.empty.insertAll made
  have applied : ⟨"a", .applied (.shifted 0)⟩ ∈ (set.apply ∅ .shifted).reports := by
    rw [keyed.mem_reports]
    refine ⟨_, (held _ _).mpr (.inr ⟨List.mem_singleton_self _, rfl⟩), ?_⟩
    rw [Std.TreeMap.getElem?_emptyc]
    decide +kernel
  exact ⟨set, _, made, keyed, applied, settled_of_applied keyed applied⟩

/-- A patch that removes a file of one line. -/
def shrunk : Patch where
  path := "notes.txt"
  kind := .delete
  hunks := [⟨⟨1, 1⟩, ⟨0, 0⟩, [.delete "a\n"]⟩]

theorem parse_shrunk : Patch.parse "notes.txt"
    "--- a/notes.txt\n+++ /dev/null\n@@ -1 +0,0 @@\n-a\n" = .ok shrunk :=
  eq_ok_of_toOption (by decide +kernel)

theorem apply_shrunk : shrunk.apply (some "a\nb\n".toUTF8) .shifted =
    ⟨⟨"notes.txt", .applied (.shifted 0)⟩, some "b\n".toUTF8⟩ := by
  have target : shrunk.target? (some "a\nb\n".toUTF8) = some "a\nb\n" := FileMap.text?_toUTF8 _
  have run : HunkRun.of "a\nb\n" shrunk.hunks .shifted = ⟨"b\n", .shifted 0, 1, []⟩ := by
    decide +kernel
  rw [Patch.apply, target]
  simp only [run]
  simp [shrunk]

/-- In a file that has gained a line, the removal applies and that line stays. -/
theorem PatchSet.kept_of_shrunk : ∃ set,
    Patch.parse "notes.txt" "--- a/notes.txt\n+++ /dev/null\n@@ -1 +0,0 @@\n-a\n" = .ok shrunk ∧
      shrunk.kind = .delete ∧ empty.insertAll [shrunk] = .ok set ∧
      ⟨"notes.txt", .applied (.shifted 0)⟩ ∈
        (set.apply (FileMap.ofFiles [("notes.txt", "a\nb\n".toUTF8)]) .shifted).reports ∧
      (set.apply (FileMap.ofFiles [("notes.txt", "a\nb\n".toUTF8)]) .shifted).tree["notes.txt"]? =
        some "b\n".toUTF8 := by
  obtain ⟨set, made, held⟩ :=
    @insertAll_ok empty [shrunk] (List.pairwise_singleton _ _) (by simp [empty])
  have keyed : set.Keyed := Keyed.empty.insertAll made
  have found : set.get? "notes.txt" = some shrunk :=
    (held _ _).mpr (.inr ⟨List.mem_singleton_self _, rfl⟩)
  have file : (FileMap.ofFiles [("notes.txt", "a\nb\n".toUTF8)])["notes.txt"]? =
      some "a\nb\n".toUTF8 := by
    simp [FileMap.ofFiles]
  refine ⟨set, parse_shrunk, rfl, made, ?_, ?_⟩
  · rw [keyed.mem_reports]
    exact ⟨shrunk, found, by rw [file, apply_shrunk]⟩
  · rw [getElem?_apply keyed, found, file]
    exact congrArg FileChange.content apply_shrunk

end Patchwork
