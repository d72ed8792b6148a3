import Patchwork.Proofs.Disk.Behind
import Patchwork.Proofs.Ends

/-! Copying a directory.  The listing of a directory names a directory before what it holds, so
that at each point of the copying what was copied is a tree (`PartCopy`), and each next item finds
the directory that it goes into.  At the end the copy holds what the source holds (`Copied`);
where the copying stops before, the path of an item could not be followed
(`Ends.copyTree`). -/

namespace Patchwork

namespace Disk
open Path
variable {d d₁ d₂ : Disk} {source target : Place}

/-- **A disk with a part of a directory copied.**  Of what is listed, only some items stand below
the target; everything outside of the target is as it was. -/
structure PartCopy (d : Disk) (target : Place) (copied : List (List String × Node)) (d' : Disk) :
    Prop where
  tree : d'.IsTree
  here : d'.here = d.here
  dir : d'.at? target = some .dir
  below : ∀ names node, names ≠ [] → (d'.at? (target ++ names) = some node ↔ (names, node) ∈ copied)
  others : ∀ place, ¬ target <+: place → d'.at? place = d.at? place

/-- A directory that was made where nothing stood. -/
theorem PartCopy.start (tree : d.IsTree) {front : Place} {name : String} (named : IsName name)
    (dir : d.at? front = some .dir) (free : d.at? (front ++ [name]) = none) :
    PartCopy d (front ++ [name]) [] (d.put (front ++ [name]) .dir) := by
  have ne : front ++ [name] ≠ [] := List.concat_ne_nil _ _
  constructor
  · exact tree.put dir named fun _ => rfl
  · rfl
  · exact at?_put_self d ne .dir
  · intro names node deep
    rw [at?_put_eq d ne, if_neg (by simp [deep]), tree.none_of_append free names]
    exact ⟨nofun, fun listed => absurd listed List.not_mem_nil⟩
  · intro place apart
    exact at?_put d _ .dir fun same => apart (same ▸ List.prefix_rfl)

/-- **Copying one more item** into a directory that was copied before. -/
theorem PartCopy.step {copied : List (List String × Node)} (h : PartCopy d target copied d₁)
    {front : List String} {name : String} {node : Node} (named : IsName name)
    (dir : d₁.at? (target ++ front) = some .dir) (free : d₁.at? (target ++ (front ++ [name])) = none) :
    PartCopy d target (copied ++ [(front ++ [name], node)])
      (d₁.put (target ++ (front ++ [name])) node) := by
  have ne : target ++ (front ++ [name]) ≠ [] := by simp
  constructor
  · have placed : (d₁.put (target ++ front ++ [name]) node).IsTree :=
      h.tree.put dir named fun stands => by
        rw [List.append_assoc, free] at stands
        cases stands
    rwa [List.append_assoc] at placed
  · exact h.here
  · rw [at?_put_eq d₁ ne, if_neg (by simp), h.dir]
  · intro names node' deep
    rw [at?_put_eq d₁ ne, List.mem_append, List.mem_singleton]
    split
    · rename_i same
      have same := List.append_cancel_left same
      -- the item stood nowhere before, so that it was not copied
      have fresh : (names, node') ∉ copied := fun listed => by
        rw [← h.below names node' deep, same, free] at listed
        cases listed
      rw [same] at fresh
      simp [fresh, same, eq_comm]
    · rename_i apart
      have apart : names ≠ front ++ [name] := fun same => apart (by rw [same])
      simp [h.below names node' deep, apart]
  · intro place apart
    rw [at?_put d₁ _ node, h.others place apart]
    exact fun same => apart (same ▸ List.prefix_append _ _)

/-- **A copied directory**: the target holds what the source holds, and everything else is as it
was. -/
structure Copied (d : Disk) (source target : Place) (d' : Disk) : Prop where
  tree : d'.IsTree
  here : d'.here = d.here
  below : ∀ names, d'.at? (target ++ names) = d.at? (source ++ names)
  others : ∀ place, ¬ target <+: place → d'.at? place = d.at? place

/-- What was copied in full. -/
theorem PartCopy.copied (h : PartCopy d target (d₁.under source) d₂)
    (dir : d.at? source = some .dir)
    (same : ∀ names, d₁.at? (source ++ names) = d.at? (source ++ names)) :
    Copied d source target d₂ := by
  refine ⟨h.tree, h.here, fun names => ?_, h.others⟩
  by_cases deep : names = []
  · rw [deep, List.append_nil, List.append_nil, h.dir, dir]
  · apply Option.ext
    intro node
    rw [h.below names node deep, mem_under_iff, same]
    exact and_iff_right deep

/-- **A disk with something begun** below a place where nothing stood. -/
structure Begun (d : Disk) (target : Place) (d' : Disk) : Prop where
  tree : d'.IsTree
  here : d'.here = d.here
  others : ∀ place, ¬ target <+: place → d'.at? place = d.at? place

theorem Begun.refl (tree : d.IsTree) : Begun d target d := ⟨tree, rfl, fun _ _ => rfl⟩

/-- What is begun inside of something begun. -/
theorem Begun.within {inner : Place} (h : Begun d₁ inner d₂) (below : target <+: inner)
    (h' : Begun d target d₁) : Begun d target d₂ := by
  refine ⟨h.tree, h.here.trans h'.here, fun place out => ?_⟩
  rw [h.others, h'.others place out]
  exact fun into => out (below.trans into)

/-- Where nothing stood, nothing is in the way of a path that could be followed before. -/
theorem Begun.locate {p : Path} {place : Place} (h : Begun d target d₁) (tree : d.IsTree)
    (free : d.at? target = none) (found : d.locate p = .ok place) :
    d₁.locate p = .ok place := by
  refine locate_mono h.here (fun other dir => ?_) found
  have apart : ¬ target <+: other := by
    rintro ⟨names, rfl⟩
    rw [tree.none_of_append free] at dir
    cases dir
  rw [h.others other apart, dir]

theorem PartCopy.begun {copied : List (List String × Node)} (h : PartCopy d target copied d₁) :
    Begun d target d₁ := ⟨h.tree, h.here, h.others⟩

/-- An item of a listing comes once. -/
theorem notMem_of_under {done rest : List (List String × Node)} {names : List String}
    {node : Node} (whole : d.under source = done ++ (names, node) :: rest) (node' : Node) :
    (names, node') ∉ done := by
  intro listed
  have order := d.pairwise_under source
  rw [whole] at order
  have before := (List.pairwise_append.mp order).2.2 _ listed _ List.mem_cons_self
  have still : compare (source ++ names) (source ++ names) = .eq := Std.ReflCmp.compare_self
  rw [still] at before
  cases before

end Disk

namespace Action
open Disk Path
variable {w : World} {p : Path} {base : Place} {xs ys names : List String}
  {failed : Failure → World → Prop}

/-- How making a directory ends where nothing stands. -/
theorem Ends.makeDirs (tree : w.disk.IsTree) (found : w.disk.locate p = .ok base)
    (named : ∀ name ∈ names, IsName name) (ne : names ≠ [])
    (dir : w.disk.at? (base ++ names.dropLast) = some .dir)
    (free : p.Open names → w.disk.at? (base ++ names) = none) :
    Ends (Action.makeDirs (p.joinAll names)) w
      (fun _ w' => w' = w.withDisk (w.disk.put (base ++ names) .dir) ∧ p.Open names)
      (fun e w' => w' = w ∧ (∃ step reason, e = .io step reason) ∧ ¬ p.Open names) := by
  rcases makeDirs_joinAll tree found named ne dir free with
    ⟨opened, put⟩ | ⟨closed, reason, put⟩
  · refine .changeBy (fun d made => ?_) fun e d made => ?_ <;> rw [put] at made <;> cases made
    exact ⟨rfl, opened⟩
  · refine .changeBy (fun d made => ?_) fun e d made => ?_ <;> rw [put] at made <;> cases made
    exact ⟨rfl, ⟨_, _, rfl⟩, closed⟩

/-- How removing ends what a path leads to. -/
theorem remove_of_find {node : Node} (h : w.disk.find p = .ok node) (ends : p.endsInName) :
    Action.remove p w = (.ok (), w.withDisk (w.disk.erase (p.place w.disk.here))) := by
  unfold Action.remove
  rw [Action.bind_of_ok (disk_apply w), h]
  dsimp only
  rw [changeBy_apply, Disk.remove_of_find h ends]
  rfl

/-- How writing a file ends where no directory stands. -/
theorem Ends.write {step : Step} {bytes : ByteArray} (tree : w.disk.IsTree)
    (found : w.disk.locate p = .ok base) (named : ∀ name ∈ names, IsName name) (ne : names ≠ [])
    (dir : w.disk.at? (base ++ names.dropLast) = some .dir)
    (free : w.disk.at? (base ++ names) ≠ some .dir) :
    Ends (Action.change step (·.write (p.joinAll names) bytes)) w
      (fun _ w' => w' = w.withDisk (w.disk.put (base ++ names) (.file bytes)) ∧ p.Open names)
      (fun e w' => w' = w ∧ (∃ step reason, e = .io step reason) ∧ ¬ p.Open names) := by
  refine .change (fun d made => ?_) fun e refused => ⟨rfl, ⟨_, _, rfl⟩, fun opened => ?_⟩
  · obtain ⟨opened, -, -, rfl⟩ := (write_joinAll_iff tree found named ne).mp made
    exact ⟨rfl, opened⟩
  · rw [(write_joinAll_iff tree found named ne).mpr ⟨opened, dir, free, rfl⟩] at refused
    cases refused

/-- **How copying one item ends.** The directory that it goes into was copied before. -/
theorem Ends.copyItem {target : List String} {d d₁ : Disk} {copied rest : List (List String × Node)}
    {source : Place} {node : Node} {step : String → Step}
    (part : PartCopy w.disk (base ++ target) copied d) (tree : d₁.IsTree)
    (whole : d₁.under source = copied ++ (names, node) :: rest)
    (named : ∀ name ∈ target, IsName name) (found : d.locate p = .ok base) :
    Ends
      (match node with
        | .dir => Action.makeDirs ((p.joinAll target).joinAll names)
        | .file bytes => do
          if ← Action.exists? ((p.joinAll target).joinAll names) then
            throw (.fault (.refusedOverwrite ((p.joinAll target).joinAll names).text))
          Action.change (step ((p.joinAll target).joinAll names).text)
            (·.write ((p.joinAll target).joinAll names) bytes))
      (w.withDisk d)
      (fun _ w' => ∃ d', w' = w.withDisk d' ∧
        PartCopy w.disk (base ++ target) (copied ++ [(names, node)]) d' ∧ p.Open (target ++ names))
      (fun e w' => w' = w.withDisk d ∧ (∃ step reason, e = .io step reason) ∧
        ¬ p.Open (target ++ names)) := by
  have listed : (names, node) ∈ d₁.under source := by simp [whole]
  obtain ⟨ne, stands⟩ := mem_under_iff.mp listed
  have ne' : target ++ names ≠ [] := by simp [ne]
  have proper : ∀ name ∈ target ++ names, IsName name := by
    intro name hname
    rcases List.mem_append.mp hname with above | below
    · exact named name above
    · exact tree.named _ (stands ▸ Option.some_ne_none _) name (List.mem_append_right _ below)
  have free : d.at? (base ++ (target ++ names)) = none := by
    rw [Option.eq_none_iff_forall_ne_some]
    intro node' there
    rw [← List.append_assoc, part.below names node' ne] at there
    exact notMem_of_under whole node' there
  have dir : d.at? (base ++ target ++ names.dropLast) = some .dir := by
    by_cases deep : names.dropLast = []
    · rw [deep, List.append_nil, part.dir]
    · exact (part.below _ _ deep).mpr (mem_front_of_under tree whole deep)
  have above : d.at? (base ++ (target ++ names).dropLast) = some .dir := by
    rwa [List.dropLast_append_of_ne_nil ne, ← List.append_assoc]
  have put : PartCopy w.disk (base ++ target) (copied ++ [(names, node)])
      (d.put (base ++ (target ++ names)) node) := by
    obtain ⟨front, name, rfl⟩ : ∃ front name, names = front ++ [name] :=
      ⟨_, _, (List.dropLast_concat_getLast ne).symm⟩
    rw [List.dropLast_concat] at dir
    rw [← List.append_assoc] at free ⊢
    exact part.step (proper name (by simp)) dir free
  rw [← joinAll_append]
  cases node with
  | dir =>
    refine (Ends.makeDirs part.tree found proper ne' above fun _ => free).imp ?_ fun _ _ => id
    rintro - - ⟨rfl, opened⟩
    exact ⟨_, rfl, put, opened⟩
  | file bytes =>
    have absent : d.exists? (p.joinAll (target ++ names)) = false := by
      rw [Bool.eq_false_iff, Ne, exists?_iff]
      rintro ⟨node, there⟩
      rw [find_joinAll_iff part.tree found proper ne', free] at there
      cases there.2
    have asked := exists?_apply (p.joinAll (target ++ names)) (w.withDisk d)
    rw [World.withDisk_disk, absent] at asked
    refine .bind_of_ok asked ?_
    have vacant : d.at? (base ++ (target ++ names)) ≠ some .dir := fun there =>
      nomatch free.symm.trans there
    refine (Ends.write part.tree found proper ne' above vacant).imp ?_ fun _ _ => id
    rintro - - ⟨rfl, opened⟩
    exact ⟨_, rfl, put, opened⟩

/-- **How copying a directory ends.**  Behind a path that leads to a directory of a tree, a
directory is copied to where nothing stands.  Either the copy holds what the source holds, and all
paths into the copy could be followed; or one could not, and nothing but the copy was begun. -/
theorem Ends.copyTree (tree : w.disk.IsTree) (found : w.disk.locate p = .ok base)
    (named : ∀ name ∈ xs, IsName name) (ne : xs ≠ []) (opened : p.Open xs)
    (dir : w.disk.at? (base ++ xs) = some .dir)
    (named' : ∀ name ∈ ys, IsName name) (ne' : ys ≠ [])
    (above : w.disk.at? (base ++ ys.dropLast) = some .dir)
    (free : w.disk.at? (base ++ ys) = none) (apart : ¬ xs <+: ys) :
    Ends (Action.copyTree (p.joinAll xs) (p.joinAll ys)) w
      (fun _ w' => ∃ d, w' = w.withDisk d ∧ Copied w.disk (base ++ xs) (base ++ ys) d ∧
        ∀ names, w.disk.at? (base ++ xs ++ names) ≠ none → p.Open (ys ++ names))
      (fun e w' => ∃ d, w' = w.withDisk d ∧ Begun w.disk (base ++ ys) d ∧
        (∃ step reason, e = .io step reason) ∧
        ∃ names, w.disk.at? (base ++ xs ++ names) ≠ none ∧ ¬ p.Open (ys ++ names)) := by
  obtain ⟨front, name, rfl⟩ : ∃ front name, ys = front ++ [name] := by
    rcases List.eq_nil_or_concat ys with rfl | ⟨front, name, rfl⟩
    · exact absurd rfl ne'
    · exact ⟨front, name, List.concat_eq_append⟩
  have last : IsName name := named' name (by simp)
  -- the source does not reach into the target, so that it stays as it is
  have apart_of : ∀ names, ¬ base ++ (front ++ [name]) <+: base ++ xs ++ names := by
    intro names into
    rw [List.append_assoc, List.prefix_append_right_inj] at into
    rcases List.prefix_or_prefix_of_prefix into (List.prefix_append xs names) with up | down
    · obtain ⟨rest, rfl⟩ := up
      rw [← List.append_assoc, tree.none_of_append free] at dir
      cases dir
    · exact apart down
  have started := PartCopy.start tree last (List.dropLast_concat ▸ above)
    (by rwa [List.append_assoc])
  rw [List.append_assoc] at started
  have same : ∀ names, (w.disk.put (base ++ (front ++ [name])) .dir).at? (base ++ xs ++ names) =
      w.disk.at? (base ++ xs ++ names) := fun names => started.others _ (apart_of names)
  have dir' := same []
  rw [List.append_nil, dir] at dir'
  refine .bind ((Ends.makeDirs tree found named' ne' above fun _ => free).imp (fun _ _ => id) ?_) ?_
  · rintro e w' ⟨rfl, reason, closed⟩
    refine ⟨w'.disk, rfl, .refl tree, reason, [], ?_, ?_⟩
    · rw [List.append_nil, dir]
      exact Option.some_ne_none _
    · rwa [List.append_nil]
  rintro - - ⟨rfl, opened'⟩
  have located := started.begun.locate tree free found
  have walked := walk_joinAll started.tree located named ne opened dir'
  refine .bind_of_ok (ask_of_ok walked) ?_
  -- the items that were come through stand in the copy, and their paths could be followed
  refine .imp (.forM (fun copied w' => ∃ d, w' = w.withDisk d ∧
    PartCopy w.disk (base ++ (front ++ [name])) copied d ∧
    ∀ item ∈ copied, p.Open (front ++ [name] ++ item.1)) _ ?_ ?_) ?_ (fun _ _ => id)
  · exact ⟨_, rfl, started, nofun⟩
  · rintro copied ⟨names, node⟩ rest whole - ⟨d, rfl, part, reached⟩
    have stands := (mem_under_iff.mp (whole ▸ List.mem_append_right _ List.mem_cons_self)).2
    rw [same] at stands
    refine (Ends.copyItem part started.tree whole named' ?_).imp ?_ ?_
    · exact part.begun.locate tree free found
    · rintro - - ⟨d', rfl, part', opened''⟩
      refine ⟨d', rfl, part', fun item hitem => ?_⟩
      rcases List.mem_append.mp hitem with before | new
      · exact reached item before
      · exact List.mem_singleton.mp new ▸ opened''
    · rintro e - ⟨rfl, reason, closed⟩
      exact ⟨d, rfl, part.begun, reason, names, stands ▸ Option.some_ne_none _, closed⟩
  · rintro - - ⟨d, rfl, part, reached⟩
    refine ⟨d, rfl, part.copied dir same, fun names stands => ?_⟩
    by_cases deep : names = []
    · rwa [deep, List.append_nil]
    · obtain ⟨node, stands⟩ := Option.ne_none_iff_exists'.mp stands
      exact reached (names, node) (mem_under_iff.mpr ⟨deep, by rw [same, stands]⟩)

end Action
end Patchwork
