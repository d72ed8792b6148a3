import Patchwork.Proofs.Disk.Alike
import Patchwork.Proofs.Ends

/-! Actions that do not depend on what is stale.  Two worlds are twins when their disks are alike
(`Twins`).  A steady action ends alike in twins and leaves twins behind, whether it succeeds or fails
(`Action.Steady`): questions about fresh paths and changes along them are, and what is made of steady
actions is.  Where twins only agree on how an action ends, and what they are then depends on the action,
the two runs agree (`Action.Agrees`). -/

namespace Patchwork
variable {α β : Type} {here : Place} {stale : Place → Prop} {keeps : Place → Option Node → Prop}

/-- **Two worlds whose disks are alike**, and where relative paths begin in the same place. -/
structure Twins (here : Place) (stale : Place → Prop) (keeps : Place → Option Node → Prop)
    (w w' : World) : Prop where
  here : w.disk.here = here
  alike : w.disk.Alike stale keeps w'.disk

theorem Twins.here' {w w' : World} (twins : Twins here stale keeps w w') : w'.disk.here = here :=
  twins.alike.here.trans twins.here

/-- Where nothing is stale, a world is its own twin. -/
theorem Twins.self {w : World} (tree : w.disk.IsTree) :
    Twins w.disk.here (fun _ => False) (fun _ _ => True) w w :=
  ⟨rfl, tree, tree, rfl, fun _ _ => rfl, fun _ => False.elim, fun _ => False.elim⟩

namespace Action
variable {w w' : World}

/-- **A steady action** ends alike in twins and leaves twins behind. -/
structure Steady (here : Place) (stale : Place → Prop) (keeps : Place → Option Node → Prop)
    (action : Action α) : Prop where
  run : ∀ w w', Twins here stale keeps w w' →
    (action w').1 = (action w).1 ∧ Twins here stale keeps (action w).2 (action w').2

namespace Steady

protected theorem pure (a : α) : Steady here stale keeps (Pure.pure a) := ⟨fun _ _ h => ⟨rfl, h⟩⟩

protected theorem throw (e : Failure) :
    Steady here stale keeps (MonadExcept.throw e : Action α) := ⟨fun _ _ h => ⟨rfl, h⟩⟩

/-- What follows a steady action is started from what that may return. -/
theorem bind_of_returns {action : Action α} {f : α → Action β} {result : α → Prop}
    (first : Steady here stale keeps action)
    (returns : ∀ w : World, w.disk.here = here → w.disk.IsTree →
      ∀ a, (action w).1 = .ok a → result a)
    (next : ∀ a, result a → Steady here stale keeps (f a)) :
    Steady here stale keeps (action >>= f) := by
  refine ⟨fun w w' twins => ?_⟩
  have returned := returns w twins.here twins.alike.tree
  obtain ⟨same, twins₁⟩ := first.run w w' twins
  rw [bind_apply, bind_apply]
  rcases ran : action w with ⟨e | a, w₁⟩ <;> rcases ran' : action w' with ⟨e' | a', w₁'⟩ <;>
    rw [ran, ran'] at same twins₁ <;> cases same
  · exact ⟨rfl, twins₁⟩
  · exact (next a (returned a (by rw [ran]))).run w₁ w₁' twins₁

protected theorem bind {action : Action α} {f : α → Action β} (first : Steady here stale keeps action)
    (next : ∀ a, Steady here stale keeps (f a)) : Steady here stale keeps (action >>= f) :=
  first.bind_of_returns (fun _ _ _ _ _ => trivial : ∀ _ _ _ _ _, True) fun a _ => next a

protected theorem tryCatch {action : Action α} {f : Failure → Action α}
    (first : Steady here stale keeps action) (next : ∀ e, Steady here stale keeps (f e)) :
    Steady here stale keeps (tryCatch action f) := by
  refine ⟨fun w w' twins => ?_⟩
  obtain ⟨same, twins₁⟩ := first.run w w' twins
  rw [tryCatch_apply, tryCatch_apply]
  rcases ran : action w with ⟨e | a, w₁⟩ <;> rcases ran' : action w' with ⟨e' | a', w₁'⟩ <;>
    rw [ran, ran'] at same twins₁ <;> cases same
  · exact (next e).run w₁ w₁' twins₁
  · exact ⟨rfl, twins₁⟩

/-- What is done with the disk is steady where it is the same for disks that are alike. -/
theorem bind_disk {f : Disk → Action β}
    (same : ∀ d d' : Disk, d.here = here → d.Alike stale keeps d' → f d' = f d)
    (next : ∀ d, Steady here stale keeps (f d)) : Steady here stale keeps (disk >>= f) := by
  refine ⟨fun w w' twins => ?_⟩
  rw [bind_of_ok (disk_apply w), bind_of_ok (disk_apply w'), same _ _ twins.here twins.alike]
  exact (next w.disk).run w w' twins

protected theorem forM {f : α → Action PUnit} {xs : List α}
    (each : ∀ x ∈ xs, Steady here stale keeps (f x)) : Steady here stale keeps (xs.forM f) := by
  induction xs with
  | nil => exact .pure _
  | cons x xs ih => exact .bind (each x List.mem_cons_self) fun _ => ih fun y hy => each y (.tail x hy)

protected theorem mapM {f : α → Action β} {xs : List α}
    (each : ∀ x ∈ xs, Steady here stale keeps (f x)) : Steady here stale keeps (xs.mapM f) := by
  induction xs with
  | nil => exact .pure _
  | cons x xs ih =>
    rw [List.mapM_cons]
    refine .bind (each x List.mem_cons_self) fun _ => ?_
    exact .bind (ih fun y hy => each y (.tail x hy)) fun _ => .pure _

theorem ofOutcome (outcome : Outcome α) : Steady here stale keeps (Action.ofOutcome outcome) := by
  cases outcome with
  | ok a => exact .pure a
  | error e => exact .throw e

/-! ## Questions -/

theorem ask {step : Step} {question : Disk → Except IoError α}
    (same : ∀ d d' : Disk, d.here = here → d.Alike stale keeps d' → question d' = question d) :
    Steady here stale keeps (Action.ask step question) := by
  refine ⟨fun w w' twins => ?_⟩
  rw [ask_apply, ask_apply, same _ _ twins.here twins.alike]
  exact ⟨rfl, twins⟩

section Questions
variable {p : Path} (fresh : Disk.Fresh here stale p)
include fresh

theorem isFile : Steady here stale keeps (Action.isFile p) :=
  bind_disk (fun d d' hd alike => by rw [alike.isFile_eq (hd ▸ fresh)]) fun _ => .pure _

theorem exists? : Steady here stale keeps (Action.exists? p) :=
  bind_disk (fun d d' hd alike => by rw [alike.exists?_eq (hd ▸ fresh)]) fun _ => .pure _

theorem find (step : Step) : Steady here stale keeps (Action.ask step (·.find p)) :=
  ask fun _ _ hd alike => alike.find_eq (hd ▸ fresh)

theorem read (step : Step) : Steady here stale keeps (Action.ask step (·.read p)) :=
  ask fun _ _ hd alike => alike.read_eq (hd ▸ fresh)

theorem readText : Steady here stale keeps (Action.readText p) :=
  ask fun _ _ hd alike => alike.readText_eq (hd ▸ fresh)

theorem openFile : Steady here stale keeps (Action.openFile p) :=
  .bind (find fresh _) fun _ => read fresh _

theorem filesBelow (below : ∀ other, p.place here <+: other → ¬ stale other) :
    Steady here stale keeps (Action.filesBelow p) := by
  refine bind_disk (fun d d' hd alike => ?_) fun d => ?_
  · subst hd
    rw [alike.files_eq fresh below]
  · split
    · exact .pure _
    · exact .throw _

end Questions

/-! ## Changes -/

theorem change {step : Step} {act : Disk → Except IoError Disk}
    (alike : ∀ d d' : Disk, d.here = here → d.Alike stale keeps d' →
      Disk.AlikeChanges stale keeps d.here (act d) (act d')) :
    Steady here stale keeps (Action.change step act) := by
  refine ⟨fun w w' twins => ?_⟩
  have changes := alike _ _ twins.here twins.alike
  rw [change_apply, change_apply]
  rcases made : act w.disk with e | d <;> rcases made' : act w'.disk with e' | d' <;>
    rw [made, made'] at changes
  · cases changes
    exact ⟨rfl, twins⟩
  · cases changes
  · cases changes
  · exact ⟨rfl, changes.1.trans twins.here, changes.2⟩

theorem changeBy {step : Step} {act : Disk → Except IoError Unit × Disk}
    (alike : ∀ d d' : Disk, d.here = here → d.Alike stale keeps d' →
      (act d').1 = (act d).1 ∧ (act d).2.here = d.here ∧ (act d).2.Alike stale keeps (act d').2) :
    Steady here stale keeps (Action.changeBy step act) := by
  refine ⟨fun w w' twins => ?_⟩
  obtain ⟨same, here', alike'⟩ := alike _ _ twins.here twins.alike
  rw [changeBy_apply, changeBy_apply, same]
  exact ⟨rfl, here'.trans twins.here, alike'⟩

section Changes
variable {p : Path}

theorem makeDirs (fresh : Disk.Fresh here stale p) : Steady here stale keeps (Action.makeDirs p) :=
  changeBy fun _ _ hd alike => alike.makeDirs (hd ▸ fresh)

/-- The directory of a path is made along the path, apart from its last name. -/
theorem makeParent
    (fresh : ∀ front, front <+: p.parts.dropLast → ¬ stale (Disk.stopFrom here p front)) :
    Steady here stale keeps (Action.makeParent p) := by
  unfold Action.makeParent
  by_cases none : p.parts = []
  · rw [Path.parent?_eq_none none]
    exact .pure _
  · obtain ⟨q, parent, isParent⟩ := Path.exists_parent none
    rw [parent]
    exact makeDirs (.of_isParent isParent fresh)

variable (fresh : Disk.Fresh here stale p)
include fresh

theorem makeParent_of_fresh : Steady here stale keeps (Action.makeParent p) :=
  makeParent fun front above => fresh front (above.trans (List.dropLast_prefix _))

theorem write (step : Step) (bytes : ByteArray) :
    Steady here stale keeps (Action.change step (·.write p bytes)) :=
  change fun _ _ hd alike => alike.write (hd ▸ fresh)

theorem remove : Steady here stale keeps (Action.remove p) := by
  refine bind_disk (fun d d' hd alike => ?_) fun d => ?_
  · rw [alike.find_eq (hd ▸ fresh)]
  · split
    · exact .pure _
    · exact .throw _
    · refine changeBy fun d d' hd alike => ?_
      obtain ⟨same, alike'⟩ := alike.remove (hd ▸ fresh)
      exact ⟨same, Disk.here_remove d p, alike'⟩

theorem discard : Steady here stale keeps (Action.discard p) :=
  .tryCatch (remove fresh) fun _ => .pure _

theorem clear : Steady here stale keeps (Action.clear p) :=
  .bind (remove fresh) fun _ => makeParent_of_fresh fresh

end Changes

/-- A steady action leaves a tree where it finds one. -/
theorem isTree {action : Action α}
    (steady : Steady w.disk.here (fun _ => False) (fun _ _ => True) action) (tree : w.disk.IsTree) :
    (action w).2.disk.IsTree := (steady.run w w (.self tree)).2.alike.tree

end Steady

theorem isTree_clear (tree : w.disk.IsTree) (p : Path) : (clear p w).2.disk.IsTree :=
  Steady.isTree (.clear fun _ _ => id) tree

/-! ## Runs that agree -/

/-- **Two runs of an action that agree**: they end alike, and where they succeed something holds of
what they return and of the worlds they leave. -/
structure Agrees (action : Action α) (w w' : World) (done : α → World → World → Prop) : Prop where
  same : (action w').1 = (action w).1
  done : ∀ a, (action w).1 = .ok a → done a (action w).2 (action w').2

namespace Agrees
variable {action : Action α} {f : α → Action β} {done more : α → World → World → Prop}
  {result : β → World → World → Prop}

protected theorem pure {a : α} (h : done a w w') : Agrees (Pure.pure a) w w' done :=
  ⟨rfl, fun _ same => Except.ok.inj same ▸ h⟩

protected theorem throw {e : Failure} : Agrees (MonadExcept.throw e : Action α) w w' done :=
  ⟨rfl, nofun⟩

/-- Nothing follows a failure. -/
protected theorem throw_bind {f : α → Action β} {e : Failure} :
    Agrees (MonadExcept.throw e >>= f) w w' result := ⟨rfl, nofun⟩

theorem imp (h : Agrees action w w' done) (sub : ∀ a u u', done a u u' → more a u u') :
    Agrees action w w' more :=
  ⟨h.same, fun a same => sub _ _ _ (h.done a same)⟩

/-- What follows two runs that agree is started from what they return. -/
theorem bind_of_ran (first : Agrees action w w' done)
    (next : ∀ a u u', action w = (.ok a, u) → action w' = (.ok a, u') → done a u u' →
      Agrees (f a) u u' result) : Agrees (action >>= f) w w' result := by
  obtain ⟨same, done⟩ := first
  rcases ran : action w with ⟨e | a, u⟩ <;> rcases ran' : action w' with ⟨e' | a', u'⟩ <;>
    rw [ran, ran'] at same done <;> cases same
  · exact ⟨by rw [bind_of_error ran, bind_of_error ran'], by rw [bind_of_error ran]; exact nofun⟩
  · obtain ⟨same, done⟩ := next a u u' ran ran' (done a rfl)
    rw [← bind_of_ok ran f] at same done
    rw [← bind_of_ok ran' f] at same done
    exact ⟨same, done⟩

protected theorem bind (first : Agrees action w w' done)
    (next : ∀ a u u', done a u u' → Agrees (f a) u u' result) :
    Agrees (action >>= f) w w' result :=
  first.bind_of_ran fun a u u' _ _ => next a u u'

/-- What is done with the disk agrees where it is the same for both disks. -/
theorem bind_disk {f : Disk → Action β} (same : f w'.disk = f w.disk)
    (next : Agrees (f w.disk) w w' result) : Agrees (disk >>= f) w w' result := by
  have first := bind_of_ok (disk_apply w) f
  have first' := bind_of_ok (disk_apply w') f
  rw [same] at first'
  exact ⟨by rw [first, first', next.same], by rw [first, first']; exact next.done⟩

end Agrees

/-- Steady actions agree in twins, and leave twins. -/
theorem Steady.agrees {action : Action α} (steady : Steady here stale keeps action)
    (twins : Twins here stale keeps w w') :
    Agrees action w w' fun _ u u' => Twins here stale keeps u u' :=
  ⟨(steady.run w w' twins).1, fun _ _ => (steady.run w w' twins).2⟩

/-- Steady actions in a row agree in twins, and what each returns is as expected. -/
theorem Agrees.mapM {f : α → Action β} {xs : List α} {result : β → Prop}
    (twins : Twins here stale keeps w w') (each : ∀ x ∈ xs, Steady here stale keeps (f x))
    (returns : ∀ x ∈ xs, ∀ u y u', f x u = (.ok y, u') → result y) :
    Agrees (xs.mapM f) w w' fun ys u u' => Twins here stale keeps u u' ∧ ∀ y ∈ ys, result y := by
  induction xs generalizing w w' with
  | nil => exact .pure ⟨twins, fun _ listed => by cases listed⟩
  | cons x xs ih =>
    obtain ⟨first, others⟩ := List.forall_mem_cons.mp each
    obtain ⟨first', others'⟩ := List.forall_mem_cons.mp returns
    rw [List.mapM_cons]
    refine .bind_of_ran (first.agrees twins) fun y u u' ran _ twins => ?_
    refine .bind (ih twins others others') fun ys v v' ended => .pure ⟨ended.1, ?_⟩
    exact List.forall_mem_cons.mpr ⟨first' _ _ _ ran, ended.2⟩

end Action
end Patchwork
