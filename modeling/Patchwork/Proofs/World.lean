import Patchwork.World
import Patchwork.Proofs.Disk.Frame

/-! What actions leave alone.  An action that stays within some places changes no file
elsewhere, whether it succeeds or fails half-way (`Within`).  Questions to the disk change
nothing, changes to it stay within the places of their paths, and what is made of actions
stays within the places of its parts. -/

namespace Patchwork.Action
variable {α β : Type}

theorem bind_apply (action : Action α) (f : α → Action β) (w : World) :
    (action >>= f) w =
      match action w with
      | (.ok a, w') => f a w'
      | (.error e, w') => (.error e, w') := by
  change (match action w with
    | (a, w') => ExceptT.bindCont f a w') = _
  rcases action w with ⟨e | a, w'⟩ <;> rfl

/-- What follows a first action that succeeds. -/
theorem bind_of_ok {action : Action α} {w w' : World} {a : α} (step : action w = (.ok a, w'))
    (f : α → Action β) : (action >>= f) w = f a w' := by
  rw [bind_apply, step]

/-- Two actions in a row succeed just where the first one does and the second one behind it. -/
theorem bind_ran_iff {action : Action α} {f : α → Action β} {w w' : World} {b : β} :
    (action >>= f) w = (.ok b, w') ↔ ∃ a w₁, action w = (.ok a, w₁) ∧ f a w₁ = (.ok b, w') := by
  rw [bind_apply]
  rcases action w with ⟨e | a, w₁⟩
  · exact ⟨nofun, nofun⟩
  · constructor
    · exact fun next => ⟨a, w₁, rfl, next⟩
    · rintro ⟨_, _, ⟨⟩, next⟩
      exact next

theorem tryCatch_apply (action : Action α) (f : Failure → Action α) (w : World) :
    (tryCatch action f : Action α) w =
      match action w with
      | (.ok a, w') => (.ok a, w')
      | (.error e, w') => f e w' := by
  simp only [tryCatch, tryCatchThe, MonadExceptOf.tryCatch, ExceptT.tryCatch, ExceptT.mk, bind,
    StateT.bind]
  rcases action w with ⟨e | a, w'⟩ <;> rfl

/-- An outcome is what it was, and the world stays. -/
theorem ofOutcome_apply (outcome : Outcome α) (w : World) : ofOutcome outcome w = (outcome, w) := by
  cases outcome <;> rfl

/-- What follows an outcome that is known. -/
theorem bind_of_outcome {outcome : Outcome α} {a : α} (known : outcome = .ok a) (f : α → Action β)
    (w : World) : (ofOutcome outcome >>= f) w = f a w := by
  rw [known]
  exact bind_of_ok (ofOutcome_apply _ w) f

theorem disk_apply (w : World) : disk w = (.ok w.disk, w) := rfl

theorem ask_apply (step : Step) (question : Disk → Except IoError α) (w : World) :
    ask step question w = ((question w.disk).mapError (.io step), w) := by
  unfold ask
  rw [bind_of_ok (disk_apply w)]
  cases question w.disk <;> rfl

theorem change_apply (step : Step) (act : Disk → Except IoError Disk) (w : World) :
    change step act w =
      match act w.disk with
      | .ok d => (.ok (), { w with disk := d })
      | .error e => (.error (.io step e), w) := by
  unfold change
  rw [bind_apply, ask_apply]
  cases act w.disk <;> rfl

theorem changeBy_apply (step : Step) (act : Disk → Except IoError Unit × Disk) (w : World) :
    changeBy step act w =
      ((act w.disk).1.mapError (.io step), { w with disk := (act w.disk).2 }) := by
  unfold changeBy
  rw [bind_of_ok (disk_apply w)]
  rcases act w.disk with ⟨_ | _, d⟩ <;> rfl

/-- What a first action and what follows it leave alone. -/
theorem sameBut_bind {places : Place → Prop} {action : Action α} {f : α → Action β} {w : World}
    (first : w.disk.SameBut places (action w).2.disk)
    (next : ∀ a w', action w = (.ok a, w') → w'.disk.here = w.disk.here →
      w'.disk.SameBut places (f a w').2.disk) :
    w.disk.SameBut places ((action >>= f) w).2.disk := by
  rw [bind_apply]
  rcases step : action w with ⟨e | a, w'⟩ <;> rw [step] at first
  · exact first
  · exact first.trans (next a w' step first.here)

theorem sameBut_tryCatch {places : Place → Prop} {action : Action α} {f : Failure → Action α}
    {w : World} (first : w.disk.SameBut places (action w).2.disk)
    (next : ∀ e w', action w = (.error e, w') → w'.disk.here = w.disk.here →
      w'.disk.SameBut places (f e w').2.disk) :
    w.disk.SameBut places ((tryCatch action f : Action α) w).2.disk := by
  rw [tryCatch_apply]
  rcases step : action w with ⟨e | a, w'⟩ <;> rw [step] at first
  · exact first.trans (next e w' step first.here)
  · exact first

/-- **An action that stays within some places.**  Started where relative paths begin at
`here`, it changes no file elsewhere, and something holds of what it returns. -/
structure Within (here : Place) (places : Place → Prop) (action : Action α) (result : α → Prop) :
    Prop where
  frame : ∀ w : World, w.disk.here = here → w.disk.SameBut places (action w).2.disk
  returns : ∀ w : World, w.disk.here = here → ∀ a, (action w).1 = .ok a → result a

namespace Within
variable {here : Place} {places : Place → Prop} {result : α → Prop} {result' : β → Prop}

theorem sameBut (h : Within here places action fun _ => True) {w : World}
    (hw : w.disk.here = here) : w.disk.SameBut places (action w).2.disk := h.frame w hw

theorem mono (h : Within here places action result) {more : Place → Prop}
    (sub : ∀ place, places place → more place) : Within here more action result :=
  ⟨fun w hw => (h.frame w hw).mono sub, h.returns⟩

theorem imp (h : Within here places action result) {more : α → Prop}
    (sub : ∀ a, result a → more a) : Within here places action more :=
  ⟨h.frame, fun w hw a same => sub a (h.returns w hw a same)⟩

theorem pure {a : α} (h : result a) : Within here places (Pure.pure a) result :=
  ⟨fun w _ => .refl _ w.disk, fun _ _ _ same => Except.ok.inj same ▸ h⟩

theorem throw (e : Failure) : Within here places (throw e : Action α) result :=
  ⟨fun w _ => .refl _ w.disk, fun _ _ _ same => nomatch same⟩

/-- What leaves the world as it is stays within any places. -/
theorem of_unchanged {action : Action α} (h : ∀ w, (action w).2 = w) :
    Within here places action fun _ => True :=
  ⟨fun w _ => (h w).symm ▸ .refl _ w.disk, fun _ _ _ _ => trivial⟩

theorem bind {action : Action α} {f : α → Action β} (first : Within here places action result)
    (next : ∀ a, result a → Within here places (f a) result') :
    Within here places (action >>= f) result' := by
  constructor
  · intro w hw
    refine sameBut_bind (first.frame w hw) fun a w' step same => ?_
    -- relative paths begin in the same place behind the first action
    have returned := first.returns w hw a (by rw [step])
    exact (next a returned).frame w' (same.trans hw)
  · intro w hw b same
    have frame := first.frame w hw
    have returns := first.returns w hw
    rw [bind_apply] at same
    rcases step : action w with ⟨e | a, w'⟩ <;> rw [step] at same frame returns
    · cases same
    · exact (next a (returns a rfl)).returns w' (frame.here.trans hw) b same

/-- Nothing follows a failure. -/
theorem throw_bind (e : Failure) (f : α → Action β) :
    Within here places (MonadExcept.throw e >>= f) result' :=
  bind (@throw α here places (fun _ => False) e) fun _ => False.elim

theorem tryCatch {action : Action α} {f : Failure → Action α}
    (first : Within here places action result) (next : ∀ e, Within here places (f e) result) :
    Within here places (tryCatch action f) result := by
  constructor
  · intro w hw
    exact sameBut_tryCatch (first.frame w hw) fun e w' _ same =>
      (next e).frame w' (same.trans hw)
  · intro w hw a same
    have frame := first.frame w hw
    have returns := first.returns w hw
    rw [tryCatch_apply] at same
    rcases step : action w with ⟨e | b, w'⟩ <;> rw [step] at same frame returns
    · exact (next e).returns w' (frame.here.trans hw) a same
    · exact returns a same

theorem forM {f : α → Action PUnit} {xs : List α}
    (each : ∀ x ∈ xs, Within here places (f x) fun _ => True) :
    Within here places (xs.forM f) fun _ => True := by
  induction xs with
  | nil => exact .pure trivial
  | cons x xs ih =>
    exact .bind (each x List.mem_cons_self) fun _ _ => ih fun y hy => each y (.tail x hy)

theorem mapM {f : α → Action β} {xs : List α}
    (each : ∀ x ∈ xs, Within here places (f x) fun _ => True) :
    Within here places (xs.mapM f) fun _ => True := by
  induction xs with
  | nil => exact .pure trivial
  | cons x xs ih =>
    rw [List.mapM_cons]
    refine .bind (each x List.mem_cons_self) fun _ _ => ?_
    exact .bind (ih fun y hy => each y (.tail x hy)) fun _ _ => .pure trivial

theorem ofOutcome (outcome : Outcome α) :
    Within here places (Action.ofOutcome outcome) (outcome = .ok ·) := by
  cases outcome with
  | ok a => exact .pure rfl
  | error e => exact .throw e

/-! ## Questions and changes -/

theorem ask (step : Step) (question : Disk → Except IoError α) :
    Within here places (Action.ask step question) fun _ => True :=
  of_unchanged fun w => by rw [ask_apply]

theorem change (step : Step) {act : Disk → Except IoError Disk}
    (frame : ∀ d d' : Disk, d.here = here → act d = .ok d' → d.SameBut places d') :
    Within here places (Action.change step act) fun _ => True := by
  refine ⟨fun w hw => ?_, fun _ _ _ _ => trivial⟩
  rw [change_apply]
  split
  · rename_i d' made
    exact frame w.disk d' hw made
  · exact .refl _ w.disk

theorem changeBy (step : Step) {act : Disk → Except IoError Unit × Disk}
    (frame : ∀ d : Disk, d.here = here → d.SameBut places (act d).2) :
    Within here places (Action.changeBy step act) fun _ => True := by
  refine ⟨fun w hw => ?_, fun _ _ _ _ => trivial⟩
  rw [changeBy_apply]
  exact frame w.disk hw

/-! ## Files and directories -/

theorem disk : Within here places Action.disk fun _ => True :=
  of_unchanged fun _ => rfl

theorem isFile (p : Path) : Within here places (Action.isFile p) fun _ => True :=
  of_unchanged fun _ => rfl

theorem exists? (p : Path) : Within here places (Action.exists? p) fun _ => True :=
  of_unchanged fun _ => rfl

theorem makeDirs (p : Path) : Within here places (Action.makeDirs p) fun _ => True :=
  changeBy _ fun d _ => (d.sameBut_makeDirs p).mono fun _ => False.elim

theorem makeParent (p : Path) : Within here places (Action.makeParent p) fun _ => True := by
  unfold Action.makeParent
  split
  · exact makeDirs _
  · exact .pure trivial

/-- Writing stays within the place of its path. -/
theorem writeFile {p : Path} (bytes : ByteArray) (into : places (p.place here)) :
    Within here places (Action.writeFile p bytes) fun _ => True :=
  change _ fun _ _ hd made =>
    (Disk.sameBut_write made).mono fun _ same => same ▸ hd ▸ into

/-- Removing stays below the place of its path. -/
theorem remove {p : Path} (below : ∀ place, p.place here <+: place → places place) :
    Within here places (Action.remove p) fun _ => True := by
  have removing := @changeBy here places (.removing p.text) (·.remove p) fun d hd =>
    (d.sameBut_remove p).mono fun place at_ => below place (hd ▸ at_)
  unfold Action.remove
  refine .bind disk fun d _ => ?_
  split
  · exact .pure trivial
  · exact .throw _
  · exact removing

theorem discard {p : Path} (below : ∀ place, p.place here <+: place → places place) :
    Within here places (Action.discard p) fun _ => True :=
  .tryCatch (remove below) fun _ => .pure trivial

theorem clear {p : Path} (below : ∀ place, p.place here <+: place → places place) :
    Within here places (Action.clear p) fun _ => True :=
  .bind (remove below) fun _ _ => makeParent p

end Within

/-- An action that uses the directory for passing files, and that is within some places, is within
them also with that directory made and removed around it. -/
theorem sameBut_withScratch {places : Place → Prop} {s : Surroundings} {use : Path → Action α}
    {w : World} (below : ∀ place, s.scratch.place w.disk.here <+: place → places place)
    (used : ∀ w', makeDirs s.scratch w = (.ok (), w') → w'.disk.here = w.disk.here →
      w'.disk.SameBut places (use s.scratch w').2.disk) :
    w.disk.SameBut places (withScratch s use w).2.disk := by
  refine sameBut_bind ((Within.makeDirs s.scratch).sameBut rfl) fun _ w₁ made here₁ => ?_
  refine sameBut_bind (sameBut_tryCatch (used w₁ made here₁) fun e w₂ _ here₂ => ?_)
    fun a w₂ _ here₂ => ?_
  · exact Within.sameBut (.bind (.discard below) fun _ _ => .throw e) (here₂.trans here₁)
  · exact Within.sameBut (.bind (.discard below) fun _ _ => .pure trivial) (here₂.trans here₁)

end Patchwork.Action
