import Patchwork.Proofs.World

/-! How actions end.  Started in a world, an action returns something or fails, and leaves a
world either way (`Ends`).  What holds then follows the parts of the action one after another:
what follows a first action is started in the world that the first one left, and a loop keeps
what each of its rounds keeps (`Ends.forM`). -/

namespace Patchwork

/-- The world with another disk. -/
def World.withDisk (w : World) (d : Disk) : World := { w with disk := d }

@[simp]
theorem World.withDisk_disk (w : World) (d : Disk) : (w.withDisk d).disk = d := rfl

namespace Action
variable {α β : Type}

/-! ## Single steps -/

/-- Nothing follows a first action that fails. -/
theorem bind_of_error {action : Action α} {w w' : World} {e : Failure}
    (step : action w = (.error e, w')) (f : α → Action β) :
    (action >>= f) w = (.error e, w') := by
  rw [bind_apply, step]

/-- Where an action is known to return something, it leaves some world. -/
theorem exists_of_toOption {action : Action α} {w : World} {a : α}
    (done : (action w).1.toOption = some a) : ∃ w', action w = (.ok a, w') :=
  ⟨(action w).2, Prod.ext (eq_ok_of_toOption done) rfl⟩

section Steps
variable {step : Step} {question : Disk → Except IoError α} {w : World}

/-- A question whose answer is known. -/
theorem ask_of_ok {a : α} (known : question w.disk = .ok a) :
    ask step question w = (.ok a, w) := by
  rw [ask_apply, known]
  rfl

theorem ask_of_error {e : IoError} (known : question w.disk = .error e) :
    ask step question w = (.error (.io step e), w) := by
  rw [ask_apply, known]
  rfl

theorem isFile_apply (p : Path) (w : World) : isFile p w = (.ok (w.disk.isFile p), w) := rfl

theorem isDir_apply (p : Path) (w : World) : isDir p w = (.ok (w.disk.isDir p), w) := rfl

theorem exists?_apply (p : Path) (w : World) : exists? p w = (.ok (w.disk.exists? p), w) := rfl

end Steps

/-- A change that succeeds leaves the disk that it makes. -/
theorem change_ran_iff {step : Step} {act : Disk → Except IoError Disk} {w w' : World} :
    change step act w = (.ok (), w') ↔ ∃ d, act w.disk = .ok d ∧ w' = w.withDisk d := by
  rw [change_apply]
  rcases act w.disk with e | d
  · exact ⟨nofun, nofun⟩
  · constructor
    · rintro ⟨⟩
      exact ⟨d, rfl, rfl⟩
    · rintro ⟨_, ⟨⟩, rfl⟩
      rfl

/-! ## Questions -/

/-- An action that only asks. -/
def Asks (action : Action α) : Prop := ∀ w, (action w).2 = w

namespace Asks

theorem bind {action : Action α} {f : α → Action β} (first : action.Asks)
    (next : ∀ a, (f a).Asks) : (action >>= f).Asks := by
  intro w
  rw [bind_apply]
  have first := first w
  rcases ran : action w with ⟨e | a, w'⟩ <;> rw [ran] at first
  · exact first
  · exact (next a w').trans first

theorem pure (a : α) : Asks (Pure.pure a : Action α) := fun _ => rfl

theorem throw (e : Failure) : Asks (MonadExcept.throw e : Action α) := fun _ => rfl

theorem ofOutcome (outcome : Outcome α) : (Action.ofOutcome outcome).Asks := fun w => by
  rw [ofOutcome_apply]

theorem ask (step : Step) (question : Disk → Except IoError α) :
    (Action.ask step question).Asks := fun w => by rw [ask_apply]

theorem filesBelow (p : Path) : (Action.filesBelow p).Asks :=
  .bind (fun _ => rfl) fun d => by
    split
    · exact .pure _
    · exact .throw _

/-- What follows a question that was answered is started where the question was. -/
theorem bind_ran_iff {action : Action α} {f : α → Action β} {w w' : World} {b : β}
    (asks : action.Asks) :
    (action >>= f) w = (.ok b, w') ↔ ∃ a, action w = (.ok a, w) ∧ f a w = (.ok b, w') := by
  have same := asks w
  rw [Action.bind_ran_iff]
  constructor
  · rintro ⟨a, w₁, ran, next⟩
    obtain rfl : w₁ = w := by rwa [ran] at same
    exact ⟨a, ran, next⟩
  · rintro ⟨a, ran, next⟩
    exact ⟨a, w, ran, next⟩

/-- What only asks leaves the world as it was. -/
theorem ran {action : Action α} {w : World} {a : α} (asks : action.Asks)
    (done : (action w).1.toOption = some a) : action w = (.ok a, w) :=
  Prod.ext (eq_ok_of_toOption done) (asks w)

end Asks

/-! ## Ends -/

/-- **How an action ends** in a world: something holds of what it returns and the world it leaves,
or of its failure and that world. -/
structure Ends (action : Action α) (w : World) (done : α → World → Prop)
    (failed : Failure → World → Prop) : Prop where
  ok : ∀ {a w'}, action w = (.ok a, w') → done a w'
  error : ∀ {e w'}, action w = (.error e, w') → failed e w'

namespace Ends
variable {action : Action α} {w w' : World} {done more : α → World → Prop}
  {result : β → World → Prop} {failed other : Failure → World → Prop}

theorem of_ok {a : α} (ran : action w = (.ok a, w')) (h : done a w') :
    Ends action w done failed := by
  constructor <;> intro _ _ ran' <;> cases ran.symm.trans ran'
  exact h

theorem of_error {e : Failure} (ran : action w = (.error e, w')) (h : failed e w') :
    Ends action w done failed := by
  constructor <;> intro _ _ ran' <;> cases ran.symm.trans ran'
  exact h

theorem imp (h : Ends action w done failed) (sub : ∀ a w', done a w' → more a w')
    (sub' : ∀ e w', failed e w' → other e w') : Ends action w more other :=
  ⟨fun ran => sub _ _ (h.ok ran), fun ran => sub' _ _ (h.error ran)⟩

protected theorem pure {a : α} (h : done a w) : Ends (Pure.pure a) w done failed := .of_ok rfl h

protected theorem throw {e : Failure} (h : failed e w) :
    Ends (MonadExcept.throw e : Action α) w done failed := .of_error rfl h

/-- What follows an action whose end is known. -/
theorem bind_of_ok {f : α → Action β} {a : α} (ran : action w = (.ok a, w'))
    (next : Ends (f a) w' result failed) : Ends (action >>= f) w result failed := by
  have whole := Action.bind_of_ok ran f
  exact ⟨fun ran' => next.ok (whole ▸ ran'), fun ran' => next.error (whole ▸ ran')⟩

theorem bind_of_error {f : α → Action β} {e : Failure} (ran : action w = (.error e, w'))
    (h : failed e w') : Ends (action >>= f) w result failed :=
  .of_error (Action.bind_of_error ran f) h

protected theorem bind {f : α → Action β} (first : Ends action w more failed)
    (next : ∀ a w', more a w' → Ends (f a) w' result failed) :
    Ends (action >>= f) w result failed := by
  rcases ran : action w with ⟨e | a, w'⟩
  · exact .bind_of_error ran (first.error ran)
  · exact .bind_of_ok ran (next a w' (first.ok ran))

/-- Nothing follows a failure. -/
theorem throw_bind {f : α → Action β} {e : Failure} (h : failed e w) :
    Ends (MonadExcept.throw e >>= f) w result failed := .of_error rfl h

/-- A failure is caught in the world that it left. -/
protected theorem tryCatch {f : Failure → Action α} (first : Ends action w done other)
    (next : ∀ e w', other e w' → Ends (f e) w' done failed) :
    Ends (tryCatch action f) w done failed := by
  have whole := tryCatch_apply action f w
  rcases ran : action w with ⟨e | a, w'⟩ <;> rw [ran] at whole
  · have next := next e w' (first.error ran)
    dsimp only at whole
    exact ⟨fun ran' => next.ok (whole ▸ ran'), fun ran' => next.error (whole ▸ ran')⟩
  · exact .of_ok whole (first.ok ran)

/-- **A loop** keeps what each round keeps of the items that it has come through. -/
protected theorem forM {f : α → Action PUnit} (kept : List α → World → Prop) (xs : List α)
    (start : kept [] w)
    (round : ∀ before x after, xs = before ++ x :: after → ∀ w', kept before w' →
      Ends (f x) w' (fun _ w'' => kept (before ++ [x]) w'') failed) :
    Ends (xs.forM f) w (fun _ w' => kept xs w') failed := by
  have loop : ∀ after before w', xs = before ++ after → kept before w' →
      Ends (after.forM f) w' (fun _ w'' => kept xs w'') failed := by
    intro after
    induction after with
    | nil =>
      intro before w' whole holds
      rw [List.append_nil] at whole
      exact .pure (whole ▸ holds)
    | cons x after ih =>
      intro before w' whole holds
      refine .bind (round before x after whole w' holds) fun _ w'' holds' => ?_
      exact ih (before ++ [x]) w'' (by rw [whole, List.append_assoc]; rfl) holds'
  exact loop xs [] w rfl start

/-! ## Changes -/

protected theorem change {step : Step} {act : Disk → Except IoError Disk}
    {done : PUnit → World → Prop} (made : ∀ d, act w.disk = .ok d → done ⟨⟩ (w.withDisk d))
    (refused : ∀ e, act w.disk = .error e → failed (.io step e) w) :
    Ends (Action.change step act) w done failed := by
  have ran := change_apply step act w
  rcases known : act w.disk with e | d <;> rw [known] at ran
  · exact .of_error ran (refused e known)
  · exact .of_ok ran (made d known)

protected theorem changeBy {step : Step} {act : Disk → Except IoError Unit × Disk}
    {done : PUnit → World → Prop}
    (made : ∀ d, act w.disk = (.ok (), d) → done ⟨⟩ (w.withDisk d))
    (refused : ∀ e d, act w.disk = (.error e, d) → failed (.io step e) (w.withDisk d)) :
    Ends (Action.changeBy step act) w done failed := by
  have ran := changeBy_apply step act w
  rcases known : act w.disk with ⟨e | _, d⟩ <;> rw [known] at ran
  · exact .of_error ran (refused e d known)
  · exact .of_ok ran (made d known)

end Ends

/-- What follows a question is started where the question was. -/
theorem Asks.ends_bind {action : Action α} {f : α → Action β} {w : World} {result : β → World → Prop}
    {failed : Failure → World → Prop} (first : action.Asks)
    (refused : ∀ e, action w = (.error e, w) → failed e w)
    (next : ∀ a, action w = (.ok a, w) → Ends (f a) w result failed) :
    Ends (action >>= f) w result failed := by
  have first := first w
  rcases ran : action w with ⟨e | a, w'⟩ <;> rw [ran] at first <;> cases first
  · exact .bind_of_error ran (refused e ran)
  · exact .bind_of_ok ran (next a ran)

end Action
end Patchwork
