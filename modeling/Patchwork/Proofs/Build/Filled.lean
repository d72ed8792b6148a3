import Patchwork.Build.ToolRun

/-! Templates that are filled in.  A name between braces is a token.  Behind an opening brace that no
closing one has followed, the filler takes what comes for a part of the name and finds no token there;
everywhere else it replaces the tokens whose names it knows (`Placeholders.replaced_fillChars`).  Which
tokens it replaces so decides what becomes of a template (`Placeholders.Replaced.unique`), and where
no known token stands behind an open brace these are all of them
(`Placeholders.fill_iff_replaced`). -/

namespace Patchwork.Placeholders

/-- A name between braces. -/
def token (name : List Char) : List Char := '\x7b' :: (name ++ ['\x7d'])

/-- Whether a name has a value. -/
def Knows (v : Placeholders) (name : List Char) : Prop := (v.get? (String.ofList name)).isSome

/-- Whether a brace is open at the end of a text: one was opened and none was closed since. -/
def OpensBrace (front : List Char) : Prop :=
  ∃ before name, front = before ++ '\x7b' :: name ∧ '\x7d' ∉ name

/-- **What becomes of a template** of which some front has been passed: every known token is replaced by
its value as a whole, but those behind the fronts that are to be skipped, and every other character
stays as it is. -/
inductive Replaced (v : Placeholders) (skips : List Char → Prop) :
    List Char → List Char → List Char → Prop
  | nil (front : List Char) : Replaced v skips front [] []
  | known {front name rest filled : List Char} {value : String}
      (has : v.get? (String.ofList name) = some value) (found : ¬ skips front)
      (next : Replaced v skips (front ++ token name) rest filled) :
      Replaced v skips front (token name ++ rest) (value.toList ++ filled)
  | kept {front rest filled : List Char} {c : Char}
      (apart : ∀ name back, c :: rest = token name ++ back → v.Knows name → skips front)
      (next : Replaced v skips (front ++ [c]) rest filled) :
      Replaced v skips front (c :: rest) (c :: filled)

/-- **Whether the names that have values hold no braces.** -/
def Braceless (v : Placeholders) : Prop :=
  ∀ name, v.Knows name → '\x7b' ∉ name ∧ '\x7d' ∉ name

variable {v : Placeholders} {skips : List Char → Prop} {front rest filled name : List Char} {c : Char}

/-! ## Open braces -/

theorem not_opensBrace_nil : ¬ OpensBrace [] := by
  rintro ⟨before, name, whole, -⟩
  exact absurd whole.symm (List.append_ne_nil_of_right_ne_nil _ (List.cons_ne_nil _ _))

/-- A brace stays open up to the next closing one. -/
theorem OpensBrace.append (opens : OpensBrace front) (unclosed : '\x7d' ∉ name) :
    OpensBrace (front ++ name) := by
  obtain ⟨before, started, rfl, open_⟩ := opens
  refine ⟨before, started ++ name, by rw [List.append_assoc, List.cons_append], ?_⟩
  rw [List.mem_append]
  exact not_or.mpr ⟨open_, unclosed⟩

theorem opensBrace_concat_brace (front : List Char) : OpensBrace (front ++ ['\x7b']) :=
  ⟨front, [], rfl, List.not_mem_nil⟩

/-- No other character opens a brace. -/
theorem OpensBrace.of_concat (opens : OpensBrace (front ++ [c])) (other : c ≠ '\x7b') :
    OpensBrace front := by
  obtain ⟨before, name, whole, unclosed⟩ := opens
  rcases List.eq_nil_or_concat name with rfl | ⟨name, last, rfl⟩
  · exact absurd (List.append_inj_right' whole rfl) (by simpa using other)
  · rw [List.concat_eq_append, ← List.cons_append, ← List.append_assoc] at whole
    refine ⟨before, name, List.append_inj_left' whole rfl, fun closed => unclosed ?_⟩
    rw [List.concat_eq_append]
    exact List.mem_append_left _ closed

/-- A closing brace leaves none open. -/
theorem not_opensBrace_concat_close (front : List Char) : ¬ OpensBrace (front ++ ['\x7d']) := by
  rintro ⟨before, name, whole, unclosed⟩
  rcases List.eq_nil_or_concat name with rfl | ⟨name, last, rfl⟩
  · exact absurd (List.append_inj_right' whole rfl) (by decide)
  · rw [List.concat_eq_append, ← List.cons_append, ← List.append_assoc] at whole
    obtain rfl : '\x7d' = last := by simpa using List.append_inj_right' whole rfl
    exact unclosed (by simp)

theorem not_opensBrace_token (front name : List Char) : ¬ OpensBrace (front ++ token name) := by
  rw [token, ← List.cons_append, ← List.append_assoc]
  exact not_opensBrace_concat_close _

/-! ## Tokens -/

/-- Of the names that hold no closing brace, only one can stand behind an opening one. -/
theorem name_of_token {other back : List Char} (h : '\x7d' ∉ name) (h' : '\x7d' ∉ other)
    (same : token name ++ rest = token other ++ back) : name = other ∧ rest = back := by
  have cut : ∀ {name rest : List Char}, '\x7d' ∉ name →
      (name ++ '\x7d' :: rest).takeWhile (· != '\x7d') = name ∧
        (name ++ '\x7d' :: rest).dropWhile (· != '\x7d') = '\x7d' :: rest := by
    intro name rest unclosed
    have all : ∀ c ∈ name, (c != '\x7d') = true := fun c hc => by
      simpa using fun same : c = '\x7d' => unclosed (same ▸ hc)
    rw [List.takeWhile_append_of_pos all, List.dropWhile_append_of_pos all]
    simp
  have tails : name ++ '\x7d' :: rest = other ++ '\x7d' :: back := by
    simpa [token] using same
  obtain ⟨taken, left⟩ := @cut name rest h
  obtain ⟨taken', left'⟩ := @cut other back h'
  rw [tails] at taken left
  exact ⟨taken.symm.trans taken', (List.cons.inj (left.symm.trans left')).2⟩

/-- **Only one thing can become of a template.** -/
theorem Replaced.unique (plain : v.Braceless) {template filled filled' : List Char}
    (h : v.Replaced skips front template filled) (h' : v.Replaced skips front template filled') :
    filled = filled' := by
  induction h generalizing filled' with
  | nil => cases h'; rfl
  | @known front name rest filled value has found _ ih =>
    have knows : v.Knows name := by rw [Knows, has]; rfl
    generalize whole : token name ++ rest = template at h'
    cases h' with
    | nil => exact absurd whole (List.cons_ne_nil _ _)
    | @known _ other back _ value' has' _ next' =>
      have knows' : v.Knows other := by rw [Knows, has']; rfl
      obtain ⟨rfl, rfl⟩ := name_of_token (plain _ knows).2 (plain _ knows').2 whole
      rw [has] at has'
      rw [Option.some.inj has', ih next']
    | kept apart _ => exact absurd (apart name rest whole.symm knows) found
  | @kept front rest filled c apart _ ih =>
    generalize whole : c :: rest = template at h'
    cases h' with
    | nil => cases whole
    | @known _ name back _ value has found _ =>
      have knows : v.Knows name := by rw [Knows, has]; rfl
      exact absurd (apart name back whole knows) found
    | kept apart' next' =>
      obtain ⟨rfl, rfl⟩ := List.cons.inj whole
      rw [ih next']

/-- Where no known token is skipped, all of them are replaced. -/
theorem Replaced.all {template : List Char} (h : v.Replaced skips front template filled)
    (found : ∀ before name back, template = before ++ (token name ++ back) → v.Knows name →
      ¬ skips (front ++ before)) : v.Replaced (fun _ => False) front template filled := by
  induction h with
  | nil => exact .nil _
  | @known front name rest filled value has _ _ ih =>
    refine .known has not_false (ih fun before other back split knows => ?_)
    rw [List.append_assoc]
    exact found (token name ++ before) other back (by rw [split, List.append_assoc]) knows
  | @kept front rest filled c apart _ ih =>
    refine .kept (fun name back whole knows => ?_) (ih fun before other back split knows => ?_)
    · have skipped := apart name back whole knows
      exact absurd (by rwa [List.append_nil]) (found [] name back whole knows)
    · rw [List.append_assoc]
      exact found ([c] ++ before) other back (by rw [split, List.append_assoc]; rfl) knows

/-! ## What the filler does -/

/-- Behind an open brace all stays as it is up to the next closing one. -/
theorem Replaced.behind_brace (opens : OpensBrace front) (unclosed : '\x7d' ∉ name)
    (next : v.Replaced OpensBrace (front ++ name) rest filled) :
    v.Replaced OpensBrace front (name ++ rest) (name ++ filled) := by
  induction name generalizing front with
  | nil => rwa [List.append_nil] at next
  | cons c name ih =>
    obtain ⟨other, unclosed⟩ := not_or.mp (mt List.mem_cons.mpr unclosed)
    have opens' : OpensBrace (front ++ [c]) := opens.append (by simpa using other)
    refine .kept (fun _ _ _ _ => opens) (ih opens' unclosed ?_)
    rwa [List.append_assoc]

theorem fillChars_unclosed (v : Placeholders) {name rest : List Char} (unclosed : '\x7d' ∉ rest) :
    v.fillChars (some name) rest = '\x7b' :: (name.reverse ++ rest) := by
  induction rest generalizing name with
  | nil => simp [fillChars]
  | cons c rest ih =>
    obtain ⟨other, unclosed⟩ := not_or.mp (mt List.mem_cons.mpr unclosed)
    simp [fillChars, Ne.symm other, ih unclosed]

theorem fillChars_closed (v : Placeholders) {name inner : List Char} (unclosed : '\x7d' ∉ inner)
    (back : List Char) : v.fillChars (some name) (inner ++ '\x7d' :: back) =
      v.fillName (name.reverse ++ inner) ++ v.fillChars none back := by
  induction inner generalizing name with
  | nil => simp [fillChars]
  | cons c inner ih =>
    obtain ⟨other, unclosed⟩ := not_or.mp (mt List.mem_cons.mpr unclosed)
    simp [fillChars, Ne.symm other, ih unclosed]

/-- **The filler replaces the known tokens** that do not stand behind an open brace. -/
theorem replaced_fillChars (plain : v.Braceless) {front : List Char} (closed : ¬ OpensBrace front)
    (template : List Char) :
    v.Replaced OpensBrace front template (v.fillChars none template) := by
  -- a name is passed at one go, so the induction is on the length of what is left
  induction size : template.length using Nat.strongRecOn generalizing front template with
  | ind n ih =>
  subst size
  match template with
  | [] => exact .nil _
  | c :: rest =>
    by_cases brace : c = '\x7b'
    case neg =>
      rw [fillChars, if_neg brace]
      refine .kept (fun name back whole _ => absurd (List.cons.inj whole).1 brace) ?_
      exact ih _ (Nat.lt_succ_self _) (fun opens => closed (opens.of_concat brace)) rest rfl
    subst brace
    have filled : v.fillChars none ('\x7b' :: rest) = v.fillChars (some []) rest := by
      rw [fillChars]
      exact if_pos rfl
    by_cases closing : '\x7d' ∈ rest
    case neg =>
      -- no token is closed any more
      rw [filled, fillChars_unclosed v closing, List.reverse_nil, List.nil_append]
      refine .kept (fun name back whole _ => absurd ?_ closing) ?_
      · rw [(List.cons.inj whole).2]
        simp
      · have last := Replaced.behind_brace (v := v) (opensBrace_concat_brace front) closing (.nil _)
        rwa [List.append_nil] at last
    · obtain ⟨inner, back, rfl, unclosed⟩ := List.eq_append_cons_of_mem closing
      rw [filled, fillChars_closed v unclosed, List.reverse_nil, List.nil_append]
      have size : back.length < ('\x7b' :: (inner ++ '\x7d' :: back)).length := by
        simp only [List.length_cons, List.length_append]
        omega
      have next := ih _ size (not_opensBrace_token front inner) back rfl
      unfold fillName
      split
      · rename_i value has
        have whole : '\x7b' :: (inner ++ '\x7d' :: back) = token inner ++ back := by simp [token]
        rw [whole]
        exact .known has closed next
      · rename_i unknown
        -- no other known name can stand behind the brace
        have apart : ∀ name rest, '\x7b' :: (inner ++ '\x7d' :: back) = token name ++ rest →
            v.Knows name → OpensBrace front := by
          intro name rest whole knows
          have same : token inner ++ back = token name ++ rest := by simpa [token] using whole
          obtain ⟨rfl, -⟩ := name_of_token unclosed (plain name knows).2 same
          rw [Knows, unknown] at knows
          cases knows
        have last : v.Replaced OpensBrace (front ++ ['\x7b'] ++ inner) ('\x7d' :: back)
            ('\x7d' :: v.fillChars none back) := by
          refine .kept (fun name rest whole _ => absurd (List.cons.inj whole).1 (by decide)) ?_
          rwa [List.append_assoc, List.append_assoc]
        have inside := Replaced.behind_brace (opensBrace_concat_brace front) unclosed last
        have text : '\x7b' :: (inner ++ ['\x7d']) ++ v.fillChars none back =
            '\x7b' :: (inner ++ '\x7d' :: v.fillChars none back) := by simp
        rw [text]
        exact .kept apart inside

/-- **What filling in a template comes to.**  The known tokens that stand behind no open brace are
replaced, and all else stays as it is; where no known token stands behind an open brace, every one of
them is replaced. -/
theorem fill_iff_replaced (plain : v.Braceless) (template filled : String) :
    (filled = v.fill template ↔ v.Replaced OpensBrace [] template.toList filled.toList) ∧
      ((∀ front name back, template.toList = front ++ (token name ++ back) → v.Knows name →
          ¬ OpensBrace front) →
        (filled = v.fill template ↔
          v.Replaced (fun _ => False) [] template.toList filled.toList)) := by
  have done := replaced_fillChars plain not_opensBrace_nil template.toList
  have text : (v.fill template).toList = v.fillChars none template.toList := by
    rw [fill, String.toList_ofList]
  rw [← text] at done
  refine ⟨⟨?_, fun replaced => ?_⟩, fun found => ⟨?_, fun replaced => ?_⟩⟩
  · rintro rfl
    exact done
  · exact String.toList_inj.mp (replaced.unique plain done)
  · rintro rfl
    exact done.all found
  · exact String.toList_inj.mp (replaced.unique plain (done.all found))

/-! ## A template -/

/-- Where there is one opening brace at most, nothing stands behind an open one. -/
theorem not_opensBrace_of_count {template front name back : List Char}
    (once : template.count '\x7b' ≤ 1) (split : template = front ++ (token name ++ back)) :
    ¬ OpensBrace front := by
  rintro ⟨before, inner, rfl, -⟩
  rw [split, token] at once
  simp only [List.count_append, List.count_cons, List.cons_append, beq_self_eq_true, if_true] at once
  omega

/-- Values with one name. -/
def demoValues : Placeholders := empty.set "input" "a.jar"

theorem knows_demoValues {name : List Char} (knows : demoValues.Knows name) :
    name = ['i', 'n', 'p', 'u', 't'] := by
  have found : demoValues.get? (String.ofList name) =
      if compare "input" (String.ofList name) = .eq then some "a.jar" else none := by
    rw [demoValues, get?, set, Std.TreeMap.getElem?_insert]
    rfl
  rw [Knows, found] at knows
  split at knows
  · rename_i same
    rw [← String.toList_ofList (l := name), ← Std.LawfulEqOrd.eq_of_compare same]
    rfl
  · cases knows

/-- A token behind a stray closing brace is replaced. -/
theorem fill_iff_replaced_demo : demoValues.Braceless ∧
    (∀ front name back, "\x7d-i=\x7binput\x7d".toList = front ++ (token name ++ back) →
      demoValues.Knows name → ¬ OpensBrace front) ∧
    demoValues.Replaced (fun _ => False) [] "\x7d-i=\x7binput\x7d".toList "\x7d-i=a.jar".toList := by
  have plain : demoValues.Braceless := by
    intro name knows
    rw [knows_demoValues knows]
    decide
  have found : ∀ front name back, "\x7d-i=\x7binput\x7d".toList = front ++ (token name ++ back) →
      demoValues.Knows name → ¬ OpensBrace front :=
    fun _ _ _ split _ => not_opensBrace_of_count (by decide) split
  refine ⟨plain, found, ((fill_iff_replaced plain _ _).2 found).mp ?_⟩
  decide +kernel

-- A second opening brace hides the token that begins with it.
example : demoValues.fill "\x7b\x7binput\x7d" = "\x7b\x7binput\x7d" := by decide +kernel

end Patchwork.Placeholders
