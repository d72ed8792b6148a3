import Patchwork.Toml.Scalar
import Patchwork.Proofs.Toml.Text

/-! Numbers, dates and truth values that are read again.  None of them goes on where a value ends, so
a reader that stops within some characters takes the same of them off whatever follows
(`Steady`). -/

namespace Patchwork.Toml
variable {r r' : List Char}

/-! ## Marks at the end -/

/-- A word that no mark at the end of a value belongs to stands wholly in front of that end. -/
theorem exists_append_of_endsValue {w c rest : List Char} (ends : EndsValue r)
    (other : w.all fun x => !endMarks.contains x) (h : c ++ r = w ++ rest) :
    ∃ c', c = w ++ c' ∧ rest = c' ++ r := by
  induction w generalizing c with
  | nil => exact ⟨c, rfl, h.symm⟩
  | cons x w ih =>
    rw [List.all_cons, Bool.and_eq_true] at other
    obtain ⟨first, others⟩ := other
    have first : x ∉ endMarks := by simpa using first
    match c with
    | [] =>
      rw [List.nil_append] at h
      rw [h] at ends
      exact absurd rfl (ends.ne first)
    | y :: c =>
      obtain ⟨rfl, tail⟩ := List.cons.inj h
      obtain ⟨c', rfl, same⟩ := ih others tail
      exact ⟨c', rfl, same⟩

/-- So whether the word stands there does not depend on what follows. -/
theorem not_append_of_endsValue {w c : List Char} (ends' : EndsValue r')
    (other : w.all fun x => !endMarks.contains x) (h : ∀ rest, c ++ r ≠ w ++ rest) (rest : List Char) :
    c ++ r' ≠ w ++ rest := by
  intro same
  obtain ⟨c', rfl, -⟩ := exists_append_of_endsValue ends' other same
  exact h (c' ++ r) (List.append_assoc _ _ _)

theorem not_of_endMarks {p : Char → Bool} (odd : endMarks.all fun c => !p c) {c : Char} {s : List Char}
    (ends : EndsValue (c :: s)) : ¬ p c := by
  have all := List.all_eq_true.mp odd c ends.head
  simpa using all

/-! ## Steady readers -/

/-- **A steady reader** takes the same characters off every text that goes on as a value ends. -/
def Steady (f : List Char → Option (List Char)) : Prop :=
  ∀ {r r' : List Char}, EndsValue r → EndsValue r' → ∀ {c t : List Char}, f (c ++ r) = some t →
    ∃ c', c' <:+ c ∧ t = c' ++ r ∧ f (c ++ r') = some (c' ++ r')

theorem consumed_of_suffix {c c' : List Char} (r : List Char) (sub : c' <:+ c) :
    consumed (c ++ r) (c' ++ r) = c.take (c.length - c'.length) := by
  obtain ⟨w, rfl⟩ := sub
  rw [List.append_assoc, consumed_append, List.length_append, Nat.add_sub_cancel, List.take_left]

theorem steady_skip? {x : Char} (other : x ∉ endMarks) : Steady (skip? x) := by
  intro r r' ends ends' c t h
  match c with
  | [] =>
    match r with
    | [] => cases h
    | d :: r =>
      rw [List.nil_append, skip?, if_neg (ends.ne other).symm] at h
      cases h
  | d :: c =>
    rw [List.cons_append, skip?] at h
    split at h
    · rename_i same
      cases h
      exact ⟨c, List.suffix_cons d c, rfl, if_pos same⟩
    · cases h

/-! ## Numbers -/

section
variable {isDigit : Char → Bool} (odd : endMarks.all fun c => !isDigit c)
include odd

theorem notMem_of_isDigit {c : Char} (h : isDigit c) : c ∉ endMarks := by
  intro mark
  simpa [h] using List.all_eq_true.mp odd c mark

theorem moreDigits?_of_endsValue (ends : EndsValue r) : moreDigits? isDigit r = some r := by
  match r with
  | [] => rfl
  | d :: r =>
    have other := ends.ne (d := '_') (by decide)
    rw [moreDigits?.eq_3 _ _ _ (fun _ _ same => absurd same other) (fun same => absurd same other),
      if_neg (not_of_endMarks odd ends)]

theorem steady_moreDigits? : Steady (moreDigits? isDigit) := by
  intro r r' ends ends' c t h
  generalize whole : c ++ r = s at h
  have plain_of : ∀ {d : Char} {rest : List Char},
      (∀ x more, d = '_' → rest = x :: more → False) → (d = '_' → rest = [] → False) → d ≠ '_' := by
    rintro d (_ | ⟨x, more⟩) long short rfl
    · exact short rfl rfl
    · exact long _ _ rfl rfl
  fun_induction moreDigits? isDigit s generalizing c with
  | case1 d rest digit ih =>
    obtain ⟨c', rfl, same⟩ := @exists_append_of_endsValue r ['_', d] c rest ends
      (by simp [notMem_of_isDigit odd digit]; decide) whole
    obtain ⟨c'', sub, rfl, again⟩ := ih same.symm h
    refine ⟨c'', sub.trans (List.suffix_append _ _), rfl, ?_⟩
    rw [List.append_assoc, List.cons_append, List.singleton_append, moreDigits?, if_pos digit, again]
  | case2 => cases h
  | case3 => cases h
  | case4 d rest long short digit ih =>
    obtain ⟨c', rfl, same⟩ := @exists_append_of_endsValue r [d] c rest ends
      (by simp [notMem_of_isDigit odd digit]) whole
    obtain ⟨c'', sub, rfl, again⟩ := ih same.symm h
    have plain := plain_of long short
    refine ⟨c'', sub.trans (List.suffix_append _ _), rfl, ?_⟩
    rw [List.append_assoc, List.singleton_append,
      moreDigits?.eq_3 _ _ _ (fun _ _ same => absurd same plain) (fun same => absurd same plain),
      if_pos digit, again]
  | case5 d rest long short solid =>
    cases h
    have plain := plain_of long short
    match c with
    | [] => exact ⟨[], List.suffix_rfl, whole.symm, moreDigits?_of_endsValue odd ends'⟩
    | x :: c =>
      cases whole
      refine ⟨d :: c, List.suffix_rfl, rfl, ?_⟩
      rw [List.cons_append,
        moreDigits?.eq_3 _ _ _ (fun _ _ same => absurd same plain) (fun same => absurd same plain),
        if_neg solid]
  | case6 =>
    cases h
    obtain ⟨rfl, rfl⟩ := List.append_eq_nil_iff.mp whole
    exact ⟨[], List.suffix_rfl, rfl, moreDigits?_of_endsValue odd ends'⟩

theorem steady_digits? : Steady (digits? isDigit) := by
  intro r r' ends ends' c t h
  match c with
  | [] =>
    match r with
    | [] => cases h
    | d :: r =>
      rw [List.nil_append, digits?, if_neg (not_of_endMarks odd ends)] at h
      cases h
  | d :: c =>
    rw [List.cons_append, digits?] at h
    split at h
    · rename_i digit
      obtain ⟨c', sub, rfl, again⟩ := steady_moreDigits? odd ends ends' h
      refine ⟨c', sub.trans (List.suffix_cons d c), rfl, ?_⟩
      rw [List.cons_append, digits?, if_pos digit, again]
    · cases h

theorem steady_based? (base : Nat) : Steady (based? base isDigit) := by
  intro r r' ends ends' c t h
  obtain ⟨t, read, h⟩ := Option.bind_eq_some_iff.mp h
  obtain ⟨c', sub, rfl, again⟩ := steady_digits? odd ends ends' read
  rw [consumed_of_suffix r sub] at h
  split at h
  · rename_i small
    cases h
    refine ⟨c', sub, rfl, ?_⟩
    rw [based?, again]
    simp only [Option.bind_eq_bind, Option.bind_some]
    rw [consumed_of_suffix r' sub, if_pos small]
  · cases h

end

/-- Whether a sign is skipped does not depend on what follows. -/
theorem exists_skipSign (c : List Char) :
    ∃ c', c' <:+ c ∧ ∀ r, EndsValue r → skipSign (c ++ r) = c' ++ r := by
  match c with
  | [] =>
    refine ⟨[], List.suffix_rfl, fun r ends => skipSign.eq_3 _ ?_ ?_⟩
    · rintro rest rfl
      exact ends.ne (by decide) rfl
    · rintro rest rfl
      exact ends.ne (by decide) rfl
  | d :: c =>
    by_cases plus : d = '+'
    · exact ⟨c, List.suffix_cons d c, fun r _ => plus ▸ rfl⟩
    by_cases minus : d = '-'
    · exact ⟨c, List.suffix_cons d c, fun r _ => minus ▸ rfl⟩
    · exact ⟨d :: c, List.suffix_rfl, fun r _ => skipSign.eq_3 _
        (fun _ same => plus (List.cons.inj same).1) fun _ same => minus (List.cons.inj same).1⟩

theorem steady_whole? : Steady whole? := by
  intro r r' ends ends' c t h
  obtain ⟨c₁, sub, sign⟩ := exists_skipSign c
  unfold whole? at h
  rw [sign r ends] at h
  split at h
  · rename_i rest whole
    cases h
    obtain ⟨c₂, rfl, rfl⟩ := @exists_append_of_endsValue r ['0'] c₁ t ends (by decide) whole
    refine ⟨c₂, (List.suffix_append _ _).trans sub, rfl, ?_⟩
    rw [whole?, sign r' ends']
    rfl
  · rename_i other
    obtain ⟨c₂, sub', rfl, again⟩ := steady_digits? (by decide) ends ends' h
    refine ⟨c₂, sub'.trans sub, rfl, ?_⟩
    have other' := @not_append_of_endsValue r r' ['0'] c₁ ends' (by decide) fun rest same =>
      other rest same
    rw [whole?, sign r' ends']
    split
    · rename_i same
      exact absurd same (other' _)
    · exact again

theorem beginsExponent_append (ends : EndsValue r) (ends' : EndsValue r') (c : List Char) :
    beginsExponent (c ++ r) = beginsExponent (c ++ r') := by
  have none : ∀ {s}, EndsValue s → beginsExponent s = false := by
    rintro (_ | ⟨d, s⟩) ends
    · rfl
    · exact Bool.eq_false_iff.mpr (not_of_endMarks (p := fun c => c == 'e' || c == 'E') (by decide) ends)
  match c with
  | [] => rw [List.nil_append, List.nil_append, none ends, none ends']
  | d :: c => rfl

theorem steady_exponent? : Steady exponent? := by
  intro r r' ends ends' c t h
  match c with
  | [] =>
    match r with
    | [] => cases h
    | d :: r =>
      rw [List.nil_append, exponent?,
        if_neg (not_of_endMarks (p := fun c => c == 'e' || c == 'E') (by decide) ends)] at h
      cases h
  | d :: c =>
    obtain ⟨c₁, sub, sign⟩ := exists_skipSign c
    rw [List.cons_append, exponent?] at h
    split at h
    · rename_i mark
      rw [sign r ends] at h
      obtain ⟨c₂, sub', rfl, again⟩ := steady_digits? (by decide) ends ends' h
      refine ⟨c₂, (sub'.trans sub).trans (List.suffix_cons d c), rfl, ?_⟩
      rw [List.cons_append, exponent?, if_pos mark, sign r' ends', again]
    · cases h

theorem steady_fraction? : Steady fraction? := by
  intro r r' ends ends' c t h
  unfold fraction? at h
  split at h
  · rename_i rest whole
    obtain ⟨c₁, rfl, rfl⟩ := @exists_append_of_endsValue r ['.'] c _ ends (by decide) whole
    obtain ⟨t₁, read, h⟩ := Option.bind_eq_some_iff.mp h
    obtain ⟨c₂, sub, rfl, again⟩ := steady_digits? (by decide) ends ends' read
    have start : fraction? (['.'] ++ c₁ ++ r') =
        if beginsExponent (c₂ ++ r') then exponent? (c₂ ++ r') else some (c₂ ++ r') := by
      rw [List.append_assoc, List.singleton_append, fraction?, again]
      rfl
    split at h
    · rename_i exponent
      obtain ⟨c₃, sub', rfl, again'⟩ := steady_exponent? ends ends' h
      refine ⟨c₃, (sub'.trans sub).trans (List.suffix_append _ _), rfl, ?_⟩
      rw [start, if_pos (beginsExponent_append ends ends' c₂ ▸ exponent), again']
    · rename_i plain
      cases h
      refine ⟨c₂, sub.trans (List.suffix_append _ _), rfl, ?_⟩
      rw [start, if_neg (beginsExponent_append ends ends' c₂ ▸ plain)]
  · rename_i other
    obtain ⟨c₁, sub, rfl, again⟩ := steady_exponent? ends ends' h
    have other' := @not_append_of_endsValue r r' ['.'] c ends' (by decide) fun rest same =>
      other rest same
    exact ⟨c₁, sub, rfl, (fraction?.eq_2 _ fun rest same => other' rest same).trans again⟩

theorem head?_eq_point_append (ends : EndsValue r) (ends' : EndsValue r') (c : List Char) :
    ((c ++ r).head? = some '.' ↔ (c ++ r').head? = some '.') := by
  have none : ∀ {s}, EndsValue s → s.head? ≠ some '.' := by
    rintro (_ | ⟨d, s⟩) ends
    · exact nofun
    · exact fun same => ends.ne (by decide) (Option.some.inj same)
  match c with
  | [] => exact ⟨fun same => absurd same (none ends), fun same => absurd same (none ends')⟩
  | d :: c => exact Iff.rfl

/-- Skips a decimal number, whole or fractional. -/
def decimal? (s : List Char) : Option (List Char) := do
  let rest ← whole? s
  if rest.head? = some '.' || beginsExponent rest then
    let rest ← fraction? rest
    if tooLarge (consumed s rest) then none else some rest
  else if fitsWord (consumed s rest) then some rest
  else none

theorem steady_decimal? : Steady decimal? := by
  intro r r' ends ends' c t h
  obtain ⟨t₁, read, h⟩ := Option.bind_eq_some_iff.mp h
  obtain ⟨c₁, sub, rfl, again⟩ := steady_whole? ends ends' read
  have test : (decide ((c₁ ++ r).head? = some '.') || beginsExponent (c₁ ++ r)) =
      (decide ((c₁ ++ r').head? = some '.') || beginsExponent (c₁ ++ r')) := by
    rw [beginsExponent_append ends ends', decide_eq_decide.mpr (head?_eq_point_append ends ends' c₁)]
  rw [decimal?, again]
  simp only [Option.bind_eq_bind, Option.bind_some]
  rw [← test]
  split at h
  · rename_i fractional
    rw [if_pos fractional]
    obtain ⟨t₂, read', h⟩ := Option.bind_eq_some_iff.mp h
    obtain ⟨c₂, sub', rfl, again'⟩ := steady_fraction? ends ends' read'
    have all := sub'.trans sub
    rw [consumed_of_suffix r all] at h
    split at h
    · cases h
    · rename_i finite
      cases h
      refine ⟨c₂, all, rfl, ?_⟩
      rw [again', Option.bind_some, consumed_of_suffix r' all, if_neg finite]
  · rename_i plain
    rw [if_neg plain]
    rw [consumed_of_suffix r sub] at h
    split at h
    · rename_i fits
      cases h
      refine ⟨c₁, sub, rfl, ?_⟩
      rw [consumed_of_suffix r' sub, if_pos fits]
    · cases h

theorem steady_number? : Steady number? := by
  intro r r' ends ends' c t h
  unfold number? at h
  have hex : endMarks.all fun c => !isHex c := by decide
  have octal : endMarks.all fun c => !isOctal c := by decide
  have binary : endMarks.all fun c => !isBinary c := by decide
  split at h
  · rename_i rest whole
    obtain ⟨c₁, rfl, rfl⟩ := @exists_append_of_endsValue r ['0', 'x'] c _ ends (by decide) whole
    obtain ⟨c₂, sub, rfl, again⟩ := steady_based? hex 16 ends ends' h
    exact ⟨c₂, sub.trans (List.suffix_append _ _), rfl, again⟩
  · rename_i rest whole
    obtain ⟨c₁, rfl, rfl⟩ := @exists_append_of_endsValue r ['0', 'o'] c _ ends (by decide) whole
    obtain ⟨c₂, sub, rfl, again⟩ := steady_based? octal 8 ends ends' h
    exact ⟨c₂, sub.trans (List.suffix_append _ _), rfl, again⟩
  · rename_i rest whole
    obtain ⟨c₁, rfl, rfl⟩ := @exists_append_of_endsValue r ['0', 'b'] c _ ends (by decide) whole
    obtain ⟨c₂, sub, rfl, again⟩ := steady_based? binary 2 ends ends' h
    exact ⟨c₂, sub.trans (List.suffix_append _ _), rfl, again⟩
  · rename_i notHex notOctal notBinary
    have apart : ∀ {x}, x ∉ endMarks → (∀ rest, c ++ r = '0' :: x :: rest → False) →
        ∀ rest, c ++ r' = '0' :: x :: rest → False := by
      intro x other none rest same
      refine @not_append_of_endsValue r r' ['0', x] c ends' ?_ (fun rest same => none rest same) rest
        same
      have zero : '0' ∉ endMarks := by decide
      simp [zero, other]
    obtain ⟨c₁, sub, sign⟩ := exists_skipSign c
    rw [number?.eq_4 _ (apart (by decide) notHex) (apart (by decide) notOctal)
      (apart (by decide) notBinary), sign r' ends']
    rw [sign r ends] at h
    split at h
    · rename_i rest whole
      cases h
      obtain ⟨c₂, rfl, rfl⟩ :=
        @exists_append_of_endsValue r ['i', 'n', 'f'] c₁ t ends (by decide) whole
      exact ⟨c₂, (List.suffix_append _ _).trans sub, rfl, rfl⟩
    · rename_i rest whole
      cases h
      obtain ⟨c₂, rfl, rfl⟩ :=
        @exists_append_of_endsValue r ['n', 'a', 'n'] c₁ t ends (by decide) whole
      exact ⟨c₂, (List.suffix_append _ _).trans sub, rfl, rfl⟩
    · rename_i notInf notNan
      obtain ⟨c₂, sub', rfl, again⟩ := steady_decimal? ends ends' h
      refine ⟨c₂, sub', rfl, ?_⟩
      have notInf' := @not_append_of_endsValue r r' ['i', 'n', 'f'] c₁ ends' (by decide)
        fun rest same => notInf rest same
      have notNan' := @not_append_of_endsValue r r' ['n', 'a', 'n'] c₁ ends' (by decide)
        fun rest same => notNan rest same
      split
      · rename_i same
        exact absurd same (notInf' _)
      · rename_i same
        exact absurd same (notNan' _)
      · exact again

/-! ## Dates and times -/

theorem notMem_of_isDigit_decimal {c : Char} (h : c.isDigit) : c ∉ endMarks :=
  @notMem_of_isDigit Char.isDigit (by decide) c h

theorem steady_twoDigits? (ends : EndsValue r) {c t : List Char} {n : Nat}
    (h : twoDigits? (c ++ r) = some (n, t)) :
    ∃ c', c' <:+ c ∧ t = c' ++ r ∧ ∀ r', twoDigits? (c ++ r') = some (n, c' ++ r') := by
  unfold twoDigits? at h
  split at h
  · rename_i a b rest whole
    split at h
    · rename_i digits
      cases h
      obtain ⟨first, second⟩ := Bool.and_eq_true_iff.mp digits
      obtain ⟨c', rfl, rfl⟩ := @exists_append_of_endsValue r [a, b] c t ends
        (by simp [notMem_of_isDigit_decimal first, notMem_of_isDigit_decimal second]) whole
      refine ⟨c', List.suffix_append _ _, rfl, fun r' => ?_⟩
      exact if_pos digits
    · cases h
  · cases h

theorem steady_hourMinute? : Steady hourMinute? := by
  intro r r' ends ends' c t h
  obtain ⟨⟨hour, t₁⟩, read₁, h⟩ := Option.bind_eq_some_iff.mp h
  obtain ⟨c₁, sub₁, rfl, again₁⟩ := steady_twoDigits? ends read₁
  obtain ⟨t₂, read₂, h⟩ := Option.bind_eq_some_iff.mp h
  obtain ⟨c₂, sub₂, rfl, again₂⟩ := steady_skip? (by decide) ends ends' read₂
  obtain ⟨⟨minute, t₃⟩, read₃, h⟩ := Option.bind_eq_some_iff.mp h
  obtain ⟨c₃, sub₃, rfl, again₃⟩ := steady_twoDigits? ends read₃
  dsimp only at h
  split at h
  · rename_i inDay
    cases h
    refine ⟨c₃, sub₃.trans (sub₂.trans sub₁), rfl, ?_⟩
    simp only [hourMinute?, again₁ r', again₂, again₃ r', Option.bind_eq_bind, Option.bind_some,
      if_pos inDay]
  · cases h

theorem steady_someDigits? : Steady someDigits? := by
  intro r r' ends ends' c t h
  have stop : ∀ {s}, EndsValue s → s.dropWhile Char.isDigit = s := by
    rintro (_ | ⟨d, s⟩) ends
    · rfl
    · rw [List.dropWhile_cons, if_neg (not_of_endMarks (p := Char.isDigit) (by decide) ends)]
  match c with
  | [] =>
    match r with
    | [] => cases h
    | d :: r =>
      rw [List.nil_append, someDigits?,
        if_neg (not_of_endMarks (p := Char.isDigit) (by decide) ends)] at h
      cases h
  | d :: c =>
    have cut : ∀ {s}, EndsValue s → (c ++ s).dropWhile Char.isDigit = c.dropWhile Char.isDigit ++ s := by
      intro s ends
      rw [List.dropWhile_append]
      split
      · rename_i all
        rw [stop ends, List.isEmpty_iff.mp all, List.nil_append]
      · rfl
    rw [List.cons_append, someDigits?] at h
    split at h
    · rename_i digit
      cases h
      refine ⟨c.dropWhile Char.isDigit,
        (List.dropWhile_suffix _).trans (List.suffix_cons d c), cut ends, ?_⟩
      rw [List.cons_append, someDigits?, if_pos digit, cut ends']
    · cases h

theorem steady_time? : Steady time? := by
  intro r r' ends ends' c t h
  obtain ⟨t₁, read₁, h⟩ := Option.bind_eq_some_iff.mp h
  obtain ⟨c₁, sub₁, rfl, again₁⟩ := steady_hourMinute? ends ends' read₁
  obtain ⟨t₂, read₂, h⟩ := Option.bind_eq_some_iff.mp h
  obtain ⟨c₂, sub₂, rfl, again₂⟩ := steady_skip? (by decide) ends ends' read₂
  obtain ⟨⟨second, t₃⟩, read₃, h⟩ := Option.bind_eq_some_iff.mp h
  obtain ⟨c₃, sub₃, rfl, again₃⟩ := steady_twoDigits? ends read₃
  have sub := sub₃.trans (sub₂.trans sub₁)
  simp only [time?, again₁, again₂, again₃ r', Option.bind_eq_bind, Option.bind_some]
  dsimp only at h
  split at h
  · cases h
  · rename_i inMinute
    rw [if_neg inMinute]
    split at h
    · rename_i rest whole
      obtain ⟨c₄, rfl, rfl⟩ := @exists_append_of_endsValue r ['.'] c₃ _ ends (by decide) whole
      obtain ⟨c₅, sub₅, rfl, again₅⟩ := steady_someDigits? ends ends' h
      exact ⟨c₅, (sub₅.trans (List.suffix_append _ _)).trans sub, rfl, again₅⟩
    · rename_i other
      cases h
      have other' := @not_append_of_endsValue r r' ['.'] c₃ ends' (by decide) fun rest same =>
        other rest same
      refine ⟨c₃, sub, rfl, ?_⟩
      split
      · rename_i same
        exact absurd same (other' _)
      · rfl

theorem steady_zone? : Steady zone? := by
  intro r r' ends ends' c t h
  have alone : ∀ {x : Char}, x ∉ endMarks → [x].all fun y => !endMarks.contains y := by
    intro x other
    simp [other]
  unfold zone? at h
  split at h
  · rename_i rest whole
    cases h
    obtain ⟨c₁, rfl, rfl⟩ := exists_append_of_endsValue ends (alone (x := 'Z') (by decide)) whole
    exact ⟨c₁, List.suffix_append _ _, rfl, rfl⟩
  · rename_i rest whole
    cases h
    obtain ⟨c₁, rfl, rfl⟩ := exists_append_of_endsValue ends (alone (x := 'z') (by decide)) whole
    exact ⟨c₁, List.suffix_append _ _, rfl, rfl⟩
  · rename_i rest whole
    obtain ⟨c₁, rfl, rfl⟩ := exists_append_of_endsValue ends (alone (x := '+') (by decide)) whole
    obtain ⟨c₂, sub, rfl, again⟩ := steady_hourMinute? ends ends' h
    exact ⟨c₂, sub.trans (List.suffix_append _ _), rfl, again⟩
  · rename_i rest whole
    obtain ⟨c₁, rfl, rfl⟩ := exists_append_of_endsValue ends (alone (x := '-') (by decide)) whole
    obtain ⟨c₂, sub, rfl, again⟩ := steady_hourMinute? ends ends' h
    exact ⟨c₂, sub.trans (List.suffix_append _ _), rfl, again⟩
  · rename_i upper lower plus minus
    cases h
    refine ⟨c, List.suffix_rfl, rfl, zone?.eq_5 _ ?_ ?_ ?_ ?_⟩
    · exact fun rest => not_append_of_endsValue ends' (alone (by decide)) (fun _ same => upper _ same) rest
    · exact fun rest => not_append_of_endsValue ends' (alone (by decide)) (fun _ same => lower _ same) rest
    · exact fun rest => not_append_of_endsValue ends' (alone (by decide)) (fun _ same => plus _ same) rest
    · exact fun rest => not_append_of_endsValue ends' (alone (by decide)) (fun _ same => minus _ same) rest

/-- Whether a time begins is seen in front of the end. -/
theorem exists_of_beginsTime (ends : EndsValue r) {c : List Char} (h : beginsTime (c ++ r)) :
    ∃ a b rest, c = a :: b :: ':' :: rest ∧ a.isDigit ∧ b.isDigit := by
  unfold beginsTime at h
  split at h
  · rename_i a b rest whole
    obtain ⟨first, second⟩ := Bool.and_eq_true_iff.mp h
    obtain ⟨c', rfl, -⟩ := @exists_append_of_endsValue r [a, b, ':'] c rest ends
      (by simp [notMem_of_isDigit_decimal first, notMem_of_isDigit_decimal second]; decide) whole
    exact ⟨a, b, c', rfl, first, second⟩
  · cases h

theorem beginsTime_append (ends : EndsValue r) (ends' : EndsValue r') (c : List Char) :
    beginsTime (c ++ r) = beginsTime (c ++ r') := by
  have begun : ∀ {s s' : List Char}, EndsValue s → beginsTime (c ++ s) → beginsTime (c ++ s') := by
    intro s s' ends begins
    obtain ⟨a, b, rest, rfl, first, second⟩ := exists_of_beginsTime ends begins
    exact Bool.and_eq_true_iff.mpr ⟨first, second⟩
  exact Bool.eq_iff_iff.mpr ⟨begun ends, begun ends'⟩

theorem exists_of_beginsDate (ends : EndsValue r) {c : List Char} (h : beginsDate (c ++ r)) :
    ∃ a b x y rest, c = a :: b :: x :: y :: '-' :: rest ∧
      ∀ s, beginsDate (a :: b :: x :: y :: '-' :: s) := by
  unfold beginsDate at h
  split at h
  · rename_i a b x y rest whole
    have digits := h
    simp only [Bool.and_eq_true] at digits
    obtain ⟨⟨⟨first, second⟩, third⟩, fourth⟩ := digits
    obtain ⟨c', rfl, -⟩ := @exists_append_of_endsValue r [a, b, x, y, '-'] c rest ends
      (by simp [notMem_of_isDigit_decimal first, notMem_of_isDigit_decimal second,
        notMem_of_isDigit_decimal third, notMem_of_isDigit_decimal fourth]; decide) whole
    exact ⟨a, b, x, y, c', rfl, fun _ => h⟩
  · cases h

theorem EndsValue.of_cons {d : Char} (blank : isSpace d) (h : EndsValue (d :: r)) : EndsValue r := by
  unfold EndsValue at h ⊢
  rwa [List.dropWhile_cons, if_pos blank] at h

/-- What may follow a date: a time, or nothing that belongs to it. -/
def clock? (s : List Char) : Option (List Char) :=
  match s with
  | c :: rest =>
    if (c == 'T' || c == 't' || c == ' ') && beginsTime rest then time? rest >>= zone? else some s
  | [] => some []

theorem clock?_of_endsValue (ends : EndsValue r) : clock? r = some r := by
  match r with
  | [] => rfl
  | d :: r =>
    refine if_neg fun clock => ?_
    obtain ⟨mark, begins⟩ := Bool.and_eq_true_iff.mp clock
    have other : d ≠ 'T' ∧ d ≠ 't' := ⟨ends.ne (by decide), ends.ne (by decide)⟩
    simp only [Bool.or_eq_true, beq_iff_eq, other.1, other.2, false_or] at mark
    have after : EndsValue r := ends.of_cons (by rw [mark]; decide)
    obtain ⟨a, b, rest, whole, -⟩ := @exists_of_beginsTime r after [] begins
    cases whole

theorem steady_clock? : Steady clock? := by
  intro r r' ends ends' c t h
  match c with
  | [] =>
    rw [List.nil_append, clock?_of_endsValue ends] at h
    cases h
    exact ⟨[], List.suffix_rfl, rfl, clock?_of_endsValue ends'⟩
  | d :: c =>
    rw [List.cons_append, clock?, beginsTime_append ends ends'] at h
    rw [List.cons_append, clock?]
    split at h
    · rename_i clock
      rw [if_pos clock]
      obtain ⟨t₁, read, h⟩ := Option.bind_eq_some_iff.mp h
      obtain ⟨c₁, sub₁, rfl, again₁⟩ := steady_time? ends ends' read
      obtain ⟨c₂, sub₂, rfl, again₂⟩ := steady_zone? ends ends' h
      refine ⟨c₂, (sub₂.trans sub₁).trans (List.suffix_cons d c), rfl, ?_⟩
      rw [again₁]
      exact again₂
    · rename_i plain
      cases h
      exact ⟨d :: c, List.suffix_rfl, rfl, if_neg plain⟩

/-- A date, where one begins. -/
theorem steady_date? (ends : EndsValue r) (ends' : EndsValue r') {c t : List Char}
    (begins : beginsDate (c ++ r)) (h : date? (c ++ r) = some t) :
    beginsDate (c ++ r') ∧ ∃ c', c' <:+ c ∧ t = c' ++ r ∧ date? (c ++ r') = some (c' ++ r') := by
  obtain ⟨a, b, x, y, c, rfl, begins'⟩ := exists_of_beginsDate ends begins
  refine ⟨begins' _, ?_⟩
  -- the year and the hyphen behind it are there
  have front : ∀ s : List Char, (a :: b :: x :: y :: '-' :: c ++ s).take 4 = [a, b, x, y] ∧
      skip? '-' ((a :: b :: x :: y :: '-' :: c ++ s).drop 4) = some (c ++ s) := fun _ => ⟨rfl, rfl⟩
  unfold date? at h ⊢
  simp only [(front r).1, (front r).2, Option.bind_eq_bind, Option.bind_some] at h
  obtain ⟨⟨month, t₁⟩, read₁, h⟩ := Option.bind_eq_some_iff.mp h
  obtain ⟨c₁, sub₁, rfl, again₁⟩ := steady_twoDigits? ends read₁
  obtain ⟨t₂, read₂, h⟩ := Option.bind_eq_some_iff.mp h
  obtain ⟨c₂, sub₂, rfl, again₂⟩ := steady_skip? (by decide) ends ends' read₂
  obtain ⟨⟨day, t₃⟩, read₃, h⟩ := Option.bind_eq_some_iff.mp h
  obtain ⟨c₃, sub₃, rfl, again₃⟩ := steady_twoDigits? ends read₃
  have sub : c₃ <:+ a :: b :: x :: y :: '-' :: c :=
    (sub₃.trans (sub₂.trans sub₁)).trans ⟨[a, b, x, y, '-'], rfl⟩
  simp only [(front r').1, (front r').2, again₁ r', again₂, again₃ r', Option.bind_eq_bind,
    Option.bind_some]
  dsimp only at h
  split at h
  · rename_i real
    rw [if_pos real]
    obtain ⟨c₄, sub₄, rfl, again₄⟩ := steady_clock? ends ends' h
    exact ⟨c₄, sub₄.trans sub, rfl, again₄⟩
  · cases h

/-- **A number, a date or a truth value is read again** in front of anything that may follow it. -/
theorem steady_plainScalar? : Steady plainScalar? := by
  intro r r' ends ends' c t h
  unfold plainScalar? at h
  split at h
  · rename_i rest whole
    cases h
    obtain ⟨c', rfl, rfl⟩ :=
      @exists_append_of_endsValue r ['t', 'r', 'u', 'e'] c t ends (by decide) whole
    exact ⟨c', List.suffix_append _ _, rfl, rfl⟩
  · rename_i rest whole
    cases h
    obtain ⟨c', rfl, rfl⟩ :=
      @exists_append_of_endsValue r ['f', 'a', 'l', 's', 'e'] c t ends (by decide) whole
    exact ⟨c', List.suffix_append _ _, rfl, rfl⟩
  · rename_i notTrue notFalse
    have notTrue' := @not_append_of_endsValue r r' ['t', 'r', 'u', 'e'] c ends' (by decide)
      fun rest same => notTrue rest same
    have notFalse' := @not_append_of_endsValue r r' ['f', 'a', 'l', 's', 'e'] c ends' (by decide)
      fun rest same => notFalse rest same
    rw [plainScalar?.eq_3 _ (fun rest same => notTrue' rest same)
      fun rest same => notFalse' rest same]
    split at h
    · rename_i date
      obtain ⟨date', done⟩ := steady_date? ends ends' date h
      rwa [if_pos date']
    · rename_i date
      have date' : ¬ beginsDate (c ++ r') := by
        intro begins
        obtain ⟨a, b, x, y, c', rfl, begins'⟩ := exists_of_beginsDate ends' begins
        exact date (begins' _)
      rw [if_neg date', ← beginsTime_append ends ends']
      split at h
      · rename_i time
        rw [if_pos time]
        exact steady_time? ends ends' h
      · rename_i time
        rw [if_neg time]
        exact steady_number? ends ends' h

theorem plainScalar?_append {s r : List Char} (h : plainScalar? s = some r) (ends : EndsValue r) :
    ∃ c, s = c ++ r ∧ ∀ r', EndsValue r' → plainScalar? (c ++ r') = some r' := by
  have whole : plainScalar? (s ++ []) = some r := by rwa [List.append_nil]
  obtain ⟨t, ⟨c, rfl⟩, same, -⟩ := steady_plainScalar? endsValue_nil endsValue_nil whole
  rw [List.append_nil] at same
  subst same
  refine ⟨c, rfl, fun r' ends' => ?_⟩
  obtain ⟨t, -, same, again⟩ := steady_plainScalar? ends ends' h
  have none : t = [] := List.append_left_eq_self.mp same.symm
  rwa [none, List.nil_append] at again

end Patchwork.Toml
