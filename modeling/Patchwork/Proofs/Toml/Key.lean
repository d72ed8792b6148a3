import Patchwork.Toml.Key
import Patchwork.Proofs.Toml.Text

/-! Keys that are read again.  The parts of a key that was read (`readable_of_key?`) may come to stand
behind and in front of other parts: written one after another with points between them they are
read again, each as the name that it gave before (`key?_joined`). -/

namespace Patchwork.Toml

/-- Whether a text holds only blanks. -/
def Blank (s : String) : Prop := ∀ c ∈ s.toList, isSpace c

theorem blank_empty : Blank "" := nofun

theorem blank_ofList {cs : List Char} (h : ∀ c ∈ cs, isSpace c) : Blank (String.ofList cs) := by
  rwa [Blank, String.toList_ofList]

/-- Whether a name without quotes ends here. -/
def EndsName (s : List Char) : Prop := ∀ c ∈ s.head?, ¬ isKeyChar c

/-- A character that a key may start with: nothing that can stand in front of it, no bracket and no
brace. -/
structure StartsKey (c : Char) : Prop extends EndsGap c where
  other : c ≠ '['
  inside : c ≠ '\x7d'

theorem startsKey_of_isKeyChar {c : Char} (h : isKeyChar c) : StartsKey c := by
  have apart : ∀ {d}, ¬ isKeyChar d → c ≠ d := fun odd same => odd (same ▸ h)
  constructor
  · constructor
    · have ranges : c.isAlphanum =
          (decide (c.val ≥ 'A'.val ∧ c.val ≤ 'Z'.val) || (c.val ≥ 'a'.val && c.val ≤ 'z'.val) ||
            (c.val ≥ '0'.val && c.val ≤ '9'.val)) := rfl
      simp only [isKeyChar, ranges, Bool.or_eq_true, Bool.and_eq_true, decide_eq_true_eq,
        beq_iff_eq] at h
      rcases h with (h | rfl) | rfl
      · simp only [isTextual, isPlain, Bool.or_eq_true, Bool.and_eq_true, decide_eq_true_eq]
        grind
      · decide
      · decide
    · simp only [isSpace, Bool.or_eq_true, beq_iff_eq, not_or]
      exact ⟨apart (by decide), apart (by decide)⟩
    · exact apart (by decide)
  · exact apart (by decide)
  · exact apart (by decide)

/-- **A name is read again** where no name goes on. -/
theorem keyName?_append {s r : List Char} {name : String} (h : keyName? s = some (name, r)) :
    ∃ x c, s = x :: c ++ r ∧ StartsKey x ∧
      ∀ r', EndsName r' → keyName? (x :: c ++ r') = some (name, r') := by
  unfold keyName? at h
  split at h
  · obtain ⟨⟨text, rest⟩, body, same⟩ := Option.map_eq_some_iff.mp h
    cases same
    obtain ⟨c, rfl, again⟩ := basicBody_append body
    refine ⟨'"', c, rfl, ⟨⟨by decide, by decide, by decide⟩, by decide, by decide⟩, fun r' _ => ?_⟩
    rw [List.cons_append, keyName?, again]
    rfl
  · obtain ⟨⟨text, rest⟩, body, same⟩ := Option.map_eq_some_iff.mp h
    cases same
    obtain ⟨c, rfl, again⟩ := literalBody_append body
    refine ⟨'\'', c, rfl, ⟨⟨by decide, by decide, by decide⟩, by decide, by decide⟩, fun r' _ => ?_⟩
    rw [List.cons_append, keyName?, again]
    rfl
  · rename_i basic literal
    dsimp only at h
    split at h
    · cases h
    · rename_i some_char
      cases h
      have all : ∀ c ∈ s.takeWhile isKeyChar, isKeyChar c := List.all_eq_true.mp List.all_takeWhile
      obtain ⟨x, c, part⟩ := List.exists_cons_of_ne_nil some_char
      have bare := all x (part ▸ List.mem_cons_self)
      have start := startsKey_of_isKeyChar bare
      refine ⟨x, c, by rw [← part, List.takeWhile_append_dropWhile], start, fun r' ends => ?_⟩
      have cut := span_append all ends
      rw [← part, keyName?.eq_3, cut.1, cut.2, if_neg some_char]
      · intro rest same
        rw [part] at same
        exact absurd ((List.cons.inj same).1 ▸ bare) (by decide)
      · intro rest same
        rw [part] at same
        exact absurd ((List.cons.inj same).1 ▸ bare) (by decide)

/-- **A part of a key that is read** as its name, wherever no name goes on behind it. -/
structure KeyPart.Readable (p : KeyPart) : Prop where
  starts : ∃ x rest, p.text.toList = x :: rest ∧ StartsKey x
  reads : ∀ r, EndsName r → keyName? (p.text.toList ++ r) = some (p.name, r)
  before : Blank p.inner.before
  after : Blank p.inner.after

namespace Key

/-- The parts of a key. -/
def parts (k : Key) : List KeyPart := k.path ++ [k.last]

/-- The names that a key leads through. -/
def names (k : Key) : List String := k.parts.map KeyPart.name

/-- **A key whose parts can be read** one after another, so many at most. -/
structure Readable (n : Nat) (k : Key) : Prop where
  parts : ∀ p ∈ k.parts, p.Readable
  size : k.parts.length ≤ n

end Key

theorem parts_of_keyParts? {fuel : Nat} {s r : List Char} {k : Key}
    (h : keyParts? fuel s = some (k, r)) :
    (∀ p ∈ k.parts, p.Readable) ∧ k.parts.length ≤ fuel := by
  induction fuel generalizing s k with
  | zero => cases h
  | succ fuel ih =>
    unfold keyParts? at h
    obtain ⟨⟨name, rest⟩, named, h⟩ := Option.bind_eq_some_iff.mp h
    obtain ⟨x, c, whole, start, again⟩ := keyName?_append named
    have readable : KeyPart.Readable ⟨name, String.ofList (consumed (s.dropWhile isSpace) rest),
        ⟨String.ofList (s.takeWhile isSpace), String.ofList (rest.takeWhile isSpace)⟩, ⟨"", ""⟩⟩ := by
      rw [whole, consumed_append]
      refine ⟨⟨x, c, String.toList_ofList, start⟩, fun r' ends => ?_, ?_, ?_⟩
      · rw [String.toList_ofList, again r' ends]
      · exact blank_ofList (spaces_fst s)
      · exact blank_ofList (spaces_fst rest)
    simp only [spaces] at h
    split at h
    · obtain ⟨⟨more, rest'⟩, further, h⟩ := Option.bind_eq_some_iff.mp h
      cases h
      obtain ⟨others, size⟩ := ih further
      exact ⟨List.forall_mem_cons.mpr ⟨readable, others⟩, Nat.succ_le_succ size⟩
    · cases h
      exact ⟨List.forall_mem_singleton.mpr readable, Nat.succ_le_succ (Nat.zero_le _)⟩

/-- **A key that was read can be read again**, and only blanks stand at its ends. -/
theorem readable_of_key? {s r : List Char} {k : Key} (h : key? s = some (k, r)) :
    k.Readable (depthLimit - 1) ∧ Blank k.last.outer.before ∧ Blank k.last.outer.after := by
  obtain ⟨⟨k', r'⟩, read, h⟩ := Option.bind_eq_some_iff.mp h
  cases h
  obtain ⟨parts, size⟩ := parts_of_keyParts? read
  have last := parts k'.last (List.mem_append_right _ List.mem_cons_self)
  unfold Key.settle
  split
  · have alone : 1 ≤ depthLimit - 1 := by decide
    exact ⟨⟨List.forall_mem_singleton.mpr ⟨last.starts, last.reads, blank_empty, blank_empty⟩,
      alone⟩, last.before, last.after⟩
  · rename_i first path whole
    have front := parts first (by simp [Key.parts, whole])
    refine ⟨⟨?_, ?_⟩, front.before, last.after⟩
    · intro p hp
      simp only [Key.parts, List.cons_append, List.mem_cons, List.mem_append, List.not_mem_nil,
        or_false] at hp
      rcases hp with rfl | hp | rfl
      · exact ⟨front.starts, front.reads, blank_empty, front.after⟩
      · exact parts p (by simp [Key.parts, whole, hp])
      · exact ⟨last.starts, last.reads, last.before, blank_empty⟩
    · have same : k'.parts.length = (first :: path ++ [k'.last]).length := by
        rw [Key.parts, whole]
      rw [same] at size
      simpa only [Key.parts, List.cons_append, List.length_cons, List.length_append] using size

theorem outer_settle (k : Key) :
    k.settle.last.outer.before = (k.path.head?.getD k.last).inner.before := by
  unfold Key.settle
  split <;> rename_i path <;> rw [path] <;> rfl

/-- Where no blank stands in front, a key starts with the first of its parts. -/
theorem startsKey_of_key? {x : Char} {s r : List Char} {k : Key} (h : key? (x :: s) = some (k, r))
    (solid : ¬ isSpace x) : StartsKey x ∧ k.last.outer.before = "" := by
  obtain ⟨⟨k', r'⟩, read, h⟩ := Option.bind_eq_some_iff.mp h
  cases h
  have fuel : depthLimit - 1 = 78 + 1 := by decide
  rw [fuel, keyParts?] at read
  have cut : spaces (x :: s) = ([], x :: s) := @spaces_append [] (x :: s) nofun (by rintro c ⟨⟩; exact solid)
  rw [cut] at read
  obtain ⟨⟨name, rest⟩, named, read⟩ := Option.bind_eq_some_iff.mp read
  obtain ⟨y, c, same, start, -⟩ := keyName?_append named
  cases (List.cons.inj same).1
  refine ⟨start, ?_⟩
  dsimp only at read
  split at read
  · obtain ⟨⟨more, rest'⟩, -, read⟩ := Option.bind_eq_some_iff.mp read
    cases read
    exact outer_settle _
  · cases read
    exact outer_settle _

theorem endsName_append {blank r : List Char} (all : ∀ c ∈ blank, isSpace c) (h : EndsName r) :
    EndsName (blank ++ r) := by
  intro c hc
  cases blank with
  | nil => exact h c hc
  | cons d blank =>
    cases hc
    have space := all c List.mem_cons_self
    rw [isSpace, Bool.or_eq_true, beq_iff_eq, beq_iff_eq] at space
    rcases space with rfl | rfl <;> decide

section
variable {p : KeyPart} (readable : p.Readable) (fuel : Nat) {before after : List Char}
  (blank : ∀ c ∈ before, isSpace c) (blank' : ∀ c ∈ after, isSpace c)
include readable blank blank'

/-- A part with blanks around it is cut off. -/
theorem cut_part {r : List Char} (ends : EndsName r) (solid : ∀ c ∈ r.head?, ¬ isSpace c) :
    spaces (before ++ (p.text.toList ++ (after ++ r))) = (before, p.text.toList ++ (after ++ r)) ∧
      keyName? (p.text.toList ++ (after ++ r)) = some (p.name, after ++ r) ∧
      spaces (after ++ r) = (after, r) := by
  obtain ⟨x, rest, text, start⟩ := readable.starts
  refine ⟨spaces_append blank ?_, readable.reads _ (endsName_append blank' ends),
    spaces_append blank' solid⟩
  rw [text]
  rintro c ⟨⟩
  exact start.solid

theorem keyParts?_last {r : List Char} (ends : EndsName r) (solid : ∀ c ∈ r.head?, ¬ isSpace c)
    (last : NotAhead '.' r) :
    keyParts? (fuel + 1) (before ++ (p.text.toList ++ (after ++ r))) =
      some (⟨[], ⟨p.name, p.text, ⟨String.ofList before, String.ofList after⟩, ⟨"", ""⟩⟩⟩, r) := by
  obtain ⟨front, name, back⟩ := cut_part readable blank blank' ends solid
  rw [keyParts?, front]
  simp only [name, back, Option.bind_eq_bind, Option.bind_some, consumed_append,
    String.ofList_toList]
  split
  · exact absurd rfl (last '.' rfl)
  · rfl

theorem keyParts?_point (next : List Char) :
    keyParts? (fuel + 1) (before ++ (p.text.toList ++ (after ++ '.' :: next))) =
      (keyParts? fuel next).map fun m =>
        (⟨⟨p.name, p.text, ⟨String.ofList before, String.ofList after⟩, ⟨"", ""⟩⟩ :: m.1.path,
          m.1.last⟩, m.2) := by
  obtain ⟨front, name, back⟩ := @cut_part p readable before after blank blank' ('.' :: next)
    (by rintro c ⟨⟩; decide) (by rintro c ⟨⟩; decide)
  rw [keyParts?, front]
  simp only [name, back, Option.bind_eq_bind, Option.bind_some, consumed_append,
    String.ofList_toList]
  cases keyParts? fuel next <;> rfl

end

/-- **Parts with points between them are read again**, with the same names. -/
theorem keyParts?_joined {fuel : Nat} {parts : List KeyPart} (ne : parts ≠ [])
    (size : parts.length ≤ fuel) (readable : ∀ p ∈ parts, p.Readable) {before after r : List Char}
    (blank : ∀ c ∈ before, isSpace c) (blank' : ∀ c ∈ after, isSpace c)
    (ends : EndsName r) (solid : ∀ c ∈ r.head?, ¬ isSpace c) (last : NotAhead '.' r) :
    ∃ k, keyParts? fuel (before ++ ((Key.joined parts).toList ++ (after ++ r))) = some (k, r) ∧
      k.names = parts.map KeyPart.name := by
  induction parts generalizing fuel before with
  | nil => exact absurd rfl ne
  | cons p parts ih =>
    obtain ⟨hp, hparts⟩ := List.forall_mem_cons.mp readable
    match fuel, size with
    | fuel + 1, size =>
      match parts with
      | [] =>
        exact ⟨_, keyParts?_last hp fuel blank blank' ends solid last, rfl⟩
      | q :: parts =>
        obtain ⟨k, read, names⟩ := ih (List.cons_ne_nil _ _) (Nat.le_of_succ_le_succ size) hparts
          (hparts q List.mem_cons_self).before
        have point : ".".toList = ['.'] := by decide
        have text : (Key.joined (p :: q :: parts)).toList ++ (after ++ r) =
            p.text.toList ++ (p.inner.after.toList ++
              ('.' :: (q.inner.before.toList ++ ((Key.joined (q :: parts)).toList ++
                (after ++ r))))) := by
          simp only [Key.joined, String.toList_append, point, List.append_assoc,
            List.cons_append, List.nil_append]
        have whole : keyParts? (fuel + 1)
            (before ++ ((Key.joined (p :: q :: parts)).toList ++ (after ++ r))) =
              some (⟨⟨p.name, p.text, ⟨String.ofList before, String.ofList p.inner.after.toList⟩,
                ⟨"", ""⟩⟩ :: k.path, k.last⟩, r) := by
          rw [text, keyParts?_point hp fuel blank hp.after, read]
          rfl
        refine ⟨_, whole, ?_⟩
        rw [List.map_cons, ← names]
        rfl

theorem joined_starts {parts : List KeyPart} (ne : parts ≠ []) (readable : ∀ p ∈ parts, p.Readable) :
    ∃ x t, (Key.joined parts).toList = x :: t ∧ StartsKey x := by
  obtain ⟨p, parts, rfl⟩ := List.exists_cons_of_ne_nil ne
  obtain ⟨x, t, text, start⟩ := (readable p List.mem_cons_self).starts
  cases parts with
  | nil => exact ⟨x, t, text, start⟩
  | cons q parts =>
    rw [Key.joined, String.toList_append, String.toList_append, String.toList_append,
      String.toList_append, text]
    exact ⟨x, _, rfl, start⟩

/-- **A key is read again** in front of the mark that follows it. -/
theorem key?_joined {k : Key} (readable : k.Readable (depthLimit - 1)) {before after r : List Char}
    (blank : ∀ c ∈ before, isSpace c) (blank' : ∀ c ∈ after, isSpace c) (ends : EndsName r)
    (solid : ∀ c ∈ r.head?, ¬ isSpace c) (last : NotAhead '.' r) :
    ∃ k', key? (before ++ ((Key.joined k.parts).toList ++ (after ++ r))) = some (k', r) ∧
      k'.names = k.names := by
  have ne : k.parts ≠ [] := List.append_ne_nil_of_right_ne_nil _ (List.cons_ne_nil _ _)
  obtain ⟨k', read, names⟩ :=
    keyParts?_joined ne readable.size readable.parts blank blank' ends solid last
  refine ⟨k'.settle, ?_, ?_⟩
  · rw [key?, read]
    rfl
  · refine Eq.trans ?_ names
    unfold Key.settle
    split
    · rename_i path
      rw [Key.names, Key.names, Key.parts, Key.parts, path]
      rfl
    · rename_i first path whole
      rw [Key.names, Key.names, Key.parts, Key.parts, whole]
      simp only [List.map_append, List.map_cons, List.map_nil]

end Patchwork.Toml
