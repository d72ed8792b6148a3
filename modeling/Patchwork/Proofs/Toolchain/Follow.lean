import Patchwork.Proofs.Toml.Verbatim
import Patchwork.Proofs.Toolchain.Described

/-! Profiles that follow another release.  Only the text of the release is replaced, so all
else that a profile says stays (`Profile.redirected_follow`).

The release is one token of the text of a profile (`Toml.exists_token`), and whatever reads that text
reads the same from it under another release (`Profile.Redirected.of_erase`).  So following another release
changes that token of the text that a profile writes, which is the text that was read if that is spelled in
one way (`Toml.render_of_isUniform`), and nothing else (`Profile.rewritten_follow`). -/

namespace Patchwork

namespace Toml.Document

/-- Replacing the value of a name replaces what that name stands for, and nothing else. -/
theorem find?_setText (d : Document) (name text other : String) :
    (d.setText name text).root.find? other =
      if other = name then (d.root.find? other).map (replaceValue text)
      else d.root.find? other := by
  have keys : ((fun m : KeyPart × Item => m.1.name == other) ∘ fun m : KeyPart × Item =>
      if m.1.name = name then (m.1, replaceValue text m.2) else m) =
      fun m => m.1.name == other := by
    funext m
    dsimp only [Function.comp]
    split <;> rfl
  have found : (d.setText name text).root.find? other =
      (d.root.members.find? fun m => m.1.name == other).map fun m =>
        (if m.1.name = name then (m.1, replaceValue text m.2) else m).2 := by
    rw [setText, Table.find?, Table.members, List.find?_map, keys, Option.map_map]
    rfl
  rw [found, Table.find?]
  rcases listed : d.root.members.find? fun m => m.1.name == other with _ | m
  · rw [listed]
    split <;> rfl
  · have named : m.1.name = other := by simpa using List.find?_some listed
    rw [listed, Option.map_some, Option.map_some, named]
    split <;> rfl

end Toml.Document

namespace Profile

/-- **A profile that says the same but for its release.** -/
structure Redirected (p : Profile) (version : String) (q : Profile) : Prop where
  version? : q.version? = some version
  side : q.side = p.side
  toolchainVersion? : q.toolchainVersion? = p.toolchainVersion?
  tool : ∀ role, q.tool role = p.tool role
  repositories : q.repositories = p.repositories

theorem find?_follow (p : Profile) (version : String) {name : String} (other : name ≠ versionKey) :
    (p.follow version).document.root.find? name = p.document.root.find? name := by
  rw [follow, Toml.Document.find?_setText, if_neg other]

/-- **Following another release** changes the release of a profile that names one, and keeps the
rest. -/
theorem redirected_follow {p : Profile} (names : p.version?.isSome) (version : String) :
    p.Redirected version (p.follow version) := by
  constructor
  · unfold version? Toml.Table.text? at names ⊢
    rw [follow, Toml.Document.find?_setText, if_pos rfl]
    rcases there : p.document.root.find? versionKey with _ | (entry | _ | _) <;>
      rw [there] at names
    · cases names
    · rfl
    · cases names
    · cases names
  · unfold side Toml.Table.text?
    rw [find?_follow p version (by decide)]
  · unfold toolchainVersion? Toml.Table.text?
    rw [find?_follow p version (by decide)]
  · intro role
    unfold tool Toml.Table.table?
    rw [find?_follow p version (by cases role <;> decide)]
  · unfold repositories Toml.Table.tables
    rw [find?_follow p version (by decide)]

theorem version_eq_of_redirected {p q : Profile} {version : String}
    (h : p.Redirected version q) : q.version = version := by
  rw [Profile.version, h.version?]
  rfl

/-- A text is read as a profile where it is read as a document that names a release. -/
theorem parse_eq_ok_iff {text : String} {p : Profile} :
    parse text = .ok p ↔ Toml.Document.parse? text = some p.document ∧ p.version?.isSome := by
  unfold parse
  rcases Toml.Document.parse? text with _ | document
  · exact ⟨nofun, nofun⟩
  · dsimp only
    split
    · rename_i names
      constructor
      · rintro ⟨⟩
        exact ⟨rfl, names⟩
      · rintro ⟨⟨⟩, -⟩
        rfl
    · rename_i unnamed
      refine ⟨nofun, ?_⟩
      rintro ⟨⟨⟩, names⟩
      exact absurd names unnamed

/-- A profile that was read names a release. -/
theorem isSome_version?_of_parse {text : String} {p : Profile} (h : parse text = .ok p) :
    p.version?.isSome := (parse_eq_ok_iff.mp h).2

/-- **The release that is written is the release that is read**, if what was written can be read. -/
theorem version_of_parse_follow {p q : Profile} {text version : String} (read : parse text = .ok p)
    (again : parse (p.follow version).render = .ok q) : q.version = version := by
  obtain ⟨known, names⟩ := parse_eq_ok_iff.mp read
  obtain ⟨known', -⟩ := parse_eq_ok_iff.mp again
  obtain ⟨whole, fitting⟩ := Toml.fitting_of_parse? known
  have ok := (fitting.setText versionKey version).entryOk
  have whole' : (p.document.setText versionKey version).root.origin = .whole := whole
  obtain ⟨rest, lines⟩ := Toml.exists_render whole'
  obtain ⟨m, listed, own, written⟩ : ∃ m ∈ (p.document.setText versionKey version).root.entries,
      m.1.names = [versionKey] ∧ m.2.value = .str version :=
    Toml.exists_entry_setText names
  have text : (p.follow version).render.toList =
      Toml.entryLines (p.document.setText versionKey version).root.entries ++
        (rest ++ (p.document.setText versionKey version).tail.toList) := by
    rw [render, follow, Toml.Document.render, String.toList_append, lines, List.append_assoc]
  rw [Profile.version, version?, Toml.text?_of_parse? ok text known' listed own written]
  rfl

/-! ## The text -/

section
open Toml
variable {p q : Profile} {text version : String}

/-- **Only a token is rewritten**: it stands in a text, and whatever release is followed, its literal
stands there instead and all around it stays. -/
def RewrittenIn (p : Profile) (text : String) (token : List Char) : Prop :=
  ∃ front back, text.toList = front ++ token ++ back ∧
    ∀ version, (p.follow version).render.toList = front ++ (stringLiteral version).toList ++ back

/-- One text only has the token where it is rewritten. -/
theorem RewrittenIn.eq {text text' : String} {token : List Char} (h : p.RewrittenIn text token)
    (h' : p.RewrittenIn text' token) : text = text' := by
  obtain ⟨front, back, whole, rewritten⟩ := h
  obtain ⟨front', back', whole', rewritten'⟩ := h'
  obtain ⟨rfl, rfl⟩ := eq_of_replaced fun version => (rewritten version).symm.trans (rewritten' version)
  exact String.toList_inj.mp (whole.trans whole'.symm)

/-- A profile that names a release, and says the same as another one where the release is left out. -/
theorem Redirected.of_erase (named : q.version? = some version)
    (same : (q.document.root.erase versionKey).plain .nothing =
      (p.document.root.erase versionKey).plain .nothing) : p.Redirected version q := by
  -- the two profiles without a release, which say the same
  let bare (p : Profile) : Profile := ⟨p.document.root.erase versionKey, p.document.tail⟩
  have found : ∀ (p : Profile) {name : String}, name ≠ versionKey →
      (bare p).document.root.find? name = p.document.root.find? name := fun p _ => find?_erase
  have side : ∀ p : Profile, (bare p).side = p.side := fun p => by
    rw [Profile.side, Profile.side, Table.text?, Table.text?, found p (by decide)]
  have recorded : ∀ p : Profile, (bare p).toolchainVersion? = p.toolchainVersion? := fun p => by
    rw [Profile.toolchainVersion?, Profile.toolchainVersion?, Table.text?, Table.text?,
      found p (by decide)]
  have tool : ∀ (p : Profile) (role : ToolRole), (bare p).tool role = p.tool role := fun p role => by
    rw [Profile.tool, Profile.tool, Table.table?, Table.table?, found p (by cases role <;> decide)]
  have repositories : ∀ p : Profile, (bare p).repositories = p.repositories := fun p => by
    rw [Profile.repositories, Profile.repositories, Table.tables, Table.tables, found p (by decide)]
  have same : (bare q).document.root.plain .nothing = (bare p).document.root.plain .nothing := same
  refine ⟨named, ?_, ?_, fun role => ?_, ?_⟩
  · rw [← side, side_congr same, side]
  · rw [← recorded, toolchainVersion?_congr same, recorded]
  · rw [← tool, tool_congr same, tool]
  · rw [← repositories, repositories_congr same, repositories]

theorem parse_follow (read : parse text = .ok p) (again : parse p.render = .ok q) (version : String) :
    ∃ q', parse (p.follow version).render = .ok q' ∧ q.Redirected version q' := by
  obtain ⟨known, names⟩ := parse_eq_ok_iff.mp read
  obtain ⟨known', -⟩ := parse_eq_ok_iff.mp again
  obtain ⟨release, named⟩ := Option.isSome_iff_exists.mp names
  obtain ⟨d, read', named', -, same⟩ := parse?_setText known named known' version
  have named' : Profile.version? ⟨d⟩ = some version := named'
  exact ⟨⟨d⟩, parse_eq_ok_iff.mpr ⟨read', by rw [named']; rfl⟩, .of_erase named' same⟩

/-- **Following another release rewrites one token.**  The text of a profile that was read has the
release as one token; under another release it has the literal of that release instead, which denotes it,
and is the same around it.  So what was read is rewritten in this way just if it is what the profile
writes, as it is if it is spelled in one way.  What the profile says otherwise stays, and so does what its
text is read as. -/
theorem rewritten_follow (read : parse text = .ok p) : ∃ token,
    string? token = some (p.version.toList, []) ∧ p.RewrittenIn p.render token ∧
      (p.RewrittenIn text token ↔ p.render = text) ∧ (isUniform text → p.render = text) ∧
      ∀ version, string? (stringLiteral version).toList = some (version.toList, []) ∧
        p.Redirected version (p.follow version) ∧
        ∀ q, parse p.render = .ok q →
          ∃ q', parse (p.follow version).render = .ok q' ∧ q.Redirected version q' := by
  obtain ⟨known, names⟩ := parse_eq_ok_iff.mp read
  obtain ⟨release, named⟩ := Option.isSome_iff_exists.mp names
  obtain ⟨front, token, back, lines, denotes, replaced⟩ := exists_token known named
  have rewritten : p.RewrittenIn p.render token := ⟨front, back, lines, replaced⟩
  have is_release : p.version = release := by rw [Profile.version, named, Option.getD_some]
  refine ⟨token, is_release ▸ denotes, rewritten, ⟨rewritten.eq, fun same => same ▸ rewritten⟩,
    fun uniform => render_of_isUniform uniform known,
    fun version => ⟨?_, redirected_follow names version, fun q again => parse_follow read again version⟩⟩
  have literal := string?_stringLiteral version endsValue_nil
  rwa [List.append_nil] at literal

/-- A text with comments, a quoted key and headers. -/
def demoText : String :=
  "# kept\n\"minecraftVersion\" = '1.20' # too\n\n[remapper]\nargs = [ # none yet\n]\n\n[[repositories]]\n"

/-- It is rewritten where it stands. -/
theorem rewritten_follow_demo : ∃ p : Profile, parse demoText = .ok p ∧
    ∃ token, string? token = some ("1.20".toList, []) ∧ p.RewrittenIn demoText token ∧
      ∀ version, ∃ q, parse (p.follow version).render = .ok q ∧ p.Redirected version q := by
  have known : (parse demoText).toOption.map (fun p => p.version) = some "1.20" := by decide +kernel
  have uniform : isUniform demoText := by decide +kernel
  obtain ⟨p, read, release⟩ := Option.map_eq_some_iff.mp known
  have read := eq_ok_of_toOption read
  obtain ⟨token, denotes, -, written, stays, under⟩ := rewritten_follow read
  refine ⟨p, read, token, release ▸ denotes, written.mpr (stays uniform), fun version => ?_⟩
  exact (under version).2.2 p ((stays uniform).symm ▸ read)

end

end Profile
end Patchwork
