import Patchwork.Command.Basic
import Patchwork.Proofs.Build.Stages
import Patchwork.Proofs.Workspace.Tracked

/-! Commands that come to a profile of no use.  A text is of no use where it names no release, or
describes no side or no tool (`Profile.Unusable`), and exactly then nothing can be planned from it
(`Profile.exists_plan_iff`).  What is wrong with a profile is never told as a mistake of the user
(`Profile.blameless_load`), so a command that comes to such a profile reports a failure like any other, and
changes nothing but the place of the catalog that an update downloads first
(`Command.failure_of_unusable`). -/

namespace Patchwork
open Patchwork.Action

/-! ## What is not put down to the user -/

/-- Whether a failure is reported as one that the user cannot mend. -/
def Failure.Blameless (e : Failure) : Prop := e.code? ≠ some .usage

theorem Report.status_ofFailure {e : Failure} (blameless : e.Blameless) :
    (ofFailure e).status = .failure := if_neg blameless

namespace Outcome
variable {α β : Type}

/-- Whether an outcome, if it is a failure, is not put down to the user. -/
def Blameless (x : Outcome α) : Prop := ∀ e, x = .error e → e.Blameless

theorem blameless_ok (a : α) : Blameless (.ok a) := nofun

theorem blameless_error {e : Failure} (h : e.Blameless) : Blameless (.error e : Outcome α) := by
  rintro _ ⟨⟩
  exact h

theorem Blameless.bind {x : Outcome α} {f : α → Outcome β} (first : x.Blameless)
    (next : ∀ a, (f a).Blameless) : Blameless (x >>= f) := by
  cases x with
  | error e => exact fun _ same => by cases same; exact first e rfl
  | ok a => exact next a

theorem Blameless.during {x : Outcome α} (h : x.Blameless) (step : Step) :
    (x.during step).Blameless := by
  cases x with
  | error e => exact fun _ same => by cases same; exact h e rfl
  | ok a => exact blameless_ok a

end Outcome

namespace Action
variable {α β : Type} {action : Action α}

/-- Whether the failures of an action are not put down to the user. -/
def Blameless (action : Action α) : Prop :=
  ∀ w, Ends action w (fun _ _ => True) fun e _ => e.Blameless

namespace Blameless

theorem pure (a : α) : Blameless (Pure.pure a : Action α) := fun _ => .pure trivial

theorem throw {e : Failure} (h : e.Blameless) : Blameless (MonadExcept.throw e : Action α) :=
  fun _ => .throw h

theorem bind {f : α → Action β} (first : Blameless action) (next : ∀ a, Blameless (f a)) :
    Blameless (action >>= f) := fun w => (first w).bind fun a w' _ => next a w'

theorem tryCatch {f : Failure → Action α} (first : Blameless action)
    (next : ∀ e, e.Blameless → Blameless (f e)) : Blameless (tryCatch action f) :=
  fun w => .tryCatch (first w) fun e w' h => next e h w'

theorem ofOutcome {x : Outcome α} (h : x.Blameless) : Blameless (Action.ofOutcome x) := fun w =>
  ⟨fun _ => trivial, fun {e _} ran => h e (congrArg Prod.fst ((ofOutcome_apply x w).symm.trans ran))⟩

theorem ask (step : Step) (question : Disk → Except IoError α) :
    Blameless (Action.ask step question) := by
  refine .bind (fun _ => .of_ok rfl trivial) fun d => ?_
  split
  · exact .pure _
  · exact .throw nofun

theorem changeBy (step : Step) (act : Disk → Except IoError Unit × Disk) :
    Blameless (Action.changeBy step act) :=
  fun _ => .changeBy (fun _ _ => trivial) fun _ _ _ => nofun

theorem mapM {f : α → Action β} (xs : List α) (each : ∀ x, Blameless (f x)) :
    Blameless (xs.mapM f) := by
  induction xs with
  | nil => exact .pure _
  | cons x xs ih =>
    rw [List.mapM_cons]
    exact .bind (each x) fun _ => .bind ih fun _ => .pure _

end Blameless
end Action

/-! ## Profiles of no use -/

theorem Side.exists_parse_iff {value : String} :
    (∃ side, Side.parse value = .ok side) ↔ (Text.trim value).toLower ∈ ["server", "client"] := by
  simp only [List.mem_cons, List.not_mem_nil, or_false]
  unfold Side.parse
  dsimp only
  split
  · exact ⟨fun _ => .inl ‹_›, fun _ => ⟨_, rfl⟩⟩
  · split
    · exact ⟨fun _ => .inr ‹_›, fun _ => ⟨_, rfl⟩⟩
    · exact ⟨nofun, fun h => h.elim (absurd · ‹_›) (absurd · ‹_›)⟩

namespace Profile
variable {p : Profile} {text : String}

/-- **Whether a text names no release**: it is no document, or no text stands under the name of the
release. -/
inductive Nameless (text : String) : Prop where
  | malformed (h : Toml.Document.parse? text = none)
  | unset {document : Toml.Document} (h : Toml.Document.parse? text = some document)
      (unset : document.root.text? versionKey = none)

/-- The texts that the table of a tool must have. -/
def toolFields : List String := ["coordinate", "url", "sha256"]

/-- **Whether a profile describes no side or no tool**: its side is neither of the two, there is no
table for a tool, or one of the texts is not in it. -/
inductive Vague (p : Profile) : Prop where
  | side {value : String} (h : p.document.root.text? sideKey = some value)
      (unknown : (Text.trim value).toLower ∉ ["server", "client"])
  | table (role : ToolRole) (h : p.document.root.table? role.name = none)
  | field (role : ToolRole) {table : Toml.Table} (h : p.document.root.table? role.name = some table)
      {key : String} (asked : key ∈ toolFields) (absent : table.text? key = none)

/-- **Whether a text is of no use for a build.** -/
inductive Unusable (text : String) : Prop where
  | nameless (h : Nameless text)
  | vague {document : Toml.Document} (h : Toml.Document.parse? text = some document)
      (vague : Vague ⟨document⟩)

theorem exists_parse_iff : (∃ p, parse text = .ok p) ↔ ¬ Nameless text := by
  simp only [parse_eq_ok_iff]
  constructor
  · rintro ⟨p, read, named⟩ (malformed | ⟨read', unset⟩)
    · cases malformed.symm.trans read
    · cases read.symm.trans read'
      rw [version?, unset] at named
      cases named
  · intro useful
    rcases read : Toml.Document.parse? text with _ | document
    · exact absurd (.malformed read) useful
    rcases named : document.root.text? versionKey with _ | version
    · exact absurd (.unset read named) useful
    · exact ⟨⟨document⟩, rfl, by rw [version?, named]; rfl⟩

theorem exists_side_iff : (∃ side, p.side = .ok side) ↔
    ∀ value, p.document.root.text? sideKey = some value →
      (Text.trim value).toLower ∈ ["server", "client"] := by
  unfold side
  rcases p.document.root.text? sideKey with _ | value
  · exact ⟨fun _ => nofun, fun _ => ⟨_, rfl⟩⟩
  · dsimp only
    rw [Side.exists_parse_iff]
    exact ⟨fun known _ same => Option.some.inj same ▸ known, fun known => known value rfl⟩

theorem exists_tool_iff {role : ToolRole} : (∃ tool, p.tool role = .ok tool) ↔
    ∃ table, p.document.root.table? role.name = some table ∧
      ∀ key ∈ toolFields, table.text? key ≠ none := by
  unfold tool
  rcases p.document.root.table? role.name with _ | table
  · exact ⟨nofun, nofun⟩
  simp only [toolFields, List.forall_mem_cons, List.not_mem_nil, false_imp_iff, implies_true, and_true,
    Option.some.injEq, exists_eq_left']
  rcases table.text? "coordinate" with _ | coordinate
  · exact ⟨nofun, fun h => absurd rfl h.1⟩
  rcases table.text? "url" with _ | url
  · exact ⟨nofun, fun h => absurd rfl h.2.1⟩
  rcases table.text? "sha256" with _ | sha256
  · exact ⟨nofun, fun h => absurd rfl h.2.2⟩
  · exact ⟨fun _ => ⟨nofun, nofun, nofun⟩, fun _ => ⟨_, rfl⟩⟩

/-- **A profile describes all that a build asks for, or it is vague.** -/
theorem exists_plan_iff : (∃ plan, p.plan = .ok plan) ↔ ¬ p.Vague := by
  have parts : (∃ plan, p.plan = .ok plan) ↔
      (∃ side, p.side = .ok side) ∧ ∀ role, ∃ tool, p.tool role = .ok tool := by
    constructor
    · rintro ⟨plan, planned⟩
      obtain ⟨side, sided, planned⟩ := bind_eq_ok_iff.mp planned
      obtain ⟨remapper, remaps, planned⟩ := bind_eq_ok_iff.mp planned
      obtain ⟨decompiler, decompiles, -⟩ := bind_eq_ok_iff.mp planned
      refine ⟨⟨side, sided⟩, fun role => ?_⟩
      cases role with
      | remapper => exact ⟨remapper, remaps⟩
      | decompiler => exact ⟨decompiler, decompiles⟩
    · rintro ⟨⟨side, sided⟩, tools⟩
      obtain ⟨remapper, remaps⟩ := tools .remapper
      obtain ⟨decompiler, decompiles⟩ := tools .decompiler
      exact ⟨⟨p.version, side, remapper, decompiler⟩, by rw [plan, sided, remaps, decompiles]; rfl⟩
  rw [parts, exists_side_iff]
  simp only [exists_tool_iff]
  constructor
  · rintro ⟨sided, tools⟩ (⟨h, unknown⟩ | ⟨role, h⟩ | ⟨role, h, asked, absent⟩)
    · exact unknown (sided _ h)
    · obtain ⟨table, h', -⟩ := tools role
      cases h.symm.trans h'
    · obtain ⟨table, h', whole⟩ := tools role
      cases h.symm.trans h'
      exact whole _ asked absent
  · intro plain
    refine ⟨fun value h => ?_, fun role => ?_⟩
    · by_contra unknown
      exact plain (.side h unknown)
    · rcases h : p.document.root.table? role.name with _ | table
      · exact absurd (.table role h) plain
      · exact ⟨table, rfl, fun key asked absent => plain (.field role h asked absent)⟩

/-- **Nothing is planned from a text of no use**, and something is from any other. -/
theorem exists_planned_iff :
    (∃ p plan, parse text = .ok p ∧ p.plan = .ok plan) ↔ ¬ Unusable text := by
  constructor
  · rintro ⟨p, plan, parsed, planned⟩ (nameless | ⟨read, vague⟩)
    · exact exists_parse_iff.mp ⟨p, parsed⟩ nameless
    · obtain ⟨read', -⟩ := parse_eq_ok_iff.mp parsed
      cases read.symm.trans read'
      exact exists_plan_iff.mp ⟨plan, planned⟩ vague
  · intro useful
    obtain ⟨p, parsed⟩ := exists_parse_iff.mpr fun nameless => useful (.nameless nameless)
    obtain ⟨read, -⟩ := parse_eq_ok_iff.mp parsed
    obtain ⟨plan, planned⟩ := exists_plan_iff.mpr fun vague => useful (.vague read vague)
    exact ⟨p, plan, parsed, planned⟩

/-- What a toolchain is made of is what a build asks for. -/
theorem exists_plan_of_toolchain {version : String} {t : Toolchain}
    (described : p.toolchain version = .ok t) : ∃ plan, p.plan = .ok plan := by
  obtain ⟨remapper, remaps, described⟩ := bind_eq_ok_iff.mp described
  obtain ⟨decompiler, decompiles, described⟩ := bind_eq_ok_iff.mp described
  rcases named : p.version? with _ | name <;> rw [named] at described
  · cases described
  obtain ⟨side, sided, -⟩ := bind_eq_ok_iff.mp described
  exact ⟨⟨p.version, side, remapper, decompiler⟩, by rw [plan, sided, remaps, decompiles]; rfl⟩

end Profile

/-! ## What is said of them -/

namespace Profile

theorem blameless_parse (text : String) : Outcome.Blameless (parse text) := by
  unfold parse
  split
  · exact Outcome.blameless_error nofun
  · split
    · exact Outcome.blameless_ok _
    · exact Outcome.blameless_error nofun

theorem blameless_side (p : Profile) : p.side.Blameless := by
  unfold side
  split
  · unfold Side.parse
    dsimp only
    split
    · exact Outcome.blameless_ok _
    · split
      · exact Outcome.blameless_ok _
      · exact Outcome.blameless_error nofun
  · exact Outcome.blameless_ok _

theorem blameless_tool (p : Profile) (role : ToolRole) : (p.tool role).Blameless := by
  unfold tool
  split
  · exact Outcome.blameless_error nofun
  · refine .bind ?_ fun _ => .bind ?_ fun _ => .bind ?_ fun _ => Outcome.blameless_ok _
    all_goals
      dsimp only
      split
      · exact Outcome.blameless_ok _
      · exact Outcome.blameless_error nofun

theorem blameless_plan (p : Profile) : p.plan.Blameless :=
  p.blameless_side.bind fun _ => (p.blameless_tool _).bind fun _ => (p.blameless_tool _).bind fun _ =>
    Outcome.blameless_ok _

theorem blameless_toolchain (p : Profile) (version : String) : (p.toolchain version).Blameless := by
  refine (p.blameless_tool _).bind fun remapper => (p.blameless_tool _).bind fun decompiler => ?_
  rcases p.version? with _ | name
  · exact Outcome.blameless_error (e := .fault .missingVersion) nofun
  · exact p.blameless_side.bind fun _ => Outcome.blameless_ok _

/-- **Whatever is wrong with the profile in a directory**, the user is not blamed for it. -/
theorem blameless_load (dir : Path) : (load dir).Blameless :=
  .bind (.ask _ _) fun text => .ofOutcome ((blameless_parse text).during _)

end Profile

namespace Action
variable {α β : Type} {action : Action α} {f : α → Action β} {w : World}

/-- Whether an action fails in a world without a change, and the user is not blamed for it. -/
def Refuses (action : Action α) (w : World) : Prop :=
  ∃ e : Failure, e.Blameless ∧ action w = (.error e, w)

theorem Refuses.bind (first : Refuses action w) : Refuses (action >>= f) w := by
  obtain ⟨e, blameless, ran⟩ := first
  exact ⟨e, blameless, bind_of_error ran f⟩

theorem refuses_bind_of_ok {a : α} (ran : action w = (.ok a, w)) (next : Refuses (f a) w) :
    Refuses (action >>= f) w := by
  obtain ⟨e, blameless, ran'⟩ := next
  exact ⟨e, blameless, (bind_of_ok ran f).trans ran'⟩

theorem refuses_ofOutcome {x : Outcome α} (blameless : x.Blameless) (h : ∀ a, x ≠ .ok a) :
    Refuses (ofOutcome x) w := by
  cases x with
  | error e => exact ⟨e, blameless e rfl, rfl⟩
  | ok a => exact absurd rfl (h a)

end Action

namespace Workspace
variable {w : Workspace} {d : Disk} {name : String} {useless : String → Prop}

/-- **Whether the profile of a version directory is of no use**: it is there, but any text that is read
from it is useless. -/
structure Spoilt (w : Workspace) (d : Disk) (name : String) (useless : String → Prop) : Prop where
  file : d.isFile (Profile.fileIn (w.versionDir name))
  text : ∀ text, d.readText (Profile.fileIn (w.versionDir name)) = .ok text → useless text

theorem require_apply {u : World} (plain : isPlainName name) (isDir : u.disk.isDir (w.versionDir name)) :
    w.require name u = (.ok (w.versionDir name), u) := by
  unfold require
  rw [checkName, if_pos plain, bind_of_outcome rfl, bind_of_ok (isDir_apply _ _), if_pos isDir]
  rfl

theorem refuses_load {u : World} (spoilt : w.Spoilt u.disk name Profile.Nameless) :
    Refuses (Profile.load (w.versionDir name)) u := by
  have ends := Profile.ends_load (w.versionDir name) u
  have blameless := Profile.blameless_load (w.versionDir name) u
  rcases ran : Profile.load (w.versionDir name) u with ⟨e | p, u'⟩
  · obtain ⟨rfl, -⟩ := ends.error ran
    exact ⟨e, blameless.error ran, ran⟩
  · obtain ⟨-, text, read, parsed⟩ := ends.ok ran
    exact absurd (spoilt.text text read) (Profile.exists_parse_iff.mp ⟨p, parsed⟩)

/-- What needs a whole profile comes to nothing where it gets none. -/
theorem refuses_bind_require {u : World} {α : Type} {f : Profile → Action α}
    (spoilt : w.Spoilt u.disk name Profile.Unusable)
    (next : ∀ p, w.Reads u.disk name p → (∀ plan, p.plan ≠ .ok plan) → Refuses (f p) u) :
    Refuses (Profile.require (w.versionDir name) >>= f) u := by
  have ends := Profile.ends_load (w.versionDir name) u
  have blameless := Profile.blameless_load (w.versionDir name) u
  have required : Profile.require (w.versionDir name) u = Profile.load (w.versionDir name) u := by
    rw [Profile.require, bind_of_ok (isFile_apply _ _), if_pos spoilt.file]
  rcases ran : Profile.load (w.versionDir name) u with ⟨e | p, u'⟩
  · obtain ⟨rfl, -⟩ := ends.error ran
    exact Refuses.bind ⟨e, blameless.error ran, required.trans ran⟩
  · obtain ⟨rfl, text, read, parsed⟩ := ends.ok ran
    refine refuses_bind_of_ok (required.trans ran) (next p ⟨text, read, parsed⟩ fun plan planned => ?_)
    exact Profile.exists_planned_iff.mp ⟨p, plan, parsed, planned⟩ (spoilt.text text read)

theorem blameless_tracked? (w : Workspace) (name : String) : (w.tracked? name).Blameless := by
  refine .bind (fun _ => .of_ok rfl trivial) fun isFile => ?_
  split
  · exact .bind (Profile.blameless_load _) fun _ => .pure _
  · exact .pure _

/-- Listing comes to nothing where one of the profiles names no release. -/
theorem refuses_tracked {u : World} {names : List String} (listing : u.disk.names w.versions = .ok names)
    (listed : name ∈ names) (spoilt : w.Spoilt u.disk name Profile.Nameless) : Refuses w.tracked u := by
  have isDir : u.disk.isDir w.versions := by
    obtain ⟨place, -, listing⟩ := bind_eq_ok_iff.mp listing
    obtain ⟨node, found, listing⟩ := bind_eq_ok_iff.mp listing
    cases node with
    | file bytes => cases listing
    | dir => exact Disk.isDir_iff.mpr found
  have all := Ends.mapM names fun name _ => w.ends_tracked? name u
  unfold tracked
  refine refuses_bind_of_ok (isDir_apply _ _) ?_
  rw [if_pos isDir]
  refine refuses_bind_of_ok (ask_of_ok listing) (Refuses.bind ?_)
  rcases ran : names.mapM w.tracked? u with ⟨e | found, u'⟩
  · obtain ⟨rfl, -⟩ := all.error ran
    exact ⟨e, (Blameless.mapM names w.blameless_tracked? u').error ran, ran⟩
  · obtain ⟨-, -, forth⟩ := all.ok ran
    obtain ⟨t, -, good⟩ := forth name listed
    match t with
    | none => exact absurd spoilt.file good
    | some t =>
      obtain ⟨-, p, ⟨text, read, parsed⟩, -⟩ := good
      exact absurd (spoilt.text text read) (Profile.exists_parse_iff.mp ⟨p, parsed⟩)

/-- A move comes to nothing where the profile names no release. -/
theorem refuses_check {u : World} {m : Migration} (plain : isPlainName m.origin)
    (plain' : isPlainName m.target) (isDir : u.disk.isDir (w.versionDir m.origin))
    (free : u.disk.exists? (w.versionDir m.target) = false)
    (spoilt : w.Spoilt u.disk m.origin Profile.Nameless) : Refuses (m.check w) u := by
  unfold Migration.check
  dsimp only
  rw [checkName, if_pos plain, checkName, if_pos plain']
  refine refuses_bind_of_ok rfl (refuses_bind_of_ok rfl ?_)
  refine refuses_bind_of_ok (isDir_apply _ _) ?_
  rw [isDir]
  refine refuses_bind_of_ok (exists?_apply _ _) ?_
  rw [free]
  refine refuses_bind_of_ok (isFile_apply _ _) ?_
  rw [spoilt.file]
  exact refuses_load spoilt

end Workspace

/-! ## Commands -/

theorem Action.blameless_remove (p : Path) : (remove p).Blameless := by
  refine .bind (fun _ => .of_ok rfl trivial) fun d => ?_
  split
  · exact .pure _
  · exact .throw nofun
  · exact .changeBy _ _

theorem blameless_sourceBytes (d : Disk) (url : String) : Outcome.Blameless (sourceBytes d url) := by
  have path : Outcome.Blameless (sourcePath url) := by
    unfold sourcePath
    split
    · exact Outcome.blameless_error nofun
    · exact Outcome.blameless_error nofun
    · exact Outcome.blameless_ok _
  refine path.bind fun p => ?_
  split
  · exact Outcome.blameless_ok _
  · exact Outcome.blameless_error nofun

namespace Download

theorem blameless_check (r : Download) (bytes : ByteArray) : (r.check bytes).Blameless := by
  unfold check
  split
  · exact Outcome.blameless_ok _
  · dsimp only
    split
    · exact Outcome.blameless_ok _
    · exact Outcome.blameless_error nofun

/-- A download fails for what is out there, not by a mistake of the user. -/
theorem blameless_fetch (r : Download) : r.fetch.Blameless := by
  have room : r.makeRoom.Blameless := by
    refine .bind (blameless_remove _) fun _ => ?_
    unfold makeParent
    split
    · exact .changeBy _ _
    · exact .pure _
  have obtaining : r.obtain.Blameless := by
    refine .bind (fun _ => .of_ok rfl trivial) fun d => ?_
    have rest : Blameless (do
        let bytes ← ofOutcome (sourceBytes d r.url)
        return (bytes, ← ofOutcome (r.check bytes))) :=
      .bind (.ofOutcome (blameless_sourceBytes d r.url)) fun bytes =>
        .bind (.ofOutcome (r.blameless_check bytes)) fun _ => .pure _
    split
    · exact .bind (.throw nofun) fun _ => rest
    · exact rest
  have installing : ∀ bytes, (r.install bytes).Blameless := by
    refine fun bytes => .bind (fun _ => .of_ok rfl trivial) fun d => ?_
    split
    · exact fun _ => .of_ok rfl trivial
    · exact .throw nofun
  refine .tryCatch (.bind room fun _ => .bind obtaining fun got => .bind (installing _) fun _ => .pure _) ?_
  exact fun e blameless => .bind (.tryCatch (blameless_remove _) fun _ _ => .pure _) fun _ =>
    .throw blameless

end Download

theorem ReleaseCache.blameless_catalog (c : ReleaseCache) (url : String) : (c.catalog url).Blameless := by
  have parsed : ∀ text, (Catalog.parse text).Blameless := by
    intro text
    unfold Catalog.parse Json.decode
    split
    · exact Outcome.blameless_error nofun
    · split
      · exact Outcome.blameless_error nofun
      · exact Outcome.blameless_ok _
  exact .bind (Download.blameless_fetch _) fun _ => .bind (.ask _ _) fun text => .ofOutcome (parsed text)

namespace Command

/-- The world in which a command looks at profiles: an update downloads the catalog first. -/
def looking (c : CommandContext) (w : World) : Command → World
  | .update _ => ((ReleaseCache.mk c.settings.jsonsDir).catalog c.settings.catalogUrl w).2
  | _ => w

/-- The places that a command has changed by then: where an update keeps the catalog. -/
def fetched (c : CommandContext) (here : Place) : Command → Place → Prop
  | .update _, place => (c.settings.jsonsDir.join "catalog.json").place here <+: place
  | _, _ => False

/-- **A command that comes to a profile of no use**: nothing else is in its way on the disk where it looks
at profiles.  A setup and a package need all of the profile, a move and an update the release that it
names. -/
inductive Comes (c : CommandContext) (d : Disk) : Command → Prop where
  | setUp {version : String} {fuzz : FuzzOptions} {assets : AssetsMode} {strict : Bool}
      (plain : isPlainName version) (isDir : d.isDir (c.workspace.versionDir version))
      (tolerated : ∃ tolerance, fuzz.tolerance = .ok tolerance)
      (spoilt : c.workspace.Spoilt d version Profile.Unusable) :
      Comes c d (.setUp version fuzz assets strict)
  | package {version : String} {toolchainVersion : Option String} {output : Option Path}
      (plain : isPlainName version) (isDir : d.isDir (c.workspace.versionDir version))
      (known : ∀ p, c.workspace.Reads d version p → ∃ v, (PackageRequest.mk
        (c.workspace.versionDir version) toolchainVersion output).versionFor p = .ok v)
      (spoilt : c.workspace.Spoilt d version Profile.Unusable) :
      Comes c d (.package version toolchainVersion output)
  | migrate {origin target : String} (plain : isPlainName origin) (plain' : isPlainName target)
      (isDir : d.isDir (c.workspace.versionDir origin))
      (free : d.exists? (c.workspace.versionDir target) = false)
      (spoilt : c.workspace.Spoilt d origin Profile.Nameless) : Comes c d (.migrate origin target)
  | update {policy : UpdatePolicy} {names : List String} {name : String}
      (listing : d.names c.workspace.versions = .ok names) (listed : name ∈ names)
      (spoilt : c.workspace.Spoilt d name Profile.Nameless) : Comes c d (.update policy)

variable {s : Surroundings} {c : CommandContext} {w w' : World}

theorem reported_of_error {α : Type} {tell : α → Report} {action : Action α} {e : Failure}
    (blameless : e.Blameless) (ran : action w = (.error e, w')) :
    ∃ report, reported tell action w = (report, w') ∧ report.status = .failure :=
  ⟨.ofFailure e, congrArg (fun r : Outcome α × World => (Report.ofOutcome tell r.1, r.2)) ran,
    Report.status_ofFailure blameless⟩

theorem reported_of_refuses {α : Type} {tell : α → Report} {action : Action α}
    (refuses : action.Refuses w) :
    ∃ report, reported tell action w = (report, w) ∧ report.status = .failure := by
  obtain ⟨e, blameless, ran⟩ := refuses
  exact reported_of_error blameless ran

/-- An update that downloaded the catalog comes to nothing where a profile names no release. -/
theorem reported_update {policy : UpdatePolicy} {names : List String} {name : String}
    (listing : (looking c w (.update policy)).disk.names c.workspace.versions = .ok names)
    (listed : name ∈ names)
    (spoilt : c.workspace.Spoilt (looking c w (.update policy)).disk name Profile.Nameless) :
    ∃ report, reported Migration.updateReport (runUpdate s c policy) w =
      (report, looking c w (.update policy)) ∧ report.status = .failure := by
  have blameless := (ReleaseCache.mk c.settings.jsonsDir).blameless_catalog c.settings.catalogUrl w
  unfold looking at *
  dsimp only at *
  rcases ran : (ReleaseCache.mk c.settings.jsonsDir).catalog c.settings.catalogUrl w with
    ⟨e | catalog, w'⟩
  · exact reported_of_error (blameless.error ran) (bind_of_error ran _)
  · rw [ran] at listing spoilt
    obtain ⟨e, blameless', ran'⟩ : Refuses (c.workspace.update s catalog policy) w' :=
      (Workspace.refuses_tracked listing listed spoilt).bind
    exact reported_of_error blameless' ((bind_of_ok ran _).trans ran')

/-- **A command that comes to a profile of no use reports a failure**, not a mistake of the user, and
leaves the world as it was, but for the catalog that an update downloads first. -/
theorem failure_of_unusable (s : Surroundings) (c : CommandContext) (command : Command) (w : World)
    (comes : Comes c (command.looking c w).disk command) :
    (∃ report, command.run s c w = (report, command.looking c w) ∧ report.status = .failure) ∧
      w.disk.SameBut (command.fetched c w.disk.here) (command.looking c w).disk := by
  cases comes with
  | @setUp version fuzz assets strict plain isDir tolerated spoilt =>
    refine ⟨reported_of_refuses ?_, .refl _ _⟩
    obtain ⟨tolerance, tolerated⟩ := tolerated
    refine refuses_bind_of_ok (Workspace.require_apply plain isDir) ?_
    refine refuses_bind_of_ok (ofOutcome_apply _ _ |>.trans (by rw [tolerated])) ?_
    refine Refuses.bind (Refuses.bind (Workspace.refuses_bind_require spoilt fun p _ unplanned => ?_))
    exact (refuses_ofOutcome p.blameless_plan unplanned).bind
  | @package version toolchainVersion output plain isDir known spoilt =>
    refine ⟨reported_of_refuses ?_, .refl _ _⟩
    refine refuses_bind_of_ok (Workspace.require_apply plain isDir) ?_
    refine Workspace.refuses_bind_require spoilt fun p reads unplanned => ?_
    obtain ⟨v, known⟩ := known p reads
    refine refuses_bind_of_ok (ofOutcome_apply _ _ |>.trans (by rw [known])) ?_
    refine (refuses_ofOutcome (p.blameless_toolchain v) fun t described => ?_).bind
    obtain ⟨plan, planned⟩ := Profile.exists_plan_of_toolchain described
    exact unplanned plan planned
  | @migrate origin target plain plain' isDir free spoilt =>
    refine ⟨reported_of_refuses (Refuses.bind (Refuses.bind ?_)), .refl _ _⟩
    exact Workspace.refuses_check plain plain' isDir free spoilt
  | @update policy names name listing listed spoilt =>
    refine ⟨reported_update listing listed spoilt, ?_⟩
    have within : Within w.disk.here (fetched c w.disk.here (.update policy))
        ((ReleaseCache.mk c.settings.jsonsDir).catalog c.settings.catalogUrl) fun _ => True :=
      .bind (Download.within_fetch fun _ => id) fun _ _ => within_parse _ _
    exact within.sameBut rfl

/-! ## A release that is no text -/

/-- A world with a version directory whose profile gives a number for the release. -/
def demoWorld : World where
  disk := ((Disk.empty.put ["versions"] .dir).put ["versions", "1.20"] .dir).put
    ["versions", "1.20", "remold.toml"] (.file "minecraftVersion = 12\n".toUTF8)
  gitCalls := []
  launches := []

/-- A workspace at the root. -/
def demoContext : CommandContext where
  workspace := ⟨⟨"/"⟩⟩
  settings := {
    cache := ⟨"/cache"⟩
    cacheSource := "REMOLD_CACHE_PATH"
    catalogUrl := Settings.usualCatalogUrl
    assetsUrl := Settings.usualAssetsUrl
    jobs := 1
    keepProxies := false
    java := "java" }
  environment := ⟨[]⟩

theorem failure_of_unusable_demo :
    ∃ report, run Migration.demoSurroundings demoContext (.package "1.20" (some "7") none) demoWorld =
      (report, demoWorld) ∧ report.status = .failure := by
  have read : (demoWorld.disk.readText (Profile.fileIn (demoContext.workspace.versionDir "1.20"))).toOption =
      some "minecraftVersion = 12\n" := by decide +kernel
  have unnamed : (Profile.parse "minecraftVersion = 12\n").toOption = none := by decide +kernel
  have spoilt : demoContext.workspace.Spoilt demoWorld.disk "1.20" Profile.Unusable := by
    refine ⟨by decide +kernel, fun text known => .nameless ?_⟩
    cases known.symm.trans (eq_ok_of_toOption read)
    by_contra useful
    obtain ⟨p, parsed⟩ := Profile.exists_parse_iff.mpr useful
    rw [parsed] at unnamed
    cases unnamed
  exact (failure_of_unusable Migration.demoSurroundings demoContext _ demoWorld
    (.package (by decide) (by decide +kernel) (fun p _ => ⟨"7", rfl⟩) spoilt)).1

end Command
end Patchwork
