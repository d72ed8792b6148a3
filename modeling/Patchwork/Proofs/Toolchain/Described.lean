import Patchwork.Proofs.Json.Written
import Patchwork.Proofs.Outcome
import Patchwork.Proofs.Toml.Laid
import Patchwork.Toolchain.Json
import Patchwork.Toolchain.Profile

/-! Toolchains and their texts.  Every toolchain is read back from its metadata
(`Toolchain.parse_render`).

What a profile says of its toolchain is what its document says (`Profile.toolchain_congr`).  The profile
that is made from a toolchain is laid out under its keys (`Profile.ofToolchain_eq`), so its text is read as
a profile that describes the same toolchain (`Profile.parse_ofToolchain`).  So a toolchain survives both of
its texts (`Toolchain.survives_texts`). -/

namespace Patchwork

/-! ## Metadata -/

theorem Json.list?_strs (texts : List String) : Json.list? Json.text? (Json.strs texts) = some texts := by
  have all : (texts.map Json.str).mapM Json.text? = some texts := by
    induction texts with
    | nil => rfl
    | cons text texts ih =>
      rw [List.map_cons, List.mapM_cons, ih]
      rfl
  exact all

namespace ToolJar

theorem textual_toJson (jar : ToolJar) : jar.toJson.Textual := by
  refine .obj fun m listed => ?_
  rcases jar with ⟨coordinate, url, sha256, _ | mainClass⟩ <;>
    simp only [Option.map_none, Option.map_some, Option.toList_none, Option.toList_some,
      List.append_nil, List.cons_append, List.nil_append, List.mem_cons, List.not_mem_nil,
      or_false] at listed
  · rcases listed with rfl | rfl | rfl <;> exact .str _
  · rcases listed with rfl | rfl | rfl | rfl <;> exact .str _

theorem ofJson?_toJson (jar : ToolJar) : ofJson? jar.toJson = some jar := by
  rcases jar with ⟨coordinate, url, sha256, _ | mainClass⟩ <;> rfl

end ToolJar

namespace Repository

theorem textual_toJson (r : Repository) : r.toJson.Textual := by
  refine .obj fun m listed => ?_
  rcases r with ⟨name, url, _ | groups⟩ <;>
    simp only [Option.map_none, Option.map_some, Option.toList_none, Option.toList_some,
      List.append_nil, List.cons_append, List.nil_append, List.mem_cons, List.not_mem_nil,
      or_false] at listed
  · rcases listed with rfl | rfl <;> exact .str _
  · rcases listed with rfl | rfl | rfl
    · exact .str _
    · exact .str _
    · exact .strs _

theorem ofJson?_toJson (r : Repository) : ofJson? r.toJson = some r := by
  rcases r with ⟨name, url, _ | groups⟩
  · rfl
  · have fields : (toJson ⟨name, url, some groups⟩).fields? ["name", "url", "groups"] =
        some [some (.str name), some (.str url), some (.strs groups)] := rfl
    have optional : Json.optional? (Json.list? Json.text?) (some (.strs groups)) =
        some (some groups) := by
      have read : Json.optional? (Json.list? Json.text?) (some (.strs groups)) =
          (Json.list? Json.text? (.strs groups)).map some := rfl
      rw [read, Json.list?_strs]
      rfl
    rw [ofJson?, fields]
    dsimp only
    rw [optional]
    rfl

end Repository

namespace Toolchain

theorem textual_toJson (t : Toolchain) : t.toJson.Textual := by
  refine .obj fun m listed => ?_
  simp only [List.mem_cons, List.not_mem_nil, or_false] at listed
  rcases listed with rfl | rfl | rfl | rfl | rfl | rfl | rfl | rfl
  · exact .str _
  · exact .str _
  · exact .str _
  · exact t.remapper.jar.textual_toJson
  · exact t.decompiler.jar.textual_toJson
  · refine .arr fun j listed => ?_
    obtain ⟨r, -, rfl⟩ := List.mem_map.mp listed
    exact r.textual_toJson
  · exact .strs _
  · exact .strs _

theorem ofJson?_toJson (t : Toolchain) : ofJson? t.toJson = some t := by
  have fields : t.toJson.fields? fieldNames = some [some (.str t.version), some (.str t.side.name),
      some (.str t.toolchainVersion), some t.remapper.jar.toJson, some t.decompiler.jar.toJson,
      some (.arr (t.repositories.map Repository.toJson)), some (.strs t.remapper.args),
      some (.strs t.decompiler.args)] := rfl
  have side : Json.defaulted? .server Side.ofJson? (some (.str t.side.name)) = some t.side := by
    cases t.side <;> rfl
  have jar : ∀ jar : ToolJar, Json.required? ToolJar.ofJson? (some jar.toJson) = some jar :=
    ToolJar.ofJson?_toJson
  have texts : ∀ texts, Json.defaulted? [] (Json.list? Json.text?) (some (.strs texts)) =
      some texts := Json.list?_strs
  have repositories : Json.defaulted? [] (Json.list? Repository.ofJson?)
      (some (.arr (t.repositories.map Repository.toJson))) = some t.repositories := by
    have all : (t.repositories.map Repository.toJson).mapM Repository.ofJson? =
        some t.repositories := by
      induction t.repositories with
      | nil => rfl
      | cons r repositories ih =>
        rw [List.map_cons, List.mapM_cons, Repository.ofJson?_toJson, ih]
        rfl
    exact all
  rw [ofJson?, fields]
  dsimp only
  rw [side, jar, jar, texts, texts, repositories]
  rfl

/-- **A toolchain is read back from its text.** -/
theorem parse_render (t : Toolchain) : parse t.render = .ok t := by
  rw [parse, render, Json.decode, Json.parse?_pretty t.textual_toJson]
  dsimp only
  rw [ofJson?_toJson]

end Toolchain

/-! ## What a profile says -/

namespace Toml

/-- Hides nothing. -/
def Hiding.nothing : Hiding := fun _ => false

namespace Table
variable {t t' : Table} (name : String)

theorem text?_plain (t : Table) : (t.plain .nothing).text? name = t.text? name := by
  rw [text?, text?, find?_plain]
  rcases t.find? name with _ | ⟨e⟩ | ⟨inner⟩ | ⟨all⟩ <;> rfl

theorem texts_plain (t : Table) : (t.plain .nothing).texts name = t.texts name := by
  rw [texts, texts, find?_plain]
  rcases t.find? name with _ | ⟨e⟩ | ⟨inner⟩ | ⟨all⟩ <;> rfl

theorem table?_plain (t : Table) :
    (t.plain .nothing).table? name = (t.table? name).map (Table.plain .nothing) := by
  rw [table?, table?, find?_plain]
  rcases t.find? name with _ | ⟨e⟩ | ⟨inner⟩ | ⟨all⟩ <;> rfl

theorem tables_plain (t : Table) :
    (t.plain .nothing).tables name = (t.tables name).map (Table.plain .nothing) := by
  rw [tables, tables, find?_plain]
  rcases t.find? name with _ | ⟨e⟩ | ⟨inner⟩ | ⟨all⟩
  · rfl
  · rfl
  · rfl
  · exact plainTables_eq _ _

end Table
end Toml

/-- The key of an entry, under a name that needs no quotes. -/
def Toml.assignedKey (name : String) : Toml.KeyPart := ⟨name, name, ⟨"", ""⟩, ⟨"", " "⟩⟩

/-- The key of a header. -/
def Toml.headedKey (name : String) : Toml.KeyPart := ⟨name, name, ⟨"", ""⟩, ⟨"", ""⟩⟩

namespace Profile
open Toml
variable {p q : Profile}

theorem repositoryOf?_plain (t : Table) : repositoryOf? (t.plain .nothing) = repositoryOf? t := by
  have groups : ((t.plain .nothing).find? "groups").map (fun _ => (t.plain .nothing).texts "groups") =
      (t.find? "groups").map fun _ => t.texts "groups" := by
    rw [find?_plain, Option.map_map, Table.texts_plain]
    rfl
  rw [repositoryOf?, repositoryOf?, Table.text?_plain, Table.text?_plain, groups]

section
variable (same : p.document.root.plain .nothing = q.document.root.plain .nothing)
include same

theorem version?_congr : p.version? = q.version? := by
  rw [version?, version?, ← Table.text?_plain, same, Table.text?_plain]

theorem toolchainVersion?_congr : p.toolchainVersion? = q.toolchainVersion? := by
  rw [toolchainVersion?, toolchainVersion?, ← Table.text?_plain, same, Table.text?_plain]

theorem side_congr : p.side = q.side := by
  rw [side, side, ← Table.text?_plain, same, Table.text?_plain]

theorem tool_congr (role : ToolRole) : p.tool role = q.tool role := by
  have tables := Table.table?_plain role.name p.document.root
  rw [same, Table.table?_plain] at tables
  unfold tool
  rcases left : p.document.root.table? role.name with _ | t <;>
    rcases right : q.document.root.table? role.name with _ | t' <;>
    rw [left, right] at tables
  · cases tables
  · cases tables
  · have alike : t'.plain .nothing = t.plain .nothing := Option.some.inj tables
    have text : ∀ name, t.text? name = t'.text? name := fun name => by
      rw [← Table.text?_plain, ← alike, Table.text?_plain]
    have texts : ∀ name, t.texts name = t'.texts name := fun name => by
      rw [← Table.texts_plain, ← alike, Table.texts_plain]
    simp only [text, texts]

theorem repositories_congr : p.repositories = q.repositories := by
  have plain : ∀ all : List Table,
      all.filterMap repositoryOf? = (all.map (Table.plain .nothing)).filterMap repositoryOf? := by
    intro all
    rw [List.filterMap_map]
    exact congrArg (fun f => List.filterMap f all) (funext fun t => (repositoryOf?_plain t).symm)
  rw [repositories, repositories, plain, plain (q.document.root.tables _), ← Table.tables_plain,
    ← Table.tables_plain, same]

/-- **Documents that say the same** describe the same toolchain. -/
theorem toolchain_congr (version : String) : p.toolchain version = q.toolchain version := by
  rw [toolchain, toolchain, tool_congr same, tool_congr same, version?_congr same, side_congr same,
    repositories_congr same]

end

/-- Under another version of its own, a profile describes the same toolchain. -/
theorem toolchain_eq_ok {p : Profile} {version : String} {t : Toolchain}
    (described : p.toolchain version = .ok t) :
    p.version? = some t.version ∧ t.toolchainVersion = version ∧
      ∀ own, p.toolchain own = .ok { t with toolchainVersion := own } := by
  obtain ⟨remapper, known, described⟩ := bind_eq_ok_iff.mp described
  obtain ⟨decompiler, known', described⟩ := bind_eq_ok_iff.mp described
  rcases named : p.version? with _ | release <;> rw [named] at described
  · cases described
  obtain ⟨side, followed, described⟩ := bind_eq_ok_iff.mp described
  cases described
  refine ⟨rfl, rfl, fun own => ?_⟩
  rw [toolchain, known, known', named, followed]
  rfl

/-! ## The profile made from a toolchain -/

section
variable (t : Toolchain)

theorem toolTable_text? (tool : Tool) : (toolTable tool).text? "coordinate" = some tool.jar.coordinate ∧
    (toolTable tool).text? "url" = some tool.jar.url ∧
    (toolTable tool).text? "sha256" = some tool.jar.sha256 ∧
    (toolTable tool).text? "mainClass" = tool.jar.mainClass := by
  rcases tool with ⟨⟨coordinate, url, sha256, _ | mainClass⟩, args⟩ <;> exact ⟨rfl, rfl, rfl, rfl⟩

theorem texts_map_str (texts : List String) : (Value.arr (texts.map .str)).texts = texts := by
  rw [Value.texts, List.filterMap_map]
  exact List.filterMap_some

theorem toolTable_args (tool : Tool) : (toolTable tool).texts "args" = tool.args := by
  have found : (toolTable tool).texts "args" = (Value.arr (tool.args.map .str)).texts := by
    rcases tool with ⟨⟨coordinate, url, sha256, _ | mainClass⟩, args⟩ <;> rfl
  rw [found, texts_map_str]

theorem repositoryOf?_repositoryTable (r : Repository) : repositoryOf? (repositoryTable r) = some r := by
  rcases r with ⟨name, url, _ | groups⟩
  · rfl
  · have read : repositoryOf? (repositoryTable ⟨name, url, some groups⟩) =
        some ⟨name, url, some (Value.arr (groups.map .str)).texts⟩ := rfl
    rw [read, texts_map_str]

theorem side_parse_name (side : Side) : Side.parse side.name = .ok side := by
  have lower : ∀ s : String, s.toLower = s.map Char.toLower := fun _ => rfl
  have server : (Text.trim "server").toLower = "server" := by
    rw [lower, ← String.toList_inj, String.toList_map]
    decide
  have client : (Text.trim "client").toLower = "client" := by
    rw [lower, ← String.toList_inj, String.toList_map]
    decide
  cases side with
  | server =>
    rw [Side.name, Side.parse, server]
    rfl
  | client =>
    rw [Side.name, Side.parse, client]
    rfl

theorem tool_ofToolchain : (ofToolchain t).tool .remapper = .ok t.remapper ∧
    (ofToolchain t).tool .decompiler = .ok t.decompiler := by
  have remapper : (ofToolchain t).document.root.table? ToolRole.remapper.name =
      some (toolTable t.remapper) := rfl
  have decompiler : (ofToolchain t).document.root.table? ToolRole.decompiler.name =
      some (toolTable t.decompiler) := rfl
  constructor
  · obtain ⟨coordinate, url, sha256, mainClass⟩ := toolTable_text? t.remapper
    rw [tool, remapper]
    dsimp only
    rw [coordinate, url, sha256, mainClass, toolTable_args]
    rfl
  · obtain ⟨coordinate, url, sha256, mainClass⟩ := toolTable_text? t.decompiler
    rw [tool, decompiler]
    dsimp only
    rw [coordinate, url, sha256, mainClass, toolTable_args]
    rfl

theorem repositories_ofToolchain : (ofToolchain t).repositories = t.repositories := by
  have all : (t.repositories.map repositoryTable).filterMap repositoryOf? = t.repositories := by
    rw [List.filterMap_map]
    exact (congrArg (fun f => List.filterMap f t.repositories)
      (funext repositoryOf?_repositoryTable)).trans List.filterMap_some
  have tables : (ofToolchain t).document.root.tables "repositories" =
      t.repositories.map repositoryTable := by
    by_cases none : t.repositories = []
    · rw [ofToolchain, none]
      rfl
    · unfold ofToolchain
      dsimp only
      rw [if_neg none]
      rfl
  rw [repositories, tables, all]

/-- **The profile made from a toolchain describes it.** -/
theorem toolchain_ofToolchain (version : String) :
    (ofToolchain t).toolchain version = .ok { t with toolchainVersion := version } := by
  have named : (ofToolchain t).version? = some t.version := rfl
  have side : (ofToolchain t).side = Side.parse t.side.name := rfl
  obtain ⟨remapper, decompiler⟩ := tool_ofToolchain t
  rw [toolchain, remapper, decompiler, named, side, side_parse_name, repositories_ofToolchain]
  rfl

/-! ## Its text -/

/-- The entries of a tool's table. -/
def toolBody (tool : Tool) : List (KeyPart × Entry) :=
  [(assignedKey "coordinate", .ofText tool.jar.coordinate), (assignedKey "url", .ofText tool.jar.url),
      (assignedKey "sha256", .ofText tool.jar.sha256)]
    ++ (tool.jar.mainClass.map fun name => (assignedKey "mainClass", Entry.ofText name)).toList
    ++ [(assignedKey "args", .ofTexts tool.args)]

/-- The entries of a repository's table. -/
def repositoryBody (r : Repository) : List (KeyPart × Entry) :=
  [(assignedKey "name", .ofText r.name), (assignedKey "url", .ofText r.url)]
    ++ (r.groups.map fun groups => (assignedKey "groups", Entry.ofTexts groups)).toList

/-- The entries at the top. -/
def topBody : List (KeyPart × Entry) :=
  [(assignedKey versionKey, .ofText t.version), (assignedKey sideKey, .ofText t.side.name),
    (assignedKey toolchainKey, .ofText t.toolchainVersion)]

/-- What stands under headers. -/
def heads : List Head :=
  [.one (headedKey ToolRole.remapper.name) (toolBody t.remapper),
      .one (headedKey ToolRole.decompiler.name) (toolBody t.decompiler)]
    ++ if t.repositories = [] then []
      else [.many (headedKey "repositories") (t.repositories.map repositoryBody)]

/-- **The profile made from a toolchain is laid out** under its keys. -/
theorem ofToolchain_eq : (ofToolchain t).document = laid (topBody t) (heads t) := by
  have tool : ∀ tool : Tool, toolTable tool = .ofMembers (valueMembers (toolBody tool)) := by
    rintro ⟨⟨coordinate, url, sha256, _ | mainClass⟩, args⟩ <;> rfl
  have repository : repositoryTable = fun r => .ofMembers (valueMembers (repositoryBody r)) := by
    funext r
    rcases r with ⟨name, url, _ | groups⟩ <;> rfl
  rw [ofToolchain, laid, tool, tool, repository, heads]
  split
  · rfl
  · rw [List.map_append, List.map_singleton, Head.item, List.map_map]
    rfl

end

theorem blank_space : Blank " " := List.all_eq_true.mp (by decide)

section
variable {name : String} (some_name : name ≠ "") (bare : name.toList.all isKeyChar)
include some_name bare

theorem readable_headedKey : (headedKey name).Readable :=
  readable_bare rfl some_name (List.all_eq_true.mp bare) blank_empty blank_empty

/-- An entry under a name that needs no quotes can be written. -/
theorem lineOk_assigned {e : Entry} (value : e.Readable (value? (depthLimit - 1)))
    (after : e.around.after = "") : LineOk (assignedKey name, e) := by
  have bare := List.all_eq_true.mp bare
  refine ⟨readable_bare rfl some_name bare blank_empty blank_empty, value, ?_, lead_nil, blank_space⟩
  rw [after]
  exact ⟨[], [], rfl, List.forall_mem_nil _, .inl rfl⟩

theorem lineOk_text (text : String) : LineOk (assignedKey name, .ofText text) :=
  lineOk_assigned some_name bare (readable_stringLiteral _ text blank_space) rfl

theorem lineOk_texts (texts : List String) : LineOk (assignedKey name, .ofTexts texts) :=
  lineOk_assigned some_name bare (readable_arrayLiteral 78 texts blank_space) rfl

end

section
variable (t : Toolchain)

theorem lineOk_toolBody (tool : Tool) : ∀ m ∈ toolBody tool, LineOk m := by
  have coordinate := @lineOk_text "coordinate" (by decide) (by decide)
  have url := @lineOk_text "url" (by decide) (by decide)
  have sha256 := @lineOk_text "sha256" (by decide) (by decide)
  have mainClass := @lineOk_text "mainClass" (by decide) (by decide)
  have args := @lineOk_texts "args" (by decide) (by decide)
  refine List.forall_mem_append.mpr ⟨List.forall_mem_append.mpr ⟨?_, ?_⟩,
    List.forall_mem_singleton.mpr (args _)⟩
  · exact List.forall_mem_cons.mpr ⟨coordinate _, List.forall_mem_cons.mpr
      ⟨url _, List.forall_mem_singleton.mpr (sha256 _)⟩⟩
  · cases tool.jar.mainClass with
    | none => exact List.forall_mem_nil _
    | some name => exact List.forall_mem_singleton.mpr (mainClass name)

theorem lineOk_repositoryBody (r : Repository) : ∀ m ∈ repositoryBody r, LineOk m := by
  have name := @lineOk_text "name" (by decide) (by decide)
  have url := @lineOk_text "url" (by decide) (by decide)
  have groups := @lineOk_texts "groups" (by decide) (by decide)
  refine List.forall_mem_append.mpr ⟨List.forall_mem_cons.mpr
    ⟨name _, List.forall_mem_singleton.mpr (url _)⟩, ?_⟩
  cases r.groups with
  | none => exact List.forall_mem_nil _
  | some texts => exact List.forall_mem_singleton.mpr (groups texts)

theorem nodup_toolBody (tool : Tool) : ((toolBody tool).map (·.1.name)).Nodup := by
  rcases tool with ⟨⟨coordinate, url, sha256, _ | mainClass⟩, args⟩
  · have names : (toolBody ⟨⟨coordinate, url, sha256, none⟩, args⟩).map (·.1.name) =
        ["coordinate", "url", "sha256", "args"] := rfl
    rw [names]
    decide
  · have names : (toolBody ⟨⟨coordinate, url, sha256, some mainClass⟩, args⟩).map (·.1.name) =
        ["coordinate", "url", "sha256", "mainClass", "args"] := rfl
    rw [names]
    decide

theorem nodup_repositoryBody (r : Repository) : ((repositoryBody r).map (·.1.name)).Nodup := by
  rcases r with ⟨name, url, _ | groups⟩
  · have names : (repositoryBody ⟨name, url, none⟩).map (·.1.name) = ["name", "url"] := rfl
    rw [names]
    decide
  · have names : (repositoryBody ⟨name, url, some groups⟩).map (·.1.name) =
        ["name", "url", "groups"] := rfl
    rw [names]
    decide

theorem ok_heads : ∀ h ∈ heads t, h.Ok := by
  have tool : ∀ role : ToolRole, ∀ tool, (Head.one (headedKey role.name) (toolBody tool)).Ok := by
    intro role tool
    refine ⟨readable_headedKey ?_ ?_, ⟨blank_empty, blank_empty⟩, List.cons_ne_nil _ _,
      List.forall_mem_singleton.mpr (nodup_toolBody tool),
      List.forall_mem_singleton.mpr (lineOk_toolBody tool)⟩
    · cases role <;> decide
    · cases role <;> decide
  refine List.forall_mem_append.mpr ⟨List.forall_mem_cons.mpr
    ⟨tool .remapper _, List.forall_mem_singleton.mpr (tool .decompiler _)⟩, ?_⟩
  split
  · exact List.forall_mem_nil _
  · rename_i some_repository
    refine List.forall_mem_singleton.mpr ⟨readable_headedKey (by decide) (by decide),
      ⟨blank_empty, blank_empty⟩, fun none => some_repository (List.map_eq_nil_iff.mp none),
      List.forall_mem_map.mpr fun r _ => nodup_repositoryBody r,
      List.forall_mem_map.mpr fun r _ => lineOk_repositoryBody r⟩

theorem nodup_names : ((topBody t).map (·.1.name) ++ (heads t).map (·.key.name)).Nodup := by
  have top : (topBody t).map (·.1.name) = [versionKey, sideKey, toolchainKey] := rfl
  rw [top, heads]
  split
  · have names : List.map (fun h : Head => h.key.name) ([.one (headedKey ToolRole.remapper.name)
        (toolBody t.remapper), .one (headedKey ToolRole.decompiler.name) (toolBody t.decompiler)] ++ []) =
        [ToolRole.remapper.name, ToolRole.decompiler.name] := rfl
    rw [names]
    decide
  · have names : List.map (fun h : Head => h.key.name) ([.one (headedKey ToolRole.remapper.name)
        (toolBody t.remapper), .one (headedKey ToolRole.decompiler.name) (toolBody t.decompiler)] ++
          [.many (headedKey "repositories") (t.repositories.map repositoryBody)]) =
        [ToolRole.remapper.name, ToolRole.decompiler.name, "repositories"] := rfl
    rw [names]
    decide

/-- **The text of the profile made from a toolchain** is read as a profile that describes it. -/
theorem parse_ofToolchain : ∃ p, parse (ofToolchain t).render = .ok p ∧
    p.toolchainVersion? = some t.toolchainVersion ∧
    ∀ version, p.toolchain version = .ok { t with toolchainVersion := version } := by
  have top : ∀ m ∈ topBody t, LineOk m :=
    List.forall_mem_cons.mpr ⟨lineOk_text (by decide) (by decide) _, List.forall_mem_cons.mpr
      ⟨lineOk_text (by decide) (by decide) _,
        List.forall_mem_singleton.mpr (lineOk_text (by decide) (by decide) _)⟩⟩
  have some_top : topBody t ≠ [] := List.cons_ne_nil _ _
  obtain ⟨d, read, plain⟩ := parse?_render_laid some_top top (ok_heads t) (nodup_names t)
  rw [← ofToolchain_eq] at read plain
  have same : (Profile.mk d).document.root.plain .nothing =
      (ofToolchain t).document.root.plain .nothing := plain .nothing
  have named : (Profile.mk d).version? = some t.version := version?_congr same
  refine ⟨⟨d⟩, ?_, toolchainVersion?_congr same, fun version => ?_⟩
  · rw [parse, render, read]
    dsimp only
    rw [named]
    rfl
  · rw [toolchain_congr same, toolchain_ofToolchain]

end

end Profile

/-- **A toolchain survives both of its texts.**  It is read back from its metadata, and the text of the
profile that is made from it is read as a profile that records its version and describes it. -/
theorem Toolchain.survives_texts (t : Toolchain) :
    Toolchain.parse t.render = .ok t ∧
      ∃ p, Profile.parse (Profile.ofToolchain t).render = .ok p ∧
        p.toolchainVersion? = some t.toolchainVersion ∧ p.toolchain t.toolchainVersion = .ok t := by
  refine ⟨t.parse_render, ?_⟩
  obtain ⟨p, read, recorded, described⟩ := Profile.parse_ofToolchain t
  exact ⟨p, read, recorded, described t.toolchainVersion⟩

end Patchwork
