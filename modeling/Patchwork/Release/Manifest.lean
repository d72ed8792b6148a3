import Patchwork.Digest.Checksum
import Patchwork.Json.Parse
import Patchwork.Toolchain.Side
/-!
The manifest of a release: where its jars, mappings, libraries and assets come from.
-/
namespace Patchwork

/-- A file to download and the digest it must have. -/
structure RemoteFile where
  url : String
  size : Nat
  sha1 : String
deriving DecidableEq, Repr

/-- The jars of both sides, and the mappings of those sides that publish some. -/
structure ReleaseFiles where
  server : RemoteFile
  client : RemoteFile
  serverMappings : Option RemoteFile
  clientMappings : Option RemoteFile
deriving DecidableEq, Repr

/-- The jar of a library, with the path under which libraries are kept. -/
structure LibraryJar where
  path : String
  sha1 : String
  size : Nat
  url : String
deriving DecidableEq, Repr

/-- What a library offers for download. -/
structure LibraryDownloads where
  artifact : Option LibraryJar
deriving DecidableEq, Repr

/-- A library that the release runs with. -/
structure Library where
  name : String
  downloads : Option LibraryDownloads
deriving DecidableEq, Repr

/-- Where the asset index comes from. -/
structure IndexSource where
  id : Option String
  sha1 : String
  url : String
deriving DecidableEq, Repr

/-- The manifest of a release. -/
structure Manifest where
  id : Option String
  kind : Option String
  releaseTime : Option String
  downloads : ReleaseFiles
  javaVersion : Nat
  libraries : List Library
  assetIndex : IndexSource
  assets : Option String
deriving DecidableEq, Repr

/-- Reads a size, which is a 64-bit word. -/
def size? : Json → Option Nat := Json.word? Text.wordLimit

namespace RemoteFile

/-- The digest that the file must have. -/
def checksum (d : RemoteFile) : Checksum := .of .sha1 d.sha1

/-- Writes a download. -/
def toJson (d : RemoteFile) : Json :=
  .obj [("url", .str d.url), ("size", .nat d.size), ("sha1", .str d.sha1)]

/-- Reads a download. -/
def ofJson? (j : Json) : Option RemoteFile :=
  match j.fields? ["url", "size", "sha1"] with
  | some [url, size, sha1] => do
    return {
      url := ← Json.required? Json.text? url
      size := ← Json.required? size? size
      sha1 := ← Json.required? Json.text? sha1 }
  | _ => none

end RemoteFile

namespace ReleaseFiles

/-- Writes the downloads. -/
def toJson (d : ReleaseFiles) : Json :=
  .obj [("server", d.server.toJson), ("client", d.client.toJson),
    ("server_mappings", .orNull (d.serverMappings.map RemoteFile.toJson)),
    ("client_mappings", .orNull (d.clientMappings.map RemoteFile.toJson))]

/-- Reads the downloads. -/
def ofJson? (j : Json) : Option ReleaseFiles :=
  match j.fields? ["server", "client", "server_mappings", "client_mappings"] with
  | some [server, client, serverMappings, clientMappings] => do
    return {
      server := ← Json.required? RemoteFile.ofJson? server
      client := ← Json.required? RemoteFile.ofJson? client
      serverMappings := ← Json.optional? RemoteFile.ofJson? serverMappings
      clientMappings := ← Json.optional? RemoteFile.ofJson? clientMappings }
  | _ => none

end ReleaseFiles

namespace LibraryJar

/-- The digest that the jar must have. -/
def checksum (l : LibraryJar) : Checksum := .of .sha1 l.sha1

/-- Writes a library's jar. -/
def toJson (l : LibraryJar) : Json :=
  .obj [("path", .str l.path), ("sha1", .str l.sha1), ("size", .nat l.size), ("url", .str l.url)]

/-- Reads a library's jar. -/
def ofJson? (j : Json) : Option LibraryJar :=
  match j.fields? ["path", "sha1", "size", "url"] with
  | some [path, sha1, size, url] => do
    return {
      path := ← Json.required? Json.text? path
      sha1 := ← Json.required? Json.text? sha1
      size := ← Json.required? size? size
      url := ← Json.required? Json.text? url }
  | _ => none

end LibraryJar

namespace Library

/-- Reads what a library offers. -/
def downloads? (j : Json) : Option LibraryDownloads :=
  match j.fields? ["artifact"] with
  | some [artifact] => do return ⟨← Json.optional? LibraryJar.ofJson? artifact⟩
  | _ => none

/-- Writes a library. -/
def toJson (l : Library) : Json :=
  .obj [("name", .str l.name),
    ("downloads", .orNull (l.downloads.map fun d =>
      .obj [("artifact", .orNull (d.artifact.map LibraryJar.toJson))]))]

/-- Reads a library. -/
def ofJson? (j : Json) : Option Library :=
  match j.fields? ["name", "downloads"] with
  | some [name, downloads] => do
    return {
      name := ← Json.required? Json.text? name
      downloads := ← Json.optional? downloads? downloads }
  | _ => none

/-- The library's jar, if it has one. -/
def jar? (l : Library) : Option LibraryJar := l.downloads.bind LibraryDownloads.artifact

end Library

namespace IndexSource

/-- The digest that the index must have. -/
def checksum (s : IndexSource) : Checksum := .of .sha1 s.sha1

/-- Writes the place of the index. -/
def toJson (s : IndexSource) : Json :=
  .obj [("id", .orNull (s.id.map .str)), ("sha1", .str s.sha1), ("url", .str s.url)]

/-- Reads the place of the index. -/
def ofJson? (j : Json) : Option IndexSource :=
  match j.fields? ["id", "sha1", "url"] with
  | some [id, sha1, url] => do
    return {
      id := ← Json.optional? Json.text? id
      sha1 := ← Json.required? Json.text? sha1
      url := ← Json.required? Json.text? url }
  | _ => none

end IndexSource

namespace Manifest

/-- Reads the Java version, a 32-bit word. -/
def javaVersion? (j : Json) : Option Nat :=
  match j.fields? ["majorVersion"] with
  | some [version] => Json.required? (Json.word? (Nat.pow 2 32)) version
  | _ => none

/-- Writes a manifest. -/
def toJson (m : Manifest) : Json :=
  .obj [
    ("id", .orNull (m.id.map .str)),
    ("type", .orNull (m.kind.map .str)),
    ("releaseTime", .orNull (m.releaseTime.map .str)),
    ("downloads", m.downloads.toJson),
    ("javaVersion", .obj [("majorVersion", .nat m.javaVersion)]),
    ("libraries", .arr (m.libraries.map Library.toJson)),
    ("assetIndex", m.assetIndex.toJson),
    ("assets", .orNull (m.assets.map .str))]

/-- The names of the fields in order. -/
def fieldNames : List String :=
  ["id", "type", "releaseTime", "downloads", "javaVersion", "libraries", "assetIndex", "assets"]

/-- Reads a manifest. -/
def ofJson? (j : Json) : Option Manifest :=
  match j.fields? fieldNames with
  | some [id, kind, releaseTime, downloads, javaVersion, libraries, assetIndex, assets] => do
    return {
      id := ← Json.optional? Json.text? id
      kind := ← Json.optional? Json.text? kind
      releaseTime := ← Json.optional? Json.text? releaseTime
      downloads := ← Json.required? ReleaseFiles.ofJson? downloads
      javaVersion := ← Json.required? javaVersion? javaVersion
      libraries := ← Json.defaulted? [] (Json.list? Library.ofJson?) libraries
      assetIndex := ← Json.required? IndexSource.ofJson? assetIndex
      assets := ← Json.optional? Json.text? assets }
  | _ => none

/-- Reads the text of a manifest. -/
def parse (text : String) : Outcome Manifest := Json.decode "version manifest" ofJson? text

/-- The jar of a side. -/
def jar (m : Manifest) : Side → RemoteFile
  | .server => m.downloads.server
  | .client => m.downloads.client

/-- The mappings of a side, if it publishes some. -/
def mappings? (m : Manifest) : Side → Option RemoteFile
  | .server => m.downloads.serverMappings
  | .client => m.downloads.clientMappings

/-- The name of the asset index: the one the release uses, else the index's own. -/
def assetTag? (m : Manifest) : Option String := m.assets <|> m.assetIndex.id

/-- The jars of the libraries that have one, in order. -/
def libraryJars (m : Manifest) : List LibraryJar := m.libraries.filterMap Library.jar?

end Manifest
end Patchwork
