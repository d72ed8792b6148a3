import Patchwork.Release.Instant
import Patchwork.Digest.Checksum
import Patchwork.Json.Parse
import Std.Data.TreeMap
/-!
The catalog of releases, newest first. A release is found by its id, by its place in the list, or by
the time at which it came out.
-/
namespace Patchwork

/-- A release as the catalog lists it. -/
structure Release where
  id : String
  kind : String
  time : String
  releaseTime : String
  url : String
  sha1 : String
deriving DecidableEq, Repr

namespace Release

/-- The digest that the release's manifest must have. -/
def checksum (r : Release) : Checksum := .of .sha1 r.sha1

/-- When the release came out. -/
def instant (r : Release) : Outcome Instant :=
  match Instant.ofText? r.releaseTime with
  | some i => .ok i
  | none =>
    .error (.during (.readingReleaseTime r.releaseTime r.id)
      (.fault (.malformed "not an RFC 3339 instant")))

/-- Whether the release is a finished one. -/
def isFinished (r : Release) : Bool := r.kind == "release"

/-- Whether the release is of a kind, where `none` stands for any. -/
def isOf (kind : Option String) (r : Release) : Bool := kind.all (· == r.kind)

/-- Writes a release. -/
def toJson (r : Release) : Json :=
  .obj [("id", .str r.id), ("type", .str r.kind), ("time", .str r.time),
    ("releaseTime", .str r.releaseTime), ("url", .str r.url), ("sha1", .str r.sha1)]

/-- Reads a release. -/
def ofJson? (j : Json) : Option Release :=
  match j.fields? ["id", "type", "time", "releaseTime", "url", "sha1"] with
  | some [id, kind, time, releaseTime, url, sha1] => do
    return {
      id := ← Json.required? Json.text? id
      kind := ← Json.required? Json.text? kind
      time := ← Json.required? Json.text? time
      releaseTime := ← Json.required? Json.text? releaseTime
      url := ← Json.required? Json.text? url
      sha1 := ← Json.required? Json.text? sha1 }
  | _ => none

end Release

/-- The newest id of each kind, and all releases, newest first. -/
structure Catalog where
  latest : Std.TreeMap String String
  releases : List Release

namespace Catalog

/-- Reads texts by name; of a repeated name the last one counts. -/
def texts? (j : Json) : Option (Std.TreeMap String String) := do
  let members ← j.members?
  members.foldlM (fun t m => do return t.insert m.1 (← m.2.text?)) ∅

/-- Writes a catalog. -/
def toJson (c : Catalog) : Json :=
  .obj [("latest", .obj (c.latest.toList.map fun m => (m.1, .str m.2))),
    ("versions", .arr (c.releases.map Release.toJson))]

/-- Reads a catalog. -/
def ofJson? (j : Json) : Option Catalog :=
  match j.fields? ["latest", "versions"] with
  | some [latest, releases] => do
    return {
      latest := ← Json.defaulted? ∅ texts? latest
      releases := ← Json.required? (Json.list? Release.ofJson?) releases }
  | _ => none

/-- Reads the text of a catalog. -/
def parse (text : String) : Outcome Catalog := Json.decode "version catalog" ofJson? text

/-- The release with an id. -/
def release? (c : Catalog) (id : String) : Option Release := c.releases.find? (·.id == id)

/-- The release with an id, which must be listed. -/
def release (c : Catalog) (id : String) : Outcome Release :=
  match c.release? id with
  | some r => .ok r
  | none => .error (.usage (.unknownVersion id))

/-- The closest release of a kind that is listed before an id. -/
def successor? (c : Catalog) (id : String) (kind : Option String) : Option Release :=
  if (c.release? id).isSome then
    (c.releases.takeWhile (·.id != id)).reverse.find? (Release.isOf kind)
  else none

/-- The first release of a kind. -/
def first? (c : Catalog) (kind : Option String) : Option Release :=
  c.releases.find? (Release.isOf kind)

/-- The release that came out last among `newest` and those with the given ids. Ids that are not
listed are passed over, and of two that came out together the earlier one stays. -/
def newestOver (c : Catalog) (newest : Option (Release × Instant)) :
    List String → Outcome (Option (Release × Instant))
  | [] => .ok newest
  | id :: ids =>
    match c.release? id with
    | none => newestOver c newest ids
    | some r => do
      let instant ← r.instant
      if newest.all fun best => best.2.earlier instant then newestOver c (some (r, instant)) ids
      else newestOver c newest ids

/-- The release that came out last among those with the given ids. -/
def newestAmong (c : Catalog) (ids : List String) : Outcome (Option Release) := do
  return (← c.newestOver none ids).map Prod.fst

end Catalog
end Patchwork
