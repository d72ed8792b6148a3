import Patchwork.Environment
import Patchwork.Failure
/-!
The settings of a run, taken from its environment: where files are kept between runs, where releases
and assets come from, and which launcher runs the tools.
-/
namespace Patchwork

/-- The settings of a run. -/
structure Settings where
  cache : Path
  /-- What decided the place of the cache. -/
  cacheSource : String
  catalogUrl : String
  assetsUrl : String
  /-- How many downloads may run at a time. -/
  jobs : Nat
  keepProxies : Bool
  java : String
deriving DecidableEq, Repr

namespace Settings

/-- Where the catalog comes from when nothing else is set. -/
def usualCatalogUrl : String := "https://piston-meta.mojang.com/mc/game/version_manifest_v2.json"

/-- Where assets come from when nothing else is set. -/
def usualAssetsUrl : String := "https://resources.download.minecraft.net"

/-- How many downloads run at a time when nothing else is set. -/
def usualJobs : Nat := 16

/-- The directory of assets. -/
def assetsDir (s : Settings) : Path := s.cache.join "assets"

/-- The directory of catalogs, manifests and indexes. -/
def jsonsDir (s : Settings) : Path := s.cache.join "jsons"

/-- The directory of tool jars. -/
def toolsDir (s : Settings) : Path := s.cache.join "tools"

/-- The directory of library jars. -/
def librariesDir (s : Settings) : Path := s.cache.join "libraries"

/-- The variables that ask for a proxy. -/
def proxyNames : List String :=
  ["HTTP_PROXY", "http_proxy", "HTTPS_PROXY", "https_proxy", "ALL_PROXY", "all_proxy", "NO_PROXY",
    "no_proxy"]

/-- The variables that settings and the places of launchers are taken from. -/
def variableNames : List String :=
  ["REMOLD_CACHE_PATH", "REMOLD_CATALOG_URL", "REMOLD_ASSETS_URL", "REMOLD_DOWNLOAD_JOBS",
    "REMOLD_KEEP_PROXIES", "REMOLD_JAVA", "JAVA_HOME", "HOME", "USERPROFILE", "XDG_CACHE_HOME",
    "XDG_DATA_HOME", "XDG_CONFIG_HOME"] ++ proxyNames

/-- Values that turn a switch off. -/
def offWords : List String := ["", "0", "false", "no", "off"]

/-- Whether proxies are used: a switch decides, and else whether any proxy is set. -/
def keepsProxies (e : Environment) : Bool :=
  match e.raw? "REMOLD_KEEP_PROXIES" with
  | some value => !offWords.contains (Text.trim value).toLower
  | none => proxyNames.any fun name => (e.value? name).isSome

/-- The number of downloads at a time, which must be positive. -/
def jobsOf (e : Environment) : Outcome Nat :=
  match e.value? "REMOLD_DOWNLOAD_JOBS" with
  | none => .ok usualJobs
  | some raw =>
    match Text.word? raw with
    | some (n + 1) => .ok (n + 1)
    | _ => .error (.usage (.invalidJobs raw))

/-- The place of the cache and what decided it. A relative place counts from `here`. -/
def cacheOf (here : Path) (e : Environment) : Outcome (Path × String) :=
  match e.value? "REMOLD_CACHE_PATH" with
  | some path => .ok (here.join path, "REMOLD_CACHE_PATH")
  | none =>
    match e.value? "XDG_CACHE_HOME" with
    | some base => .ok ((Path.mk base).join "remold", "XDG_CACHE_HOME")
    | none =>
      match e.home? with
      | some home => .ok ((home.join ".cache").join "remold", "~/.cache")
      | none => .error (.usage .noHome)

/-- The launcher of the tools. -/
def javaOf (e : Environment) : String :=
  match e.value? "REMOLD_JAVA" with
  | some java => java
  | none =>
    match e.value? "JAVA_HOME" with
    | some home => (((Path.mk home).join "bin").join "java").text
    | none => "java"

/-- The settings that an environment asks for. -/
def ofEnvironment (here : Path) (e : Environment) : Outcome Settings := do
  let jobs ← jobsOf e
  let (cache, cacheSource) ← cacheOf here e
  return {
    cache, cacheSource, jobs
    catalogUrl := (e.value? "REMOLD_CATALOG_URL").getD usualCatalogUrl
    assetsUrl := Text.trimEndOf '/' ((e.value? "REMOLD_ASSETS_URL").getD usualAssetsUrl)
    keepProxies := keepsProxies e
    java := javaOf e }

end Settings
end Patchwork
