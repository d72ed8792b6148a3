import Patchwork.Environment
/-!
Where launchers keep assets. The places depend on the platform; each is given by a template that
begins with the home directory or with a variable.
-/
namespace Patchwork

/-- The kinds of systems that launchers run on. -/
inductive Platform where
  | windows
  | macOS
  | linux
  | other
deriving DecidableEq, Repr

/-- What a template needs to know: the home directory and the variables that are set. -/
structure PlaceLookup where
  home? : Option Path
  value? : String → Option String

/-- The lookup in an environment. -/
def PlaceLookup.ofEnvironment (e : Environment) : PlaceLookup := ⟨e.home?, e.value?⟩

namespace Platform

/-- The templates of the places, the most common first. -/
def templates : Platform → List String
  | linux => [
    "~/.minecraft/assets",
    "$XDG_DATA_HOME/PrismLauncher/assets",
    "~/.var/app/org.prismlauncher.PrismLauncher/data/PrismLauncher/assets",
    "$XDG_CONFIG_HOME/com.modrinth.theseus/meta/assets",
    "$XDG_DATA_HOME/multimc/assets"]
  | macOS => [
    "~/Library/Application Support/minecraft/assets",
    "~/Library/Application Support/PrismLauncher/assets"]
  | windows => [
    "%appdata%/.minecraft/assets",
    "%appdata%/PrismLauncher/assets",
    "%appdata%/com.modrinth.theseus/meta/assets",
    "~/scoop/persist/multimc/assets"]
  | other => []

/-- The directories that the beginning of a template stands for. The usual ones are tried also when
a variable names another. -/
def bases (l : PlaceLookup) (home : Path) (beginning : String) : List Path :=
  let named (name : String) : List Path := ((l.value? name).map Path.mk).toList
  if beginning = "~" then [home]
  else if beginning = "$XDG_DATA_HOME" then
    named "XDG_DATA_HOME" ++ [(home.join ".local").join "share"]
  else if beginning = "$XDG_CONFIG_HOME" then named "XDG_CONFIG_HOME" ++ [home.join ".config"]
  else if beginning = "%appdata%" then (home.join "AppData").join "Roaming" :: named "APPDATA"
  else [⟨beginning⟩]

/-- The directories that a template stands for. -/
def expand (l : PlaceLookup) (home : Path) (template : String) : List Path :=
  let (beginning, rest) := (Text.splitOnce? "/" template).getD (template, "")
  let names := (Text.pieces '/' rest).filter (· ≠ "")
  (bases l home beginning).map fun base => base.joinAll names

/-- The first of paths that lead to the same place, in order. -/
def distinct : List Path → List Path
  | [] => []
  | p :: rest => p :: (distinct rest).filter fun q => !p.same q

/-- The places to look for assets, in order; there are none without a home directory. -/
def places (platform : Platform) (l : PlaceLookup) : List Path :=
  match l.home? with
  | none => []
  | some home => distinct (platform.templates.flatMap (expand l home))

end Platform
end Patchwork
