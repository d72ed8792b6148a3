import Patchwork.Number.Binary64
/-!
Why an operation did not succeed. A failure is a cause below the steps that were under way. Causes
of five kinds carry a code, so that a caller can tell what the user can mend (`Failure.code?`) from
what merely went wrong; the text names every step, outermost first (`Failure.message`).
-/
namespace Patchwork

/-- Why the file system refused an operation. -/
inductive IoError where
  | notFound
  | exists
  | notDirectory
  | isDirectory
  | notEmpty
  | busy
  | invalidArgument
  | nameTooLong
  | notUtf8
  | nulInName
deriving DecidableEq, Repr

/-- The wording of a refusal. -/
def IoError.text : IoError → String
  | .notFound => "No such file or directory (os error 2)"
  | .exists => "File exists (os error 17)"
  | .notDirectory => "Not a directory (os error 20)"
  | .isDirectory => "Is a directory (os error 21)"
  | .notEmpty => "Directory not empty (os error 39)"
  | .busy => "Device or resource busy (os error 16)"
  | .invalidArgument => "Invalid argument (os error 22)"
  | .nameTooLong => "File name too long (os error 36)"
  | .notUtf8 => "stream did not contain valid UTF-8"
  | .nulInName => "file name contained an unexpected NUL byte"

/-- What is wrong with an entry of an archive. -/
inductive ArchiveFault where
  | missing
  | passwordNeeded
  | badOffset
  | noLocalRecord
  | cutShort
  | unsupportedMethod
  | wrongChecksum
  | incompleteStream
  | corruptStream
deriving DecidableEq, Repr

/-- The wording of a fault in an archive. -/
def ArchiveFault.text : ArchiveFault → String
  | .missing => "specified file not found in archive"
  | .passwordNeeded => "unsupported Zip archive: Password required to decrypt file"
  | .badOffset => "Invalid argument (os error 22)"
  | .noLocalRecord => "invalid Zip archive: Invalid local file header"
  | .cutShort => "failed to fill whole buffer"
  | .unsupportedMethod => "unsupported Zip archive: Compression method not supported"
  | .wrongChecksum => "Invalid checksum"
  | .incompleteStream => "incomplete deflate stream"
  | .corruptStream => "corrupt deflate stream"

/-- What is wrong with the text of a patch that has hunks. -/
inductive PatchTextError where
  | repeatedOldName
  | repeatedNewName
  | unterminatedName
  | forbiddenNameCharacter
  | loneEscape
  | unknownEscape
  | unescapedCharacter
  | malformedHunkHeader
  | unterminatedHunkHeader
  | malformedRange
  | lineAfterEnd
  | deletionAfterEnd
  | insertionAfterEnd
  | strayEndMarker
  | noNewlineToDrop
  | unknownLine
  | countMismatch
  | hunksOutOfOrder
deriving DecidableEq, Repr

/-- The wording of a fault in a patch. -/
def PatchTextError.text : PatchTextError → String
  | .repeatedOldName => "multiple '---' lines"
  | .repeatedNewName => "multiple '+++' lines"
  | .unterminatedName => "filename unterminated"
  | .forbiddenNameCharacter => "invalid char in unquoted filename"
  | .loneEscape => "expected escaped character"
  | .unknownEscape => "invalid escaped character"
  | .unescapedCharacter => "invalid unescaped character"
  | .malformedHunkHeader => "unable to parse hunk header"
  | .unterminatedHunkHeader => "hunk header unterminated"
  | .malformedRange => "can't parse range"
  | .lineAfterEnd => "expected end of hunk"
  | .deletionAfterEnd => "expected no more deleted lines"
  | .insertionAfterEnd => "expected no more inserted lines"
  | .strayEndMarker => "unexpected 'No newline at end of file' line"
  | .noNewlineToDrop => "missing newline"
  | .unknownLine => "unexpected line in hunk body"
  | .countMismatch => "Hunk header does not match hunk"
  | .hunksOutOfOrder => "Hunks not in order or overlap"

/-- A problem that the user can mend: an option, a name or the layout of the workspace. -/
inductive UsageProblem where
  | scoreOutOfRange (score : Binary64)
  | fuzzCombined
  | repeatedPatch (path : String)
  | missingBaseline (path : String)
  | missingWorkingTree (path : String)
  | missingVersionDir (path : String)
  | missingFile (path : String)
  | notVersionDir (path : String)
  | configMissing (path : String)
  | invalidDirName (name : String)
  | migrationTarget (path : String)
  | dirInTheWay (path : String)
  | metadataMissing (archive metadata : String)
  | toolchainUnknown
  | noVersionDirs (path : String)
  | noneInCatalog
  | unknownVersion (id : String)
  | noMappings (version side : String)
  | memberMissing (archive member : String)
  | invalidListLine (list line : String)
  | versionCount (list : String) (count : Nat)
  | noAssetIndex
  | unknownAssetsMode (value : String)
  | invalidJobs (raw : String)
  | noHome
  | other (text : String)

/-- The wording of a usage problem. -/
def UsageProblem.text : UsageProblem → String
  | .scoreOutOfRange score => "minimum fuzzy score must be between 0 and 1, got " ++ score.text
  | .fuzzCombined => "fuzzy scoring and max fuzz cannot be combined"
  | .repeatedPatch path => "more than one patch targets " ++ path
  | .missingBaseline path => "baseline " ++ path ++ " does not exist; run setup first"
  | .missingWorkingTree path => "working tree " ++ path ++ " does not exist"
  | .missingVersionDir path => "version directory " ++ path ++ " does not exist"
  | .missingFile path => path ++ " does not exist"
  | .notVersionDir path => path ++ " is not a version directory"
  | .configMissing path => path ++ " is missing; not a version directory"
  | .invalidDirName name => "'" ++ name ++ "' is not a valid version directory name"
  | .migrationTarget path => "cannot migrate: " ++ path ++ " already exists"
  | .dirInTheWay path =>
    path ++ " already exists; choose another directory name or pass --force"
  | .metadataMissing archive metadata =>
    "malformed archive " ++ archive ++ ": missing " ++ metadata
  | .toolchainUnknown => "no toolchain version given and none recorded in the config"
  | .noVersionDirs path => "no version directories found under " ++ path
  | .noneInCatalog => "none of the tracked versions appear in the version catalog"
  | .unknownVersion id => "unknown Minecraft version '" ++ id ++ "'"
  | .noMappings version side => version ++ " publishes no " ++ side ++ " mappings"
  | .memberMissing archive member => archive ++ " does not contain " ++ member
  | .invalidListLine list line => list ++ " line is invalid: '" ++ line ++ "'"
  | .versionCount list count =>
    list ++ " must hold exactly one entry, found " ++ toString count
  | .noAssetIndex => "version manifest does not name an asset index"
  | .unknownAssetsMode value => "unknown assets mode '" ++ value ++ "'"
  | .invalidJobs raw =>
    "REMOLD_DOWNLOAD_JOBS must be a positive integer (got '" ++ raw ++ "')"
  | .noHome => "unable to determine home directory"
  | .other text => text

/-- What else can go wrong: damaged data and refusals from outside. -/
inductive Fault where
  | io (error : IoError)
  | patchText (error : PatchTextError)
  | missingPatchHeader (path marker : String)
  | archive (fault : ArchiveFault)
  | damagedArchive
  | invalidUtf8
  | malformed (detail : String)
  | unsupportedAlgorithm (name : String)
  | missingAlgorithm (raw : String)
  | invalidDigest (digest algorithm : String)
  | unknownSide (value : String)
  | unsetVersion
  | missingVersion
  | notTable (name : String)
  | notStringField (table key : String)
  | invalidAssetHash (entry quoted : String)
  | badAssetHash (quoted : String)
  | notAbsolute (path : String)
  | cannotPersist (path : String) (error : IoError)
  | refusedOverwrite (path : String)
  | other (text : String)

/-- The wording of a fault. -/
def Fault.text : Fault → String
  | .io error => error.text
  | .patchText error => "error parsing patch: " ++ error.text
  | .missingPatchHeader path marker =>
    "malformed patch for " ++ path ++ ": missing '" ++ marker ++ "' line"
  | .archive fault => fault.text
  | .damagedArchive => "invalid Zip archive"
  | .invalidUtf8 => "invalid utf-8 sequence"
  | .malformed detail => detail
  | .unsupportedAlgorithm name => "unsupported hash algorithm '" ++ name ++ "'"
  | .missingAlgorithm raw => "hash '" ++ raw ++ "' is missing an algorithm prefix"
  | .invalidDigest digest algorithm =>
    "'" ++ digest ++ "' is not a valid " ++ algorithm ++ " digest"
  | .unknownSide value => "unknown side '" ++ value ++ "' (expected 'server' or 'client')"
  | .unsetVersion => "`minecraftVersion` must be set to a string"
  | .missingVersion => "`minecraftVersion` is missing"
  | .notTable name => "[" ++ name ++ "] must be a table"
  | .notStringField table key => "[" ++ table ++ "]." ++ key ++ " must be a string"
  | .invalidAssetHash entry quoted =>
    "asset index entry " ++ entry ++ " has invalid hash " ++ quoted
  | .badAssetHash quoted => "invalid asset hash " ++ quoted
  | .notAbsolute path => path ++ " is not an absolute path"
  | .cannotPersist path error => "unable to persist " ++ path ++ ": " ++ error.text
  | .refusedOverwrite path => "refusing to overwrite " ++ path
  | .other text => text

/-- What was under way when something failed. -/
inductive Step where
  | opening (path : String)
  | reading (path : String)
  | writing (path : String)
  | creating (path : String)
  | removing (path : String)
  | inspecting (path : String)
  | listing (path : String)
  | walking (path : String)
  | visiting (path : String) (error : IoError)
  | copying (source target : String)
  | copyingTo (path : String)
  | takingConfig (path : String)
  | readingPatch (path : String)
  | parsing (document : String)
  | openingArchive (path : String)
  | readingEntry (index : Nat) (archive : String)
  | readingMember (name archive : String)
  | findingMember (name archive : String)
  | extracting (name target : String)
  | decodingMember (name : String)
  | readingSidecar (url : String)
  | readingReleaseTime (raw id : String)
  | stagingIn (path : String)
  | starting (program : String)
  | note (text : String)

/-- The wording of a step. -/
def Step.text : Step → String
  | .opening path => "failed to open " ++ path
  | .reading path => "failed to read " ++ path
  | .writing path => "failed to write " ++ path
  | .creating path => "failed to create " ++ path
  | .removing path => "failed to remove " ++ path
  | .inspecting path => "failed to stat " ++ path
  | .listing path => "failed to list " ++ path
  | .walking path => "failed to walk " ++ path
  | .visiting path error => "IO error for operation on " ++ path ++ ": " ++ error.text
  | .copying source target => "failed to copy " ++ source ++ " to " ++ target
  | .copyingTo path => "failed to copy " ++ path
  | .takingConfig path => "invalid " ++ path
  | .readingPatch path => "malformed patch for " ++ path
  | .parsing document => "failed to parse " ++ document
  | .openingArchive path => path ++ " is not a valid zip archive"
  | .readingEntry index archive => "failed to read entry " ++ toString index ++ " of " ++ archive
  | .readingMember name archive => "failed to read " ++ name ++ " from " ++ archive
  | .findingMember name archive => archive ++ " does not contain " ++ name
  | .extracting name target => "failed to extract " ++ name ++ " to " ++ target
  | .decodingMember name => name ++ " is not UTF-8"
  | .readingSidecar url => url ++ " does not hold a sha256 digest"
  | .readingReleaseTime raw id => "invalid releaseTime '" ++ raw ++ "' for " ++ id
  | .stagingIn path => "failed to create temp file in " ++ path
  | .starting program => "failed to start " ++ program
  | .note text => text

/-- A cause below the steps that were under way. -/
inductive Failure where
  | unreachable (url reason : String)
  | mismatch (target expected found : String)
  | toolExit (tool : String) (status : Int) (log : String)
  | rejected (failed total : Nat) (rejects : String)
  | usage (problem : UsageProblem)
  | fault (fault : Fault)
  | during (step : Step) (cause : Failure)

/-- The kinds of causes that carry a code. -/
inductive FailureCode where
  | network
  | integrity
  | tool
  | patches
  | usage
deriving DecidableEq, Repr

/-- The code as it is shown. -/
def FailureCode.text : FailureCode → String
  | .network => "RM101"
  | .integrity => "RM201"
  | .tool => "RM301"
  | .patches => "RM401"
  | .usage => "RM501"

namespace Failure

/-- The code of the cause; faults have none. -/
def code? : Failure → Option FailureCode
  | .unreachable .. => some .network
  | .mismatch .. => some .integrity
  | .toolExit .. => some .tool
  | .rejected .. => some .patches
  | .usage _ => some .usage
  | .fault _ => none
  | .during _ cause => cause.code?

/-- The texts of the steps, outermost first, and then of the cause. -/
def chain : Failure → List String
  | .unreachable url reason =>
    ["[RM101] failed to fetch " ++ url ++ ": " ++ reason]
  | .mismatch target expected found =>
    ["[RM201] hash mismatch for " ++ target ++ " (expected " ++ expected ++ ", found " ++ found
      ++ ")"]
  | .toolExit tool status log =>
    ["[RM301] " ++ tool ++ " exited with status " ++ toString status ++ "; see " ++ log]
  | .rejected failed total rejects =>
    ["[RM401] " ++ toString failed ++ " of " ++ toString total ++
      " patched files failed to apply; rejects in " ++ rejects]
  | .usage problem => ["[RM501] " ++ problem.text]
  | .fault damage => [damage.text]
  | .during step cause => step.text :: cause.chain

/-- The whole chain in one line. -/
def message (failure : Failure) : String := ": ".intercalate failure.chain

/-- The outermost text. -/
def headline (failure : Failure) : String := failure.chain.headD ""

/-- A refusal of the file system while something was under way. -/
def io (step : Step) (error : IoError) : Failure := .during step (.fault (.io error))

end Failure

/-- What an operation gives: a value, or why there is none. -/
abbrev Outcome (α : Type) := Except Failure α

/-- Names the step that an operation belongs to. -/
def Outcome.during {α : Type} (step : Step) : Outcome α → Outcome α
  | .ok a => .ok a
  | .error e => .error (.during step e)

end Patchwork
