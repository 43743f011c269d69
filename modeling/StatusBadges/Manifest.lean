import StatusBadges.Storage.Search
import StatusBadges.Text.Blank
/-!
# Package manifests

A project directory holds a manifest, a file that ends in `.nimble`. The version of the project is
the value of the first assignment `version = "value"` in it, wherever that stands.
-/

namespace StatusBadges.Manifest

/-- The version of a project that states none. -/
def defaultVersion : String := "0.1.0"

def isManifestName (n : Name) : Bool := ['.', 'n', 'i', 'm', 'b', 'l', 'e'].isSuffixOf n

/-- The manifest of a project: the first of them in its directory. -/
def find? (d : Disk) (root : Path) : Option Path := (d.filesIn root isManifestName).head?

/-! ## The version -/

/-- The value that is assigned to `version` by the beginning of a text: the word, an equals sign
and a non-empty text in double quotes, with white space between them at will. -/
def assignedVersion? (s : List Char) : Option (List Char) := do
  let s ← Text.after? ['v', 'e', 'r', 's', 'i', 'o', 'n'] s
  let s ← Text.after? ['='] (s.dropWhile Text.isBlank)
  let s ← Text.after? ['"'] (s.dropWhile Text.isBlank)
  let value := s.takeWhile (· != '"')
  if value.isEmpty || (s.dropWhile (· != '"')).isEmpty then none else some value

/-- The value of the first assignment to `version` in a text. -/
def version? : List Char → Option (List Char)
  | [] => none
  | c :: rest =>
    match assignedVersion? (c :: rest) with
    | some value => some value
    | none => version? rest

/-- The version of a project. A project has the default version when it has no manifest, when that
is no text, and when it assigns no version. -/
def projectVersion (d : Disk) (root : Path) : String :=
  match find? d root with
  | none => defaultVersion
  | some manifest =>
    match d.readText manifest with
    | .error _ => defaultVersion
    | .ok text =>
      match version? text.toList with
      | none => defaultVersion
      | some value => String.ofList value

end StatusBadges.Manifest
