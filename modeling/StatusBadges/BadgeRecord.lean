import StatusBadges.Badge
import StatusBadges.Json.Document
import StatusBadges.Json.Record
/-!
# The badge record

The badges of a run are recorded as a JSON document with the time of the run. `encode` writes the
document and `decode?` reads it.
-/

namespace StatusBadges

def BadgeSet.toJson (b : BadgeSet) : Json :=
  .object (b.toList.map fun (name, url) => (name.toList, .ofString url))

/-- The badges of a run and when it was. -/
structure BadgeRecord where
  generatedAt : String
  badges : BadgeSet
  deriving DecidableEq, Repr

namespace BadgeRecord

/-! ## Writing -/

def toJson (r : BadgeRecord) : Json :=
  .object [("generated_at".toList, .ofString r.generatedAt), ("badges".toList, r.badges.toJson)]

def encode (r : BadgeRecord) : String := String.ofList r.toJson.pretty

/-! ## Reading -/

/-- Reads a set of badges. Each of them must be there. -/
def readBadges : Json.Reader BadgeSet := fun s => do
  let shape : Json.Shape (List Char) :=
    [("version".toList, Json.readString), ("build".toList, Json.readString),
     ("tests".toList, Json.readString), ("coverage".toList, Json.readString)]
  let (fields, rest) ← Json.readRecord shape s
  let version ← fields.lookup "version".toList
  let build ← fields.lookup "build".toList
  let tests ← fields.lookup "tests".toList
  let coverage ← fields.lookup "coverage".toList
  return (⟨String.ofList version, String.ofList build, String.ofList tests,
    String.ofList coverage⟩, rest)

inductive Field where
  | time (text : List Char)
  | badges (b : BadgeSet)

/-- Reads a record. The time and the badges must be there. -/
def read : Json.Reader BadgeRecord := fun s => do
  let shape : Json.Shape Field :=
    [("generated_at".toList, fun s => (Json.readString s).map fun (t, rest) => (.time t, rest)),
     ("badges".toList, fun s => (readBadges s).map fun (b, rest) => (.badges b, rest))]
  let (fields, rest) ← Json.readRecord shape s
  match fields.lookup "generated_at".toList, fields.lookup "badges".toList with
  | some (.time t), some (.badges b) => some (⟨String.ofList t, b⟩, rest)
  | _, _ => none

/-- The record that a text holds. -/
def decode? (text : String) : Option BadgeRecord := Json.readAll? read text.toList

end BadgeRecord
end StatusBadges
