import StatusBadges.Text.Search
/-!
# Badges

A badge is an image that a badge service draws from a URL. The URL names a label, a message and a
colour, separated by dashes. In the label and the message a percent sign and a space are escaped;
`unescape` takes the escapes back.
-/

namespace StatusBadges

namespace Badge

/-! ## Escaping -/

/-- One character of a label or message in a URL. -/
def escapeChar (c : Char) : List Char :=
  if c = '%' then ['%', '2', '5'] else if c = ' ' then ['%', '2', '0'] else [c]

def escape (s : List Char) : List Char := s.flatMap escapeChar

/-- An escaped text with its escapes taken back from left to right. -/
def unescape : List Char → List Char
  | '%' :: '2' :: '5' :: rest => '%' :: unescape rest
  | '%' :: '2' :: '0' :: rest => ' ' :: unescape rest
  | c :: rest => c :: unescape rest
  | [] => []

/-! ## URLs -/

/-- Where the service answers. -/
def service : String := "https://img.shields.io/badge/"

/-- The URL of a badge. The colour is one of the service's names for colours and needs no escape. -/
def url (label message color : String) : String :=
  service ++ String.ofList (escape label.toList) ++ "-" ++ String.ofList (escape message.toList) ++
    "-" ++ color ++ ".svg"

end Badge

/-- The URLs of the four badges of a project. -/
structure BadgeSet where
  version : String
  build : String
  tests : String
  coverage : String
  deriving DecidableEq, Repr

/-- The badges with their names, in the order in which they are shown. -/
def BadgeSet.toList (b : BadgeSet) : List (String × String) :=
  [("version", b.version), ("build", b.build), ("tests", b.tests), ("coverage", b.coverage)]

end StatusBadges
