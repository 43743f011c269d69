import StatusBadges.Badge
import StatusBadges.Text.Search
/-!
# Badge links in a README

A README shows a badge by a link `[![Category](image)](target)`. Updating puts a fresh link in place
of the first one of each category and leaves all else as it is. The text of a link is read up to
the first closing bracket and opening parenthesis on its line, and from there up to the first
closing parenthesis, which may stand on a later line.
-/

namespace StatusBadges.Readme

/-! ## Categories -/

/-- What a badge link is about. -/
inductive Category where
  | build
  | coverage
  | tests
  | version
  deriving DecidableEq, Repr

namespace Category

/-- The categories in the order in which their links are updated. -/
def all : List Category := [.build, .coverage, .tests, .version]

/-- The text by which a link shows its category. -/
def label : Category → String
  | .build => "Build Status"
  | .coverage => "Test Coverage"
  | .tests => "Tests"
  | .version => "Version"

def url : Category → BadgeSet → String
  | .build, b => b.build
  | .coverage, b => b.coverage
  | .tests, b => b.tests
  | .version, b => b.version

end Category

/-! ## Links -/

def opening (label : List Char) : List Char := ['[', '!', '['] ++ label ++ [']']

def link (label url : List Char) : List Char :=
  opening label ++ ['('] ++ url ++ [')', ']', '(', '#', ')']

/-- What follows the first closing bracket with an opening parenthesis behind it, on the first
line. -/
def afterBracket? : List Char → Option (List Char)
  | ']' :: '(' :: rest => some rest
  | '\n' :: _ => none
  | _ :: rest => afterBracket? rest
  | [] => none

def afterParenthesis? : List Char → Option (List Char)
  | ')' :: rest => some rest
  | _ :: rest => afterParenthesis? rest
  | [] => none

/-- What follows a link of a category at the front of a text. -/
def afterLink? (label s : List Char) : Option (List Char) :=
  ((Text.after? (opening label) s).bind afterBracket?).bind afterParenthesis?

/-- A text with a fresh link in place of the first one with its label. -/
def replaceLink (label url : List Char) : List Char → List Char
  | [] => []
  | c :: rest =>
    match afterLink? label (c :: rest) with
    | some after => link label url ++ after
    | none => c :: replaceLink label url rest

/-- A text with the link of one category updated. -/
def updateCategory (badges : BadgeSet) (content : List Char) (k : Category) : List Char :=
  replaceLink k.label.toList (k.url badges).toList content

/-- A README with the links of all categories updated, one category after the other. -/
def update (content : String) (badges : BadgeSet) : String :=
  String.ofList (Category.all.foldl (updateCategory badges) content.toList)

end StatusBadges.Readme
