import StatusBadges.Sources
/-!
# Test blocks

A test block is a line that begins with `block:`, without any indentation.
-/

namespace StatusBadges.TestSuite

/-- Counts the test blocks of a text from a point on that is or is not at the start of a line. -/
def countBlocksFrom : (atStart : Bool) → List Char → Nat
  | _, [] => 0
  | atStart, c :: rest =>
    (if atStart && (Text.after? ['b', 'l', 'o', 'c', 'k', ':'] (c :: rest)).isSome then 1 else 0) +
      countBlocksFrom (c = '\n') rest

def countBlocks (source : List Char) : Nat := countBlocksFrom true source

/-- The number of test blocks in the test files of a directory. Files that are no text count
none. -/
def countSuiteBlocks (d : Disk) (testsDir : Path) : Nat :=
  ((Sources.testFiles d testsDir).map fun p =>
    match d.readText p with
    | .ok text => countBlocks text.toList
    | .error _ => 0).foldr (· + ·) 0

end StatusBadges.TestSuite
