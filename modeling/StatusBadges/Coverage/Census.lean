import StatusBadges.Config
import StatusBadges.Coverage.Basic
import StatusBadges.Coverage.Declarations
import StatusBadges.TestSuite.Blocks
/-!
# Census of a project

The sources below the tests directory whose names begin with `t_` count test blocks. The sources
elsewhere count declarations unless their name mentions tests. Files that are no text count nothing.
-/

namespace StatusBadges

structure Census where
  testBlocks : Nat
  /-- Declarations in the other sources. -/
  declarations : Nat
  deriving DecidableEq, Repr

namespace Census

/-- What a source counts. -/
inductive Role where
  | test
  | source
  | neither
  deriving DecidableEq, Repr

/-- Whether a name mentions tests in any case. Only ASCII letters are the lower case letters of the
word or become them. -/
def mentionsTest (n : Name) : Bool := Text.occurs ['t', 'e', 's', 't'] (n.map Char.toLower)

/-- What a source counts, given whether it lies below the tests directory, and its name. -/
def role (inTests : Bool) (n : Name) : Role :=
  if inTests then if ['t', '_'].isPrefixOf n then .test else .neither
  else if mentionsTest n then .neither
  else .source

/-- What one source adds to the census. -/
def ofSource (d : Disk) (c : Config) (source : Path) : Census :=
  let p := c.root.join source
  match role (p.startsWith c.testsPath) (source.fileName?.getD []), d.readText p with
  | .test, .ok text => ⟨TestSuite.countBlocks text.toList, 0⟩
  | .source, .ok text => ⟨0, Coverage.countDeclarations text.toList⟩
  | _, _ => ⟨0, 0⟩

def add (a b : Census) : Census := ⟨a.testBlocks + b.testBlocks, a.declarations + b.declarations⟩

def ofProject (d : Disk) (c : Config) : Census :=
  ((Sources.nimFiles d c.root).map (ofSource d c)).foldr add ⟨0, 0⟩

end Census

/-- The coverage that the census of a project lets expect. -/
def Coverage.ofCensus (census : Census) : Coverage :=
  ⟨Coverage.estimate census.testBlocks census.declarations, .estimated⟩

end StatusBadges
