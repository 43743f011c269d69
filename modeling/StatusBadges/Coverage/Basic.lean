import StatusBadges.Json.Document
/-!
# Coverage

A coverage percentage is measured, or estimated from the number of test blocks and of declarations
where it cannot be measured.
-/

namespace StatusBadges

/-- Where a percentage comes from. -/
inductive CoverageSource where
  /-- From a run of the instrumented tests. -/
  | measured
  | estimated
  deriving DecidableEq, Repr

def CoverageSource.text : CoverageSource → String
  | .measured => "measured"
  | .estimated => "estimated"

structure Coverage where
  percent : Binary64
  source : CoverageSource
  deriving DecidableEq, Repr

namespace Coverage

def percentText (percent : Binary64) : String := String.ofList (percent.fixed1 ++ ['%'])

def message (c : Coverage) : String := percentText c.percent

/-- The colour of a percentage on its badge. -/
def percentColor (percent : Binary64) : String :=
  if percent.atLeast 90 then "brightgreen"
  else if percent.atLeast 70 then "yellow"
  else "red"

def color (c : Coverage) : String := percentColor c.percent

def toJson (c : Coverage) : Json :=
  .object
    [("percent".toList, .ofBinary64 c.percent), ("source".toList, .ofString c.source.text)]

/-! ## Estimation -/

/-- What one test block for each declaration would cover. -/
def estimateScale : Nat := 85

/-- What an estimate never exceeds. -/
def estimateCap : Nat := 95

/-- The estimated percentage, in units: test blocks for each declaration on the scale, rounded after
each step, up to the cap. A project without declarations is not covered. -/
def estimateUnits (blocks declarations : Nat) : Nat :=
  if declarations = 0 then 0
  else
    let ratio := Binary64.unitsDiv (Binary64.unitsOfNat blocks) (Binary64.unitsOfNat declarations)
    min (Binary64.unitsMul ratio (estimateScale * Binary64.one)) (estimateCap * Binary64.one)

def estimate (blocks declarations : Nat) : Binary64 :=
  .finite false (estimateUnits blocks declarations)

end Coverage
end StatusBadges
