import Teach6809.Text.Blank
import Teach6809.Text.Numeral

/-!
# Settings

Two variables of the environment change how programs run: `SIM6809_TRACE` shows every instruction
as it is started, `SIM6809_MAX_STEPS` limits the length of a run.
-/

namespace Teach6809

/-- How programs are run. -/
structure Settings where
  trace : Bool
  maxSteps : Nat
deriving DecidableEq

namespace Settings

/-- A run takes a million instructions at most, and is not traced. -/
def default : Settings := ⟨false, 1000000⟩

/-- A positive number below 2^64, with an optional plus sign and white space around it. -/
def readLimit? (value : String) : Option Nat :=
  (Text.unsigned? 10 0x10000000000000000 (Text.trim value.toList)).filter (0 < ·)

/-- The settings of an environment. Only the value `1` turns the trace on; a limit that cannot be
read counts as missing. -/
def ofEnvironment (lookup : String → Option String) : Settings where
  trace := lookup "SIM6809_TRACE" == some "1"
  maxSteps := ((lookup "SIM6809_MAX_STEPS").bind readLimit?).getD default.maxSteps

end Settings
end Teach6809
