/-!
# Clocks

A clock is known by its readings to come.  When the last reading was taken the
clock stands still; a clock without readings stands at zero.
-/

namespace StackingPlanner

/-- The readings of a clock that are still to come, in seconds. -/
structure Clock where
  readings : List Float

namespace Clock

def still : Clock := ⟨[]⟩

def read (c : Clock) : Float × Clock :=
  match c.readings with
  | [] => (0, c)
  | [last] => (last, c)
  | next :: rest => (next, ⟨rest⟩)

/-- The milliseconds between the next two readings. -/
def span (c : Clock) : Float :=
  let (start, later) := c.read
  (later.read.1 - start) * 1000

end Clock

end StackingPlanner
