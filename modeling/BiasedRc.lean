import BiasedRc.Boxing
import BiasedRc.Collecting
import BiasedRc.Constructing
import BiasedRc.CopyOnWrite
import BiasedRc.Decrements
import BiasedRc.DestructorCalls
import BiasedRc.DestructorRuns
import BiasedRc.Destructors
import BiasedRc.Draining
import BiasedRc.FastPath
import BiasedRc.Finishing
import BiasedRc.HandOff
import BiasedRc.Layout
import BiasedRc.Lib.Outcome
import BiasedRc.Lib.Tally
import BiasedRc.Lib.Transition
import BiasedRc.Memory
import BiasedRc.MergeRace
import BiasedRc.Overflow
import BiasedRc.QueueRace
import BiasedRc.RcRefinement
import BiasedRc.Registry
import BiasedRc.ReportedCounts
import BiasedRc.Safety
import BiasedRc.StrongCount
import BiasedRc.Uninterrupted
import BiasedRc.UniqueRace
import BiasedRc.Unwrapping
import BiasedRc.UpgradeRace
import BiasedRc.WeakCounts
