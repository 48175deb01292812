import Mathlib.Data.List.Basic

/-
  The accesses that recall records: a buffer of ids that is
  drained, each id once, when it has grown long enough.

  Main declarations:
    * `AccessTracker`
    * `AccessTracker.record`, `drainIfFull`, `drain`
-/

namespace Ferrex

namespace Core

/-
  The ids that were recalled and are still to be written.
-/
structure AccessTracker where
  buffer : List String
  flushThreshold : Nat
deriving DecidableEq

namespace AccessTracker

/- How many ids are written at once. -/
def defaultFlushThreshold : Nat := 50

def new : AccessTracker where
  buffer := []
  flushThreshold := defaultFlushThreshold

/-
  Every id of an answer is recorded, again if it is there.
-/
def record
    (tracker : AccessTracker)
    (ids : List String) : AccessTracker :=
  { tracker with buffer := tracker.buffer ++ ids }

/- All recorded ids in the order of their first record. -/
def drain
    (tracker : AccessTracker) : List String × AccessTracker :=
  (tracker.buffer.eraseDups, { tracker with buffer := [] })

/- The buffer is taken once it has reached the threshold. -/
def drainIfFull
    (tracker : AccessTracker) :
    Option (List String) × AccessTracker :=
  if tracker.buffer.length < tracker.flushThreshold then
    (none, tracker)
  else
    (some tracker.drain.1, tracker.drain.2)

end AccessTracker

end Core

end Ferrex
