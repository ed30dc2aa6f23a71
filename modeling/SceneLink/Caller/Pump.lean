import SceneLink.Caller.Reaction

namespace SceneLink

inductive Wakeup where
  | batch (raw : String)
  | timer
  | closed

namespace Caller

variable {H N : Type}

def warnOnFailure (warning : CallerError → String) (action : Action H Unit) : Turn H N Unit := do
  match ← Turn.ofAction action with
  | .ok () => return
  | .error e => Turn.log (Log.warn (warning e))

-- Each inbound batch is one turn, and what its handlers sent is flushed together. A timer flushes
-- what was sent between the turns, and at the end all that is left is flushed.
def pump (run : Runner H N) : Wakeup → Turn H N Unit
  | .batch raw => do
    receive run raw
    warnOnFailure (fun e => s!"Flush after inbound batch failed: {e.message}") tick
  | .timer => warnOnFailure (fun e => s!"Scheduled flush failed: {e.message}") tick
  | .closed => do
    let _ ← Turn.ofAction flush

def pumpAll (run : Runner H N) : List Wakeup → Turn H N Unit
  | [] => return
  | wakeup :: wakeups => do
    pump run wakeup
    pumpAll run wakeups

end Caller

end SceneLink
