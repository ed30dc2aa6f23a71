import SceneLink.Caller.Reaction
import SceneLink.Host.Session

namespace SceneLink

-- A caller and a host that are joined by two lossless channels.
structure Exchange (H : Type) where
  caller : Caller H
  host : Host
  -- Batches on their way to the host, and to the caller.
  up : List String := []
  down : List String := []

namespace Exchange

variable {H N α : Type}

abbrev Turn (H N α : Type) := StateT (Exchange H) (Logged (Happening H N)) α

def onCaller (turn : Caller.Turn H N α) : Turn H N α := fun x => do
  let (a, caller) ← turn x.caller
  return (a, { x with caller })

def onHost (action : Host.Action α) : Turn H N (Except HostError α) := fun x => do
  let (result, host) ← (action x.host).mapOutput Happening.line
  return (result, { x with host })

-- What the ends handed to their transports enters the channels.
def ship (x : Exchange H) : Exchange H where
  caller := x.caller.collect.2
  host := x.host.collect.2
  up := x.up ++ x.caller.collect.1
  down := x.down ++ x.host.collect.1

-- The next batches arrive, as many as given.
def arriveAtHost : Nat → Turn H N Unit
  | 0 => return
  | count + 1 => do
    match (← get).up with
    | [] => return
    | raw :: rest => do
      modify fun x => { x with up := rest }
      let _ ← onHost (Host.receive raw)
      modify ship
      arriveAtHost count

def arriveAtCaller (run : Caller.Runner H N) : Nat → Turn H N Unit
  | 0 => return
  | count + 1 => do
    match (← get).down with
    | [] => return
    | raw :: rest => do
      modify fun x => { x with down := rest }
      onCaller (Caller.receive run raw)
      modify ship
      arriveAtCaller run count

-- Batches that travelled: towards the host, and towards the caller.
structure Traffic where
  up : List String := []
  down : List String := []

def Traffic.isEmpty (t : Traffic) : Bool := t.up.isEmpty && t.down.isEmpty

def Traffic.append (s t : Traffic) : Traffic := ⟨s.up ++ t.up, s.down ++ t.down⟩

-- The caller ticks, and all that is on its way then arrives.
def round (run : Caller.Runner H N) : Turn H N Traffic := do
  let _ ← onCaller (Caller.Turn.ofAction Caller.tick)
  modify ship
  let x ← get
  arriveAtHost x.up.length
  arriveAtCaller run x.down.length
  return ⟨x.up, x.down⟩

-- Rounds until nothing travels, but no more than the limit.
def settle (run : Caller.Runner H N) : Nat → Turn H N Traffic
  | 0 => return {}
  | limit + 1 => do
    let traffic ← round run
    if traffic.isEmpty then return traffic
    else return traffic.append (← settle run limit)

end Exchange

end SceneLink
