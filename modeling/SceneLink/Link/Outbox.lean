import SceneLink.Link.Procedure
import SceneLink.Operation.Batch

namespace SceneLink

structure TransportError where
  reason : String
deriving DecidableEq

def TransportError.message (e : TransportError) : String := s!"transport failed: {e.reason}"

-- Where batches go. A transport with a fault refuses them for that reason.
structure Transport where
  -- Marks the batches that go through this transport.
  mark : String := ""
  fault : Option String := none
deriving DecidableEq

-- A batch that was handed to a transport: its encoded operations, and whether the transport
-- accepted it.
structure Handover where
  mark : String
  operations : List String
  accepted : Bool
deriving DecidableEq

def Handover.text (h : Handover) : String := h.mark ++ Batch.join h.operations

-- Until the far end has started every operation is sent at once; from then on a send only schedules
-- a flush, and the next tick hands over all that was sent since the last one as one batch. A batch
-- that the transport refuses is lost.
structure Outbox where
  pending : List String := []
  started : Bool := false
  scheduled : Bool := false
  logWire : Bool := false
  transport : Transport := {}
  -- All that was handed over and not yet collected, in order.
  handed : List Handover := []

namespace Outbox

def size (o : Outbox) : Nat := o.pending.length

def setStarted (o : Outbox) (started : Bool) : Outbox := { o with started := started }

def setTransport (o : Outbox) (transport : Transport) : Outbox := { o with transport := transport }

-- From now on the transport refuses batches for the reason given, or accepts them again.
def setFault (o : Outbox) (fault : Option String) : Outbox :=
  o.setTransport { o.transport with fault := fault }

def delivered (o : Outbox) : List String :=
  (o.handed.filter (·.accepted)).map Handover.text

-- Takes the batches off the outbox.
def collect (o : Outbox) : List String × Outbox := (o.delivered, { o with handed := [] })

def push (o : Outbox) (op : Operation) : Outbox := { o with pending := o.pending ++ [op.text] }

-- What is pending, handed over as one batch.
def handover (o : Outbox) : Handover :=
  { mark := o.transport.mark, operations := o.pending, accepted := o.transport.fault.isNone }

def flushed (o : Outbox) : Outbox :=
  if o.pending = [] then { o with scheduled := false }
  else { o with scheduled := false, pending := [], handed := o.handed ++ [o.handover] }

def refusal? (o : Outbox) : Option TransportError :=
  if o.pending = [] then none else o.transport.fault.map TransportError.mk

def flushLog (o : Outbox) : List Log.Line :=
  (if o.pending ≠ [] ∧ o.logWire then [⟨.trace, s!"-> {Batch.join o.pending}"⟩] else [])
    ++ (match o.refusal? with
      | some e => [⟨.error, s!"Dropped batch of {o.size} operation(s): {e.message}"⟩]
      | none => [])

def flush : Procedure Outbox TransportError Unit := fun o =>
  let result := match o.refusal? with
    | some e => .error e
    | none => .ok ()
  ⟨(result, o.flushed), o.flushLog⟩

def tick : Procedure Outbox TransportError Unit := fun o =>
  if o.scheduled then flush o else ⟨(.ok (), o), []⟩

def send (op : Operation) : Procedure Outbox TransportError Unit := fun o =>
  let o := o.push op
  if o.started then ⟨(.ok (), { o with scheduled := true }), []⟩ else flush o

end Outbox

end SceneLink
