import SceneLink.Json.Draft
import SceneLink.Json.Printer
import SceneLink.Motion.Ease

namespace SceneLink

structure CallerSettings where
  -- Milliseconds between the ticks of the pump.
  flushInterval : Nat := 16
  -- Treat the host as started from the beginning.
  startImmediate : Bool := false
  -- Log every batch sent and received.
  logWire : Bool := false

structure HostSettings where
  -- Warn about operations on unknown objects.
  reportUnknownObjects : Bool := true
  -- Tell the caller at once that the host has started.
  announceOnAttach : Bool := true
  -- For animations that name no curve.
  defaultEase : Ease := .linear
  logWire : Bool := false

namespace CallerSettings

def names : List String := ["flush_interval_ms", "start_immediate", "log_wire"]

def ofFields? (fields : Json.Fields) : Option CallerSettings := do
  let defaults : CallerSettings := {}
  let flushInterval ← fields.withDefault "flush_interval_ms" defaults.flushInterval Json.nat?
  let startImmediate ← fields.withDefault "start_immediate" defaults.startImmediate Json.bool?
  let logWire ← fields.withDefault "log_wire" defaults.logWire Json.bool?
  return { flushInterval, startImmediate, logWire }

def ofJson? (json : Json) : Option CallerSettings := (json.record? names).bind ofFields?

def parse? (text : String) : Option CallerSettings :=
  (Json.recordOfText? names text).bind ofFields?

def fields (s : CallerSettings) : List (String × Json) :=
  [("flush_interval_ms", Json.ofNat s.flushInterval), ("start_immediate", .bool s.startImmediate),
    ("log_wire", .bool s.logWire)]

def text (s : CallerSettings) : String :=
  String.ofList ('{' :: Json.renderFields s.fields ++ ['}'])

end CallerSettings

namespace HostSettings

def names : List String :=
  ["report_unknown_objects", "send_started_on_attach", "default_animation_ease", "log_wire"]

def ofFields? (fields : Json.Fields) : Option HostSettings := do
  let defaults : HostSettings := {}
  let reportUnknownObjects ←
    fields.withDefault "report_unknown_objects" defaults.reportUnknownObjects Json.bool?
  let announceOnAttach ←
    fields.withDefault "send_started_on_attach" defaults.announceOnAttach Json.bool?
  let defaultEase ← fields.withDefault "default_animation_ease" defaults.defaultEase Ease.ofJson?
  let logWire ← fields.withDefault "log_wire" defaults.logWire Json.bool?
  return { reportUnknownObjects, announceOnAttach, defaultEase, logWire }

def ofJson? (json : Json) : Option HostSettings := (json.record? names).bind ofFields?

def parse? (text : String) : Option HostSettings :=
  (Json.recordOfText? names text).bind ofFields?

def fields (s : HostSettings) : List (String × Json) :=
  [("report_unknown_objects", .bool s.reportUnknownObjects),
    ("send_started_on_attach", .bool s.announceOnAttach),
    ("default_animation_ease", s.defaultEase.toJson), ("log_wire", .bool s.logWire)]

def text (s : HostSettings) : String :=
  String.ofList ('{' :: Json.renderFields s.fields ++ ['}'])

end HostSettings

end SceneLink
