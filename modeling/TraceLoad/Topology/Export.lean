import TraceLoad.Json.Reader
import TraceLoad.Topology

/-! # Captured traces

A topology can be taken from a captured export: a record whose `data` lists traces, each with its
spans and a table from process to service. A span's first reference names its parent, and its
service is that of its process in the table of its own trace. Everything else in the export is
passed over.
-/

namespace TraceLoad

open Json (Reader)

/-- A captured span. -/
structure CapturedSpan where
  id : String
  /-- the spans it refers to; the first one is its parent -/
  references : List String
  process : String
deriving DecidableEq

/-- A captured trace: its spans, and the service of each process, a later entry of one process
before an earlier one. -/
structure CapturedTrace where
  spans : List CapturedSpan
  services : List (String × String)
deriving DecidableEq

/-- A captured export. -/
structure Capture where
  traces : List CapturedTrace
deriving DecidableEq

/-- Why no topology comes of an export. -/
inductive CaptureError where
  | parse (fault : Json.Fault)
  | topology (error : TopologyError)
deriving DecidableEq

/-- Any other field of a record is passed over. -/
def Json.Reader.ignored {σ : Type} (s : σ) : Except Json.Fault (Reader σ) :=
  .ok ((fun _ => s) <$> Reader.skip)

/-- A record with one text under a name, or a list of that text alone. -/
def Json.Reader.singleText (name : String) (room : Nat) : Reader String :=
  Reader.structureOf room (Reader.element true Reader.text) do
    let found ← Reader.members
      (fun (s : Option String) k =>
        if k = name then Reader.once s Reader.text some else Reader.ignored s) none
    Reader.require found

namespace CapturedSpan

/-- The fields of a captured span that have been read so far. -/
structure Fields where
  id : Option String := none
  references : Option (List String) := none
  process : Option String := none

/-- The ids that a span refers to. -/
def referencesReader (room : Nat) : Reader (List String) :=
  Reader.listOf room (Reader.singleText "spanID" (room - 1))

def Fields.field (room : Nat) (f : Fields) (name : String) : Except Json.Fault (Reader Fields) :=
  if name = "spanID" then Reader.once f.id Reader.text fun x => { f with id := some x }
  else if name = "references" then
    Reader.once f.references (referencesReader room) fun x => { f with references := some x }
  else if name = "processID" then
    Reader.once f.process Reader.text fun x => { f with process := some x }
  else Reader.ignored f

/-- The references may be missing. -/
def Fields.toSpan? (f : Fields) : Option CapturedSpan := do
  pure ⟨← f.id, f.references.getD [], ← f.process⟩

def reader (room : Nat) : Reader CapturedSpan :=
  Reader.structureOf room
    (do
      let id ← Reader.element true Reader.text
      let references ←
        if ← Reader.another false then referencesReader (room - 1) else pure []
      let process ← Reader.element false Reader.text
      pure ⟨id, references, process⟩)
    (do
      let f ← Reader.members (Fields.field (room - 1)) {}
      Reader.require f.toSpan?)

/-- The id of the parent; empty if the span refers to none. -/
def parent (s : CapturedSpan) : String := s.references.head?.getD ""

end CapturedSpan

namespace CapturedTrace

/-- The fields of a captured trace that have been read so far. -/
structure Fields where
  spans : Option (List CapturedSpan) := none
  services : Option (List (String × String)) := none

def spansReader (room : Nat) : Reader (List CapturedSpan) :=
  Reader.listOf room (CapturedSpan.reader (room - 1))

/-- The table of processes; each entry goes in front of those read before it. -/
def servicesReader (room : Nat) : Reader (List (String × String)) :=
  Reader.recordOf room
    (fun table process =>
      .ok ((fun service => (process, service) :: table) <$>
        Reader.singleText "serviceName" (room - 1))) []

def Fields.field (room : Nat) (f : Fields) (name : String) : Except Json.Fault (Reader Fields) :=
  if name = "spans" then
    Reader.once f.spans (spansReader room) fun x => { f with spans := some x }
  else if name = "processes" then
    Reader.once f.services (servicesReader room) fun x => { f with services := some x }
  else Reader.ignored f

def Fields.toTrace? (f : Fields) : Option CapturedTrace := do
  pure ⟨← f.spans, ← f.services⟩

def reader (room : Nat) : Reader CapturedTrace :=
  Reader.structureOf room
    (do
      let spans ← Reader.element true (spansReader (room - 1))
      let services ← Reader.element false (servicesReader (room - 1))
      pure ⟨spans, services⟩)
    (do
      let f ← Reader.members (Fields.field (room - 1)) {}
      Reader.require f.toTrace?)

/-- The service of a process. -/
def service? (t : CapturedTrace) (process : String) : Option String :=
  (t.services.find? fun e => e.1 = process).map (·.2)

/-- The descriptor that a span of the trace becomes. -/
def descriptor (t : CapturedTrace) (s : CapturedSpan) : Except TopologyError Descriptor :=
  match t.service? s.process with
  | some service => .ok ⟨s.id, s.parent, service⟩
  | none => .error (.unknownProcess s.id s.process)

end CapturedTrace

namespace Capture

def tracesReader (room : Nat) : Reader (List CapturedTrace) :=
  Reader.listOf room (CapturedTrace.reader (room - 1))

def reader (room : Nat) : Reader Capture :=
  Reader.structureOf room
    (Capture.mk <$> Reader.element true (tracesReader (room - 1)))
    (do
      let found ← Reader.members
        (fun (s : Option (List CapturedTrace)) name =>
          if name = "data" then Reader.once s (tracesReader (room - 1)) some
          else Reader.ignored s) none
      Capture.mk <$> Reader.require found)

/-- Reads an export. -/
def read (bytes : List UInt8) : Except Json.Fault Capture :=
  Json.document (reader Json.maxNesting) bytes

/-- The spans of all traces in their order, each with the trace it belongs to. -/
def spans (c : Capture) : List (CapturedTrace × CapturedSpan) :=
  c.traces.flatMap fun t => t.spans.map fun s => (t, s)

/-- The descriptors of all spans, unless one of them has a process that its trace does not
list. -/
def descriptors (c : Capture) : Except TopologyError (List Descriptor) :=
  c.spans.mapM fun (t, s) => t.descriptor s

/-- The topology of an export. -/
def topology (c : Capture) : Except TopologyError Topology := do
  Topology.ofDescriptors (← c.descriptors)

end Capture

/-- The topology of an export's text. -/
def Topology.ofExport (bytes : List UInt8) : Except CaptureError Topology :=
  match Capture.read bytes with
  | .error f => .error (.parse f)
  | .ok c =>
    match c.topology with
    | .error e => .error (.topology e)
    | .ok t => .ok t

end TraceLoad
