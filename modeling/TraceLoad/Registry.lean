import TraceLoad.Topology

/-! # Services and their tracers

Every service that takes part in a trace is bound to a tracer, which starts spans in the service's
name. The registry is made once, before anything runs, and remembers the order of the names.
-/

namespace TraceLoad

/-- What starts and ends the spans of one service. -/
structure Tracer where
  service : String
deriving DecidableEq, Repr

/-- Services in order, each bound to one tracer. -/
structure Registry where
  bindings : List (String × Tracer)
deriving DecidableEq

namespace Registry

/-- The names without repetitions, in the order of their first occurrence, given those that are
not to occur any more. -/
def distinct (seen : List String) : List String → List String
  | [] => []
  | n :: ns => if n ∈ seen then distinct seen ns else n :: distinct (n :: seen) ns

/-- Binds every name to the tracer that `make` gives for it; a repeated name is bound once. -/
def ofNames (make : String → Tracer) (names : List String) : Registry :=
  ⟨(distinct [] names).map fun n => (n, make n)⟩

def names (r : Registry) : List String := r.bindings.map (·.1)

def size (r : Registry) : Nat := r.bindings.length

/-- The tracer of a service. -/
def tracer? (r : Registry) (service : String) : Option Tracer :=
  (r.bindings.find? fun b => b.1 = service).map (·.2)

/-- Refuses a topology that needs a service without a tracer. -/
def ensureCovers (r : Registry) (t : Topology) : Except TopologyError Unit :=
  t.ensureKnown fun service => (r.tracer? service).isSome

/-- The services of the built-in topology and of most captured ones. -/
def defaultServices : List String := [
  "frontend",
  "adservice",
  "cartservice",
  "checkoutservice",
  "currencyservice",
  "emailservice",
  "paymentservice",
  "productcatalogservice",
  "recommendationservice",
  "shippingservice",
  "loadgenerator",
  "redis-cart"]

end Registry

end TraceLoad
