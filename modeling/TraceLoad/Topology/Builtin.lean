import TraceLoad.Topology

/-! # The built-in topology

The shape that traces have when no captured one is given: a request to the front end of a small
shop, with the calls that it causes.
-/

namespace TraceLoad.Topology

/-- The descriptors of the shop. -/
def shop : List Descriptor := [
  ⟨"1", "", "frontend"⟩,
  ⟨"2", "1", "adservice"⟩,
  ⟨"3", "1", "cartservice"⟩,
  ⟨"4", "3", "redis-cart"⟩,
  ⟨"5", "1", "checkoutservice"⟩,
  ⟨"6", "5", "cartservice"⟩,
  ⟨"7", "5", "productcatalogservice"⟩,
  ⟨"8", "5", "currencyservice"⟩,
  ⟨"9", "5", "shippingservice"⟩,
  ⟨"10", "5", "paymentservice"⟩,
  ⟨"11", "5", "emailservice"⟩,
  ⟨"12", "1", "recommendationservice"⟩,
  ⟨"13", "12", "productcatalogservice"⟩]

def builtin : Except TopologyError Topology := ofDescriptors shop

end TraceLoad.Topology
