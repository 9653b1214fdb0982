namespace UserTcp

structure Address where
  first : UInt8
  second : UInt8
  third : UInt8
  fourth : UInt8
  deriving DecidableEq

structure Site where
  address : Address
  port : UInt16
  deriving DecidableEq

-- One direction of traffic between two sites.
structure Flow where
  source : Site
  destination : Site
  deriving DecidableEq

namespace Address

def octets (address : Address) : List UInt8 :=
  [address.first, address.second, address.third, address.fourth]

def render (address : Address) : String :=
  String.intercalate "." (address.octets.map fun octet => toString octet.toNat)

end Address

def Site.render (site : Site) : String :=
  site.address.render ++ ":" ++ toString site.port.toNat

namespace Flow

-- The direction of the answers.
def reverse (flow : Flow) : Flow where
  source := flow.destination
  destination := flow.source

def render (flow : Flow) : String :=
  flow.source.render ++ " → " ++ flow.destination.render

@[simp] theorem reverse_reverse (flow : Flow) : flow.reverse.reverse = flow := rfl

end Flow

end UserTcp
