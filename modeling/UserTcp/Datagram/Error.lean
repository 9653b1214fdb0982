namespace UserTcp

inductive Ipv4Error where
  | tooShort (required available : Nat)
  | version (found : Nat)
  | headerLength (words : Nat)
  deriving DecidableEq

inductive TcpError where
  | tooShort (required available : Nat)
  | headerLength (words : Nat)
  deriving DecidableEq

-- Why there is no datagram for a segment, or no segment in a datagram.
inductive DatagramError where
  | ipv4 (error : Ipv4Error)
  | notTcp (protocol : UInt8)
  | tcp (error : TcpError)
  | tooLong (length limit : Nat)
  deriving DecidableEq

def shortHeaderMessage (layer header : String) (required available : Nat) : String :=
  layer ++ " Header Error: Not enough data to decode '" ++ header ++ "'. " ++
    toString required ++ " byte(s) would be required, but only " ++ toString available ++
    " byte(s) are available based on the slice length."

def Ipv4Error.message : Ipv4Error → String
  | .tooShort required available => shortHeaderMessage "IPv4" "IPv4 header" required available
  | .version found =>
      "IPv4 Header Error: Encountered '" ++ toString found ++
        "' as IP version number in the IPv4 header (must be '4' in an IPv4 header)."
  | .headerLength words =>
      "IPv4 Header Error: The 'internet header length' value '" ++ toString words ++
        "' present in the IPv4 header is smaller than the minimum size of an IPv4 header. " ++
        "The minimum allowed value is '5'."

def TcpError.message : TcpError → String
  | .tooShort required available => shortHeaderMessage "TCP" "TCP header" required available
  | .headerLength words =>
      "TCP Header Error: 'data offset' too small (" ++ toString words ++
        "). The 'data offset' must be at least 5 so the data is not overlapping with the " ++
        "TCP header itself."

def DatagramError.message : DatagramError → String
  | .ipv4 error => "malformed IPv4 header: " ++ error.message
  | .notTcp protocol =>
      "datagram carries IP protocol " ++ toString protocol.toNat ++ ", not TCP"
  | .tcp error => "malformed TCP header: " ++ error.message
  | .tooLong length limit =>
      "failed to build datagram: Error '" ++ toString length ++
        "' is too big to be a 'IPv4 Header 'Payload Length' (sets 'Total Length')' " ++
        "(maximum allowed value is '" ++ toString limit ++ "')"

end UserTcp
