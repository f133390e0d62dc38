import ReliableNotifier.Library.Netip
import ReliableNotifier.Outbound.Headers

/-! # Sending a delivery

`Sender.Send` up to the dialer of its transport. The transport is foreign code: it may ask
the dialer for any addresses, in any number. What the sender does to the outside is kept
as a trace.
-/

namespace ReliableNotifier.Outbound

open Checked Netip

/-! ## Addresses -/

/-- `net.IP`. -/
abbrev IP := List UInt8

def forbiddenPrefixes : List Prefix :=
  [⟨.v4 (octets [0, 0, 0, 0]), 8⟩,
   ⟨.v4 (octets [100, 64, 0, 0]), 10⟩,
   ⟨.v4 (octets [192, 0, 0, 0]), 24⟩,
   ⟨.v4 (octets [192, 0, 2, 0]), 24⟩,
   ⟨.v4 (octets [192, 88, 99, 0]), 24⟩,
   ⟨.v4 (octets [192, 31, 196, 0]), 24⟩,
   ⟨.v4 (octets [192, 175, 48, 0]), 24⟩,
   ⟨.v4 (octets [198, 18, 0, 0]), 15⟩,
   ⟨.v4 (octets [198, 51, 100, 0]), 24⟩,
   ⟨.v4 (octets [203, 0, 113, 0]), 24⟩,
   ⟨.v4 (octets [240, 0, 0, 0]), 4⟩,
   ⟨.v6 (hextets [0x64, 0xff9b, 0, 0, 0, 0, 0, 0]), 96⟩,
   ⟨.v6 (hextets [0x64, 0xff9b, 1, 0, 0, 0, 0, 0]), 48⟩,
   ⟨.v6 (hextets [0x100, 0, 0, 0, 0, 0, 0, 0]), 64⟩,
   ⟨.v6 (hextets [0x2001, 0, 0, 0, 0, 0, 0, 0]), 23⟩,
   ⟨.v6 (hextets [0x2001, 0xdb8, 0, 0, 0, 0, 0, 0]), 32⟩,
   ⟨.v6 (hextets [0x2002, 0, 0, 0, 0, 0, 0, 0]), 16⟩,
   ⟨.v6 (hextets [0x2620, 0x4f, 0x8000, 0, 0, 0, 0, 0]), 48⟩,
   ⟨.v6 (hextets [0x3fff, 0, 0, 0, 0, 0, 0, 0]), 20⟩,
   ⟨.v6 (hextets [0x5f00, 0, 0, 0, 0, 0, 0, 0]), 16⟩]

def forbidden (address : IP) : Bool :=
  match addrFromSlice address with
  | none => true
  | some parsed =>
    let parsed := parsed.unmap
    if !parsed.isGlobalUnicast || parsed.isPrivate || parsed.isLoopback || parsed.isLinkLocalUnicast ||
        parsed.isMulticast || parsed.isUnspecified then true
    else forbiddenPrefixes.any fun p => p.contains parsed

/-! ## Targets -/

/-- `url.URL`, as far as it is looked at. -/
structure URL where
  scheme : String
  host : String
  user : Option String
  fragment : String
  text : String

/-- The parts before and behind the last such character. -/
def cutLast (c : Char) (s : List Char) : Option (List Char × List Char) :=
  match s.reverse.span (· ≠ c) with
  | (_, []) => none
  | (port, _ :: host) => some (host.reverse, port.reverse)

/-- `splitHostPort` of package `url`. -/
def URL.splitHostPort (url : URL) : List Char × List Char :=
  let (host, port) :=
    match cutLast ':' url.host.toList with
    | some (host, port) => if port.all fun c => '0' ≤ c && c ≤ '9' then (host, port) else (url.host.toList, [])
    | none => (url.host.toList, [])
  (if host.head? = some '[' && host.getLast? = some ']' then (host.drop 1).dropLast else host, port)

def URL.hostname (url : URL) : String := String.ofList url.splitHostPort.1

def URL.port (url : URL) : String := String.ofList url.splitHostPort.2

/-- `net.SplitHostPort`, without the texts of its errors. -/
def splitHostPort (address : String) : Option (String × String) := do
  let hostport := address.toList
  let (before, port) ← cutLast ':' hostport
  let close := (hostport.takeWhile (· ≠ ']')).length
  if hostport.head? = some '[' then
    if close + 1 = before.length && !(hostport.drop 1).contains '[' && !(hostport.drop (close + 1)).contains ']' then
      some (String.ofList ((hostport.take close).drop 1), String.ofList port)
    else none
  else if before.contains ':' || hostport.contains '[' || hostport.contains ']' then none
  else some (String.ofList before, String.ofList port)

/-- `net.JoinHostPort`. -/
def joinHostPort (host port : String) : String :=
  if host.toList.contains ':' then "[" ++ host ++ "]:" ++ port else host ++ ":" ++ port

/-! ## What lies outside -/

/-- An error from outside. -/
structure Fault where
  text : String
  isDeadlineExceeded : Bool

/-- The error of `Send`. -/
structure Failure extends SendError where
  text : String

def permanent (text : String) : Failure := ⟨⟨true, false⟩, text⟩

def Fault.wrap (fault : Fault) (text : String) : Failure :=
  ⟨⟨false, fault.isDeadlineExceeded⟩, text ++ ": " ++ fault.text⟩

/-- The request handed to `client.Do`, with the calls of `Header.Set` in their order. -/
structure Request where
  method : String
  url : String
  body : List UInt8
  headers : List (String × String)

/-- The library and the network. The transport asks the dialer for `dials request`, each with a network and an
address. -/
structure Outside where
  parseRequestURI : String → Option URL
  ipString : IP → String
  lookupIP : String → Except Fault (List IP)
  resolve : String → Except Fault String
  newRequest : String → String → Except Fault Unit
  dials : Request → List (String × String)
  perform : Request → Except Fault Result

inductive Event where
  | lookup (hostname : String)
  | resolve (reference : String)
  | dial (network requested address : String)
  | refuse (network requested : String)
  deriving DecidableEq

/-! ## The sender -/

structure Sender where
  testPolicy : Bool
  testHostname : String

def testNetworkPolicy : String := "test-only-supplier"

/-- `NewSender`. The file of the test authority is read and parsed by `trust`. -/
def newSender (hasSecrets testPolicy : Bool) (testCAFile : String) (trust : String → Except String Unit) :
    Except String Sender := do
  ensure hasSecrets "outbound sender requires a secret provider"
  if testPolicy then
    ensure (testCAFile ≠ "") "test-only TLS trust is unavailable"
    trust testCAFile
  return ⟨testPolicy, "fake-supplier.test"⟩

variable (tables : CaseTables) (order : RangeOrder) (outside : Outside)

def validateURL (rawURL : String) : Except String URL := do
  let target ← (outside.parseRequestURI rawURL).elim
    (.error "destination must be an absolute HTTPS URL without userinfo or fragment") .ok
  ensure (target.scheme = "https" && target.host ≠ "" && target.hostname ≠ "" && target.user = none &&
    target.fragment = "") "destination must be an absolute HTTPS URL without userinfo or fragment"
  ensure (target.port = "" || (parseInt target.port.toList).any fun port => 1 ≤ port && port ≤ 65535)
    "destination port is invalid"
  return target

namespace Sender

variable (sender : Sender)

def validatePolicy (hostname policy : String) : Except String Unit :=
  if policy = "public-internet" then .ok ()
  else if policy = testNetworkPolicy then
    ensure (sender.testPolicy && hostname = sender.testHostname) "test-only destination policy is unavailable"
  else .error "destination network policy is not supported"

def validateAddresses (policy : String) : List IP → Except String IP
  | [] => .error "destination DNS returned no addresses"
  | first :: rest =>
    if policy = testNetworkPolicy then .ok first
    else if (first :: rest).any forbidden then .error "destination resolved to a forbidden address"
    else .ok first

/-- The checks before anything is asked of the outside. -/
def check (task : Delivery) (destination : DestinationVersion) : Except Failure URL := do
  ensure (0 < destination.requestTimeout) (permanent "destination request timeout is invalid")
  let target ← (validateURL outside destination.url).mapError permanent
  ensure (isSupportedOutboundMethod task.method) (permanent "delivery method is not safe for configured outbound use")
  ensure (containsFold tables destination.allowedMethods task.method)
    (permanent "delivery method is not allowed by bound destination version")
  (validateStoredHeaders tables (order.range task.callerHeaders) destination).mapError permanent
  (sender.validatePolicy target.hostname destination.networkPolicy).mapError permanent
  return target

/-- The port that is dialed. -/
def dialedPort (target : URL) : String := if target.port = "" then "443" else target.port

/-- The `DialContext` of the transport. -/
def dialContext (target : URL) (validatedIP : IP) (request : String × String) : Event :=
  match splitHostPort request.2 with
  | none => .refuse request.1 request.2
  | some (host, port) =>
    if !tables.equalFold host target.hostname || port ≠ dialedPort target then .refuse request.1 request.2
    else .dial request.1 request.2 (joinHostPort (outside.ipString validatedIP) (dialedPort target))

def request (task : Delivery) (destination : DestinationVersion) (target : URL) (secret : String) : Request where
  method := task.method
  url := target.text
  body := task.body
  headers := order.range task.callerHeaders ++
    [(destination.idempotencyHeader, task.supplierIdempotencyValue), (destination.credentialHeader, secret)]

/-- The trace of `Send` and what it returns. -/
def send (task : Delivery) (destination : DestinationVersion) : List Event × Except Failure Result :=
  match sender.check tables order outside task destination with
  | .error err => ([], .error err)
  | .ok target =>
    match outside.lookupIP target.hostname with
    | .error fault => ([.lookup target.hostname], .error (fault.wrap "resolve registered destination"))
    | .ok addresses =>
      match validateAddresses destination.networkPolicy addresses with
      | .error text => ([.lookup target.hostname], .error (permanent text))
      | .ok validatedIP =>
        match outside.resolve destination.secretRef with
        | .error fault =>
          ([.lookup target.hostname, .resolve destination.secretRef],
            .error (fault.wrap "resolve destination credential"))
        | .ok secret =>
          match outside.newRequest task.method target.text with
          | .error fault =>
            ([.lookup target.hostname, .resolve destination.secretRef],
              .error (permanent ("build outbound request: " ++ fault.text)))
          | .ok _ =>
            let request := request order task destination target secret
            ([.lookup target.hostname, .resolve destination.secretRef] ++
              (outside.dials request).map (dialContext tables outside target validatedIP),
             (outside.perform request).mapError (·.wrap "perform outbound HTTPS request"))

end Sender

end ReliableNotifier.Outbound
