import ReliableNotifier.Api.Headers

/-! # The headers a sender checks again

`validateStoredHeaders` looks at the headers of a stored delivery and at the two names that
the sender adds itself.
-/

namespace ReliableNotifier.Outbound

open Checked

variable (tables : CaseTables)

def validInjectedHeader (name : String) : Bool :=
  let canonical := tables.lower (trimmed name)
  canonical ≠ "" && !containsAny canonical " \t\r\n:" &&
  !(["host", "connection", "keep-alive", "proxy-authenticate", "te", "trailer", "transfer-encoding", "upgrade",
    "cookie", "set-cookie", "content-length"].contains canonical)

def protectedHeaders (destination : DestinationVersion) : List String :=
  ["authorization", "proxy-authorization", "host", "connection", "keep-alive", "proxy-authenticate", "te", "trailer",
   "transfer-encoding", "upgrade", "cookie", "set-cookie", "content-length",
   tables.lower destination.idempotencyHeader, tables.lower destination.credentialHeader]

def allowedHeaderNames (destination : DestinationVersion) : List String :=
  (elements destination.allowedHeaders).map fun name => tables.lower (trimmed name)

/-- The loop over the stored headers, with the names met so far. -/
def validateEntries (destination : DestinationVersion) (seen : List String) :
    List (String × String) → Except String Unit
  | [] => .ok ()
  | (name, value) :: rest => do
    let canonical := tables.lower (trimmed name)
    ensure (canonical ≠ "" && !containsAny canonical " \t\r\n:" && !containsAny value "\r\n")
      "stored delivery contains an invalid Header"
    ensure (!seen.contains canonical) "stored delivery contains a case-insensitive duplicate Header"
    ensure (!(protectedHeaders tables destination).contains canonical) "stored delivery contains a protected Header"
    ensure ((allowedHeaderNames tables destination).contains canonical)
      "stored delivery contains a non-allowlisted Header"
    validateEntries destination (canonical :: seen) rest

/-- The destination names two different headers that may be added. -/
def validInjection (destination : DestinationVersion) : Bool :=
  validInjectedHeader tables destination.credentialHeader && validInjectedHeader tables destination.idempotencyHeader &&
  !tables.equalFold destination.credentialHeader destination.idempotencyHeader

def validateStoredHeaders (headers : List (String × String)) (destination : DestinationVersion) :
    Except String Unit := do
  ensure (validInjection tables destination) "destination injection Header configuration is invalid"
  validateEntries tables destination [] headers

/-- `containsFold` of package `outbound`, which trims the candidate too. -/
def containsFold (values : Slice String) (candidate : String) : Bool :=
  (elements values).any fun value => tables.equalFold (trimmed value) (trimmed candidate)

end ReliableNotifier.Outbound
