import NexusWorkflow.Lib.Processes
import NexusWorkflow.Model.Parser

/-!
# Webhooks

Where a webhook may be sent to (`webhooks/urlPolicy.ts`), and how it is sent
(`webhooks/safeFetch.ts`).  How a URL and the text of an address are read is left to the platform.
-/

namespace NexusWorkflow.Webhooks

/-! ## Addresses -/

inductive IpAddress where
  | v4 (bits : BitVec 32)
  | v6 (bits : BitVec 128)
  deriving DecidableEq

namespace IpAddress

def ip4 (a b c d : Nat) : IpAddress := .v4 (.ofNat 32 (((a * 256 + b) * 256 + c) * 256 + d))

/-- The address with these eight groups. -/
def ip6 (groups : List Nat) : IpAddress :=
  .v6 (.ofNat 128 (groups.foldl (fun n group => n * 65536 + group) 0))

/-- The length of the address in bits. -/
def width : IpAddress → Nat
  | .v4 _ => 32
  | .v6 _ => 128

/-- The address as a number of 128 bits: that of an IPv4 address is its IPv6 notation,
`::ffff:a.b.c.d`. -/
def value : IpAddress → Nat
  | .v4 bits => 0xffff * 2 ^ 32 + bits.toNat
  | .v6 bits => bits.toNat

end IpAddress

/-- A rule of a `BlockList`: the addresses that begin with the same bits. -/
structure Subnet where
  net : IpAddress
  bits : Nat
  deriving DecidableEq

/-- How many of the last bits of the 128 do not matter. -/
def Subnet.rest (subnet : Subnet) : Nat := subnet.net.width - subnet.bits

/-- The platform compares addresses of both families in the IPv6 notation. -/
def Subnet.contains (subnet : Subnet) (address : IpAddress) : Bool :=
  address.value / 2 ^ subnet.rest = subnet.net.value / 2 ^ subnet.rest

abbrev BlockList := List Subnet

def BlockList.check (list : BlockList) (address : IpAddress) : Bool := list.any (·.contains address)

open IpAddress in
/-- Never reachable, even when an operator allow-lists a host. -/
def hardBlocked : BlockList :=
  [⟨ip4 0 0 0 0, 8⟩, ⟨ip4 169 254 0 0, 16⟩, ⟨ip4 224 0 0 0, 4⟩, ⟨ip4 240 0 0 0, 4⟩,
    ⟨ip6 [0, 0, 0, 0, 0, 0, 0, 0], 128⟩, ⟨ip6 [0xfe80, 0, 0, 0, 0, 0, 0, 0], 10⟩,
    ⟨ip6 [0xff00, 0, 0, 0, 0, 0, 0, 0], 8⟩]

open IpAddress in
/-- Ranges that an operator may allow. -/
def internal : BlockList :=
  [⟨ip4 10 0 0 0, 8⟩, ⟨ip4 100 64 0 0, 10⟩, ⟨ip4 127 0 0 0, 8⟩, ⟨ip4 172 16 0 0, 12⟩,
    ⟨ip4 192 0 0 0, 24⟩,
    ⟨ip4 192 0 2 0, 24⟩, ⟨ip4 192 168 0 0, 16⟩, ⟨ip4 198 18 0 0, 15⟩, ⟨ip4 198 51 100 0, 24⟩,
    ⟨ip4 203 0 113 0, 24⟩,
    ⟨ip6 [0, 0, 0, 0, 0, 0, 0, 1], 128⟩, ⟨ip6 [0xfc00, 0, 0, 0, 0, 0, 0, 0], 7⟩,
    ⟨ip6 [0xfec0, 0, 0, 0, 0, 0, 0, 0], 10⟩, ⟨ip6 [0x2001, 0xdb8, 0, 0, 0, 0, 0, 0], 32⟩,
    ⟨ip6 [0x2002, 0, 0, 0, 0, 0, 0, 0], 16⟩, ⟨ip6 [0x64, 0xff9b, 0, 0, 0, 0, 0, 0], 96⟩]

/-! ## The platform -/

/-- What the program looks at of a `URL`. -/
structure Url where
  protocol : String
  username : String := ""
  password : String := ""
  /-- An IPv6 address is in brackets. -/
  hostname : String
  port : String := ""
  /-- The host name, with the port. -/
  host : String
  pathname : String
  search : String := ""
  deriving DecidableEq

structure Platform where
  /-- `new URL`, which throws if the text is none. -/
  parseUrl : String → Option Url
  /-- The address that a text is; `isIP` tells whether there is one, and of which family. -/
  address : String → Option IpAddress
  toLowerCase : String → String

/-! ## The policy -/

structure WebhookUrlPolicy where
  allowHttp : Bool
  allowedHosts : List String

structure ParsedAllowList where
  addresses : BlockList := []
  hosts : List String := []

inductive WebhookError where
  /-- `WebhookUrlError`. -/
  | url (message : String)
  /-- An entry of the allow-list is not usable. -/
  | allowList (message : String)
  | resolver
  | request (connected : Bool)
  /-- `undefined` is thrown if there is no address to try. -/
  | undefined
  deriving DecidableEq

/-- `/^\d{1,3}$/`, and the number. -/
def prefixLength (bits : String) : Option Nat :=
  let digits := bits.toList
  if digits.all Char.isDigit ∧ 1 ≤ digits.length ∧ digits.length ≤ 3 then
    some (digits.foldl (fun n c => n * 10 + (c.toNat - '0'.toNat)) 0)
  else none

def isLowerAlphanum (c : Char) : Bool := c.isLower || c.isDigit

/-- `/^[a-z0-9]([a-z0-9.-]*[a-z0-9])?$/`. -/
def isHostName (entry : String) : Bool :=
  let cs := entry.toList
  cs.head?.any isLowerAlphanum && cs.getLast?.any isLowerAlphanum &&
    cs.all fun c => isLowerAlphanum c || c = '.' || c = '-'

def splitAtSlashes (entry : String) : List String := (entry.toList.splitOn '/').map String.ofList

variable (platform : Platform) (policy : WebhookUrlPolicy)

/-- One turn of the loop in `buildAllowList`. -/
def ParsedAllowList.add (allowed : ParsedAllowList) (raw : String) :
    Except WebhookError ParsedAllowList :=
  let entry := platform.toLowerCase (trim raw)
  let notARange : WebhookError := .allowList ("\"" ++ raw ++ "\" is not a valid CIDR range")
  if entry = "" then .ok allowed
  else
    let parts := splitAtSlashes entry
    match (parts.head?.filter (· ≠ "")).bind platform.address, parts.tail with
    | some net, [] => .ok { allowed with addresses := allowed.addresses ++ [⟨net, net.width⟩] }
    | some net, [bits] =>
        match prefixLength bits with
        | none => .error notARange
        | some n =>
            if net.width < n then .error notARange
            else .ok { allowed with addresses := allowed.addresses ++ [⟨net, n⟩] }
    | some _, _ :: _ :: _ => .error notARange
    | none, _ =>
        if isHostName entry then .ok { allowed with hosts := allowed.hosts ++ [entry] }
        else .error (.allowList ("\"" ++ raw ++ "\" is not a host name, address or CIDR range"))

def buildAllowList (entries : List String) : Except WebhookError ParsedAllowList :=
  entries.foldlM (fun allowed raw => allowed.add platform raw) {}

/-- A connection to the address is refused by the policy. -/
def isBlockedAddress (address : String) (hostname : Option String) : Except WebhookError Bool :=
  match platform.address address with
  | none => .ok true
  | some x =>
      if hardBlocked.check x then .ok true
      else if !internal.check x then .ok false
      else do
        let allowed ← buildAllowList platform policy.allowedHosts
        return !allowed.addresses.check x && !hostname.any fun h =>
          platform.toLowerCase h ∈ allowed.hosts

/-! ## URLs -/

/-- The host name without the brackets. -/
def stripBrackets (hostname : String) : String :=
  let cs := hostname.toList
  let cs := if cs.head? = some '[' then cs.tail else cs
  String.ofList (if cs.getLast? = some ']' then cs.dropLast else cs)

def bareHostname (url : Url) : String := platform.toLowerCase (stripBrackets url.hostname)

def isLocalhost (host : String) : Bool :=
  host = "localhost" || ".localhost".toList.isSuffixOf host.toList

def notAllowed : WebhookError := .url "URL points at an address that is not allowed"

/-- Everything that can be decided without the network. -/
def parseWebhookUrl (raw : String) : Except WebhookError Url :=
  match platform.parseUrl raw with
  | none => .error (.url "URL is not valid")
  | some url =>
      if url.protocol ≠ "https:" ∧ ¬ (url.protocol = "http:" ∧ policy.allowHttp) then
        .error
          (.url (if policy.allowHttp then "URL must use http or https" else "URL must use https"))
      else if url.username ≠ "" ∨ url.password ≠ "" then
        .error (.url "URL must not contain credentials")
      else
        let host := bareHostname platform url
        if (platform.address host).isSome then do
          if ← isBlockedAddress platform policy host none then throw notAllowed
          else return url
        else if isLocalhost host then do
          if host ∈ (← buildAllowList platform policy.allowedHosts).hosts then return url
          else throw notAllowed
        else .ok url

/-! ## Sending -/

/-- What the request is made with. -/
structure RequestOptions where
  secure : Bool
  /-- The address that is connected to. -/
  host : String
  port : String
  path : String
  method : String
  headers : List (String × String)
  servername : Option String

structure WebhookRequest where
  method : String
  headers : List (String × String)
  body : String

structure WebhookResponse where
  ok : Bool
  status : Nat

/-- What the program asks of the network. -/
inductive WebhookOp where
  | resolve (hostname : String)
  | request (options : RequestOptions) (body : String) (timeoutMs : Nat)

/-- The addresses, or the status of the response. -/
abbrev WebhookOp.Answer : WebhookOp → Type
  | resolve _ => List String
  | request _ _ _ => Nat

abbrev Task := Async WebhookOp WebhookOp.Answer WebhookError

def await (op : WebhookOp) : Task op.Answer := Async.await op

/-- Some address is blocked; they are looked at one after the other, up to the first one that is. -/
def anyBlocked (host : String) : List String → Except WebhookError Bool
  | [] => .ok false
  | address :: addresses => do
      if ← isBlockedAddress platform policy address (some host) then return true
      else anyBlocked host addresses

def unresolved : WebhookError := .url "Host name could not be resolved"

/-- The URL, and the addresses that a connection may use. -/
def resolveWebhookTarget (raw : String) : Task (Url × List String) :=
  match parseWebhookUrl platform policy raw with
  | .error e => throw e
  | .ok url =>
      let host := bareHostname platform url
      if (platform.address host).isSome then pure (url, [host])
      else do
        let addresses ← tryCatch (await (.resolve host)) fun _ => throw unresolved
        if addresses = [] then throw unresolved
        else
          match anyBlocked platform policy host addresses with
          | .error e => throw e
          | .ok true => throw notAllowed
          | .ok false => return (url, addresses)

/-- The headers of an object literal: the later ones replace the earlier ones. -/
def withHeader (headers : List (String × String)) (name value : String) : List (String × String) :=
  headers.filter (·.1 ≠ name) ++ [(name, value)]

def requestOptions (url : Url) (address : String) (init : WebhookRequest) : RequestOptions :=
  let secure := url.protocol = "https:"
  let hostname := stripBrackets url.hostname
  { secure
    host := address
    port := if url.port ≠ "" then url.port else if secure then "443" else "80"
    path := url.pathname ++ url.search
    method := init.method
    headers := withHeader (withHeader init.headers "Host" url.host) "Content-Length"
      (toString init.body.utf8ByteSize)
    servername := if secure && (platform.address hostname).isNone then some hostname else none }

def send (url : Url) (address : String) (init : WebhookRequest) (timeoutMs : Nat) :
    Task WebhookResponse := do
  let status ← await (.request (requestOptions platform url address init) init.body timeoutMs)
  return { ok := 200 ≤ status && status < 300, status }

/-- The loop of `createSafeFetch`. -/
def tryAddresses (url : Url) (init : WebhookRequest) (timeoutMs : Nat) :
    List String → WebhookError → Task WebhookResponse
  | [], lastError => throw lastError
  | address :: addresses, _ => do
      let result ← (tryCatch (Except.ok <$> send platform url address init timeoutMs) fun e =>
        return .error e :
        Task (Except WebhookError WebhookResponse))
      match result with
      | .ok response => return response
      | .error e =>
          -- only a failure to connect is worth trying another address for
          if e = .request true then throw e
          else tryAddresses url init timeoutMs addresses e

/-- The function that `createSafeFetch` returns. -/
def safeFetch (raw : String) (init : WebhookRequest) (timeoutMs : Nat) : Task WebhookResponse := do
  let target ← resolveWebhookTarget platform policy raw
  tryAddresses platform target.1 init timeoutMs target.2 .undefined

end NexusWorkflow.Webhooks
