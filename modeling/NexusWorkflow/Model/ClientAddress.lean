import NexusWorkflow.Lib.Text
import NexusWorkflow.Model.Types

/-!
# The address of a caller

`clientIp` (`auth/sessionCookie.ts`), the keys of the throttles of the sign-in (`http/auth.ts`), and
what the proxies in front of the server do to `X-Forwarded-For`.
-/

namespace NexusWorkflow

/-- `clientIp`, of the header `X-Forwarded-For` and of the address that the connection comes
from. -/
def clientIp (forwardedFor remote : Option String) (trustedProxies : Nat) : String :=
  if trustedProxies > 0 then
    let entries := Text.entries ',' (forwardedFor.getD "").toList
    -- there is no entry at a negative index
    if trustedProxies ≤ entries.length then
      match entries[entries.length - trustedProxies]? with
      | some client => String.ofList client
      | none => "unknown"
    else "unknown"
  else remote.getD "unknown"

inductive ThrottleName where
  | accountIpThrottle | accountThrottle | ipThrottle
  deriving DecidableEq

/-- The keys of an attempt to sign in. -/
def throttleKeys (accountKey ip : String) : List (ThrottleName × String) :=
  [(.accountIpThrottle, accountKey ++ "|" ++ ip), (.accountThrottle, accountKey)] ++
    if ip ≠ "unknown" then [(.ipThrottle, "ip:" ++ ip)] else []

/-- A proxy that has received a request from an address, and what it writes around it. -/
structure Proxy where
  address : String
  before : String := " "
  after : String := ""
  nonempty : address ≠ ""
  no_comma : ',' ∉ address.toList
  trimmed : Text.trim address.toList = address.toList
  before_blank : ∀ c ∈ before.toList, Text.isBlank c = true
  after_blank : ∀ c ∈ after.toList, Text.isBlank c = true

/-- What the proxy makes of the header. -/
def Proxy.forward (proxy : Proxy) : Option String → String
  | none => proxy.before ++ proxy.address ++ proxy.after
  | some header => header ++ "," ++ (proxy.before ++ proxy.address ++ proxy.after)

/-- What the server receives if the client has sent this, behind these proxies; the outermost one is
the first. -/
def forwardedFor (sent : Option String) (proxies : List Proxy) : Option String :=
  proxies.foldl (fun header proxy => some (proxy.forward header)) sent

end NexusWorkflow
