import LinkRelay.Record
set_option autoImplicit false

/-!
# Configuration

What the program is told: its providers with their credentials and rate limits, how long records
stay fresh, and how calls are retried and timed.
-/

namespace LinkRelay

/-- At most `quota` calls in any window of `windowMs` milliseconds. -/
structure Limit where
  windowMs : Nat
  quota : Nat
  deriving DecidableEq, Repr, Inhabited

def Limit.standard : Limit := ⟨1000, 5⟩

structure ProviderConfig where
  kind : Provider
  enabled : Bool
  baseUrl : Option String
  apiKey : Option String
  username : Option String
  password : Option String
  limit : Limit
  deriving DecidableEq, Repr

namespace ProviderConfig

def standard (kind : Provider) : ProviderConfig :=
  ⟨kind, true, none, none, none, none, .standard⟩

def publicUrl : Provider → String
  | .premiumize => "https://www.premiumize.me/api"
  | .easynews => "https://members.easynews.com"

def baseUrlOrPublic (p : ProviderConfig) : String := p.baseUrl.getD (publicUrl p.kind)

end ProviderConfig

structure Config where
  providers : List ProviderConfig
  waitAfterMissing : Nat
  waitAfterProviderError : Nat
  waitAfterNetworkError : Nat
  waitAfterClientError : Nat
  retries : Nat
  retryDelayMs : Nat
  cooldown : Nat
  connectTimeoutMs : Nat
  readTimeoutMs : Nat
  streamReadTimeout : Nat
  stateFile : Option String
  healthAddress : Option String
  logLevel : String
  deriving DecidableEq, Repr

namespace Config

def standard : Config where
  providers := []
  waitAfterMissing := 86400
  waitAfterProviderError := 3600
  waitAfterNetworkError := 60
  waitAfterClientError := 86400
  retries := 2
  retryDelayMs := 500
  cooldown := 60
  connectTimeoutMs := 5000
  readTimeoutMs := 15000
  streamReadTimeout := 60
  stateFile := none
  healthAddress := none
  logLevel := "info"

def enabled (c : Config) : List ProviderConfig := c.providers.filter (·.enabled)

/-- The seconds that a record in some state stays fresh; one that is cached never ages. -/
def waitFor (c : Config) : FileState → Option Nat
  | .cached => none
  | .missing => some c.waitAfterMissing
  | .failed .provider => some c.waitAfterProviderError
  | .failed .network => some c.waitAfterNetworkError
  | .failed .client => some c.waitAfterClientError

end Config

structure Staleness where
  missing : Nat
  providerError : Nat
  networkError : Nat
  clientError : Nat
  deriving DecidableEq, Repr, Inhabited

namespace Staleness

def ofConfig (c : Config) : Staleness where
  missing := (c.waitFor .missing).getD 0
  providerError := (c.waitFor (.failed .provider)).getD 0
  networkError := (c.waitFor (.failed .network)).getD 0
  clientError := (c.waitFor (.failed .client)).getD 0

def waitFor (s : Staleness) : FileState → Option Nat
  | .cached => none
  | .missing => some s.missing
  | .failed .provider => some s.providerError
  | .failed .network => some s.networkError
  | .failed .client => some s.clientError

/-- A record is stale when strictly more than its wait has passed since it was checked. One that
    was checked in the future is fresh. -/
def isStale (s : Staleness) (r : Record) (now : Time) : Bool :=
  match s.waitFor r.state with
  | none => false
  | some wait => Time.ofSeconds wait < now - r.lastChecked

end Staleness
end LinkRelay
