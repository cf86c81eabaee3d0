import LinkRelay.Config.Basic
import LinkRelay.Config.SocketAddress
import LinkRelay.Url.Reader
set_option autoImplicit false

/-!
# Valid configurations

The rules a configuration is held to, in the order in which their faults are reported: providers
first, one by one, then the health address, then the timeouts. A provider that is switched off is
held to none but the one against repetition.
-/

namespace LinkRelay

namespace ProviderConfig

def isBlank (setting : Option String) : Bool := (setting.map Text.blank).getD true

def checkLimit (p : ProviderConfig) : Except ConfigFault Unit :=
  if p.limit.windowMs = 0 ∨ p.limit.quota = 0 then .error (.zeroLimit p.kind) else .ok ()

def checkBaseUrl (domains : Domain.Rules) (p : ProviderConfig) : Except ConfigFault Unit :=
  match p.baseUrl with
  | none => .ok ()
  | some text =>
    match Url.read domains text with
    | .error fault => .error (.invalidBaseUrl p.kind text fault)
    | .ok url =>
      if url.isFlat || !(url.scheme == "http" || url.scheme == "https") then
        .error (.foreignBaseUrl p.kind text)
      else .ok ()

def checkCredentials (p : ProviderConfig) : Except ConfigFault Unit :=
  match p.kind with
  | .premiumize => if isBlank p.apiKey then .error .noApiKey else .ok ()
  | .easynews => if isBlank p.username || isBlank p.password then .error .noLogin else .ok ()

def check (domains : Domain.Rules) (p : ProviderConfig) : Except ConfigFault Unit := do
  if p.enabled then
    p.checkLimit
    p.checkBaseUrl domains
    p.checkCredentials

end ProviderConfig

namespace Config

/-- Checks providers in order, those before them being `seen`. -/
def checkProviders (domains : Domain.Rules) (seen : List Provider) :
    List ProviderConfig → Except ConfigFault Unit
  | [] => .ok ()
  | p :: rest =>
    if seen.contains p.kind then .error (.repeated p.kind)
    else do
      p.check domains
      checkProviders domains (p.kind :: seen) rest

def checkHealthAddress (c : Config) : Except ConfigFault Unit :=
  match c.healthAddress with
  | some address =>
    if SocketAddress.isAddress address then .ok () else .error (.invalidHealthAddress address)
  | none => .ok ()

def checkTimeouts (c : Config) : Except ConfigFault Unit :=
  if c.connectTimeoutMs = 0 ∨ c.readTimeoutMs = 0 ∨ c.streamReadTimeout = 0 then
    .error .zeroTimeout
  else .ok ()

def check (domains : Domain.Rules) (c : Config) : Except ConfigFault Unit := do
  if c.providers.isEmpty then throw .noProvider
  checkProviders domains [] c.providers
  c.checkHealthAddress
  c.checkTimeouts

def validate (domains : Domain.Rules) (c : Config) : Except Failure Unit :=
  (c.check domains).mapError .config

end Config
end LinkRelay
