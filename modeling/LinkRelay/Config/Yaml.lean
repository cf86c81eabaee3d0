import LinkRelay.Config.Format
import LinkRelay.Config.Validation
import LinkRelay.Yaml.Shape
set_option autoImplicit false

/-!
# Configuration files

A configuration is written in YAML, with defaults for fields that are missing. A text without a
document is a configuration without fields. Only a valid configuration is accepted.
-/

namespace LinkRelay

open Yaml (Node Document)

def Limit.ofYaml? (d : Document) (node : Node) : Option Limit := do
  let f ← node.fields? d ["window_ms", "max_requests"]
  return {
    windowMs := ← f.withDefault "window_ms" standard.windowMs Node.number?
    quota := ← f.withDefault "max_requests" standard.quota Node.number? }

def Provider.ofYaml? (node : Node) : Option Provider := node.word?.bind ofName?

def ProviderConfig.ofYaml? (d : Document) (node : Node) : Option ProviderConfig := do
  let f ← node.fields? d fieldNames
  let text (name : String) : Option (Option String) := f.withDefault name none Node.optionalText?
  return {
    kind := ← f.required "kind" Provider.ofYaml?
    enabled := ← f.withDefault "enabled" true Node.bool?
    baseUrl := ← text "base_url"
    apiKey := ← text "api_key"
    username := ← text "username"
    password := ← text "password"
    limit := ← f.withDefault "rate_limit" .standard (Limit.ofYaml? d) }

namespace Config

def ofDocument? (d : Document) : Option Config := do
  let f ← (d.root.getD .empty).fields? d fieldNames
  let number (name : String) (default : Nat) : Option Nat := f.withDefault name default Node.number?
  let text (name : String) : Option (Option String) := f.withDefault name none Node.optionalText?
  let c := standard
  return {
    providers := ← f.list "providers" (ProviderConfig.ofYaml? d)
    waitAfterMissing := ← number "wait_after_missing_secs" c.waitAfterMissing
    waitAfterProviderError := ← number "wait_after_provider_error_secs" c.waitAfterProviderError
    waitAfterNetworkError := ← number "wait_after_network_error_secs" c.waitAfterNetworkError
    waitAfterClientError := ← number "wait_after_client_error_secs" c.waitAfterClientError
    retries := ← number "retries_on_provider_error" c.retries
    retryDelayMs := ← number "delay_between_retries_ms" c.retryDelayMs
    cooldown := ← number "circuit_breaker_cooldown_secs" c.cooldown
    connectTimeoutMs := ← number "connect_timeout_ms" c.connectTimeoutMs
    readTimeoutMs := ← number "read_timeout_ms" c.readTimeoutMs
    streamReadTimeout := ← number "stream_read_timeout_secs" c.streamReadTimeout
    stateFile := ← text "state_file"
    healthAddress := ← text "health_address"
    logLevel := ← f.withDefault "log_level" c.logLevel Node.text? }

def ofYaml (domains : Domain.Rules) (yaml : String) : Except Failure Config := do
  match (Document.ofText? yaml).bind ofDocument? with
  | none => throw (.config (.unparsable "it is no configuration"))
  | some c =>
    c.validate domains
    return c

def ofFile (domains : Domain.Rules) (content : Option String) : Except Failure Config :=
  match content with
  | some yaml => ofYaml domains yaml
  | none => .error (.config (.unreadable "there is no such file"))

end Config
end LinkRelay
