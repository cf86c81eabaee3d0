import LinkRelay.Config.Basic
import LinkRelay.Record.Format
set_option autoImplicit false

/-!
# Configurations as JSON

A configuration is written with all of its fields, and read with defaults for those missing.
-/

namespace LinkRelay

namespace Limit

def toJson (l : Limit) : Json :=
  .record [("window_ms", .nat l.windowMs), ("max_requests", .nat l.quota)]

def ofJson? (v : Json) : Option Limit := do
  let f ← v.fields? ["window_ms", "max_requests"] false
  return {
    windowMs := ← f.withDefault "window_ms" standard.windowMs Json.u64?
    quota := ← f.withDefault "max_requests" standard.quota Json.u64? }

end Limit

namespace ProviderConfig

def fieldNames : List String :=
  ["kind", "enabled", "base_url", "api_key", "username", "password", "rate_limit"]

def toJson (p : ProviderConfig) : Json :=
  .record
    [("kind", .str p.kind.name), ("enabled", .bool p.enabled),
     ("base_url", Record.orNull p.baseUrl), ("api_key", Record.orNull p.apiKey),
     ("username", Record.orNull p.username), ("password", Record.orNull p.password),
     ("rate_limit", p.limit.toJson)]

def ofJson? (v : Json) : Option ProviderConfig := do
  let f ← v.fields? fieldNames false
  let text (name : String) : Option (Option String) :=
    f.withDefault name none (Json.Fields.orNull Json.text?)
  return {
    kind := ← f.required "kind" Provider.ofJson?
    enabled := ← f.withDefault "enabled" true Json.bool?
    baseUrl := ← text "base_url"
    apiKey := ← text "api_key"
    username := ← text "username"
    password := ← text "password"
    limit := ← f.withDefault "rate_limit" .standard Limit.ofJson? }

end ProviderConfig

namespace Config

def fieldNames : List String :=
  ["providers", "wait_after_missing_secs", "wait_after_provider_error_secs",
   "wait_after_network_error_secs", "wait_after_client_error_secs", "retries_on_provider_error",
   "delay_between_retries_ms", "circuit_breaker_cooldown_secs", "connect_timeout_ms",
   "read_timeout_ms", "stream_read_timeout_secs", "state_file", "health_address", "log_level"]

def toJson (c : Config) : Json :=
  .record
    [("providers", .list (c.providers.map ProviderConfig.toJson)),
     ("wait_after_missing_secs", .nat c.waitAfterMissing),
     ("wait_after_provider_error_secs", .nat c.waitAfterProviderError),
     ("wait_after_network_error_secs", .nat c.waitAfterNetworkError),
     ("wait_after_client_error_secs", .nat c.waitAfterClientError),
     ("retries_on_provider_error", .nat c.retries),
     ("delay_between_retries_ms", .nat c.retryDelayMs),
     ("circuit_breaker_cooldown_secs", .nat c.cooldown),
     ("connect_timeout_ms", .nat c.connectTimeoutMs),
     ("read_timeout_ms", .nat c.readTimeoutMs),
     ("stream_read_timeout_secs", .nat c.streamReadTimeout),
     ("state_file", Record.orNull c.stateFile),
     ("health_address", Record.orNull c.healthAddress),
     ("log_level", .str c.logLevel)]

def ofJson? (v : Json) : Option Config := do
  let f ← v.fields? fieldNames false
  let number (name : String) (default : Nat) : Option Nat := f.withDefault name default Json.u64?
  let text (name : String) : Option (Option String) :=
    f.withDefault name none (Json.Fields.orNull Json.text?)
  let d := standard
  return {
    providers := ← f.withDefault "providers" [] fun v =>
      v.list?.bind (·.mapM ProviderConfig.ofJson?)
    waitAfterMissing := ← number "wait_after_missing_secs" d.waitAfterMissing
    waitAfterProviderError := ← number "wait_after_provider_error_secs" d.waitAfterProviderError
    waitAfterNetworkError := ← number "wait_after_network_error_secs" d.waitAfterNetworkError
    waitAfterClientError := ← number "wait_after_client_error_secs" d.waitAfterClientError
    retries := ← number "retries_on_provider_error" d.retries
    retryDelayMs := ← number "delay_between_retries_ms" d.retryDelayMs
    cooldown := ← number "circuit_breaker_cooldown_secs" d.cooldown
    connectTimeoutMs := ← number "connect_timeout_ms" d.connectTimeoutMs
    readTimeoutMs := ← number "read_timeout_ms" d.readTimeoutMs
    streamReadTimeout := ← number "stream_read_timeout_secs" d.streamReadTimeout
    stateFile := ← text "state_file"
    healthAddress := ← text "health_address"
    logLevel := ← f.withDefault "log_level" d.logLevel Json.text? }

end Config
end LinkRelay
