import LinkRelay.Breaker
import LinkRelay.Json.Printer
import LinkRelay.Metrics
set_option autoImplicit false

/-!
# Health

The program is healthy while every provider can be asked, degraded while some are behind an open
circuit, and unhealthy when none can be asked.
-/

namespace LinkRelay

inductive HealthStatus where
  | healthy
  | degraded
  | unhealthy
  deriving DecidableEq, Repr

namespace HealthStatus

def name : HealthStatus → String
  | .healthy => "healthy"
  | .degraded => "degraded"
  | .unhealthy => "unhealthy"

def code : HealthStatus → Nat
  | .unhealthy => 503
  | _ => 200

end HealthStatus

/-- What is asked about its health: some providers, their circuits and the counts. -/
structure Health where
  providers : List Provider
  breaker : Breaker
  metrics : Metrics

namespace Health

def openCircuits (h : Health) (now : Nat) : List String :=
  (h.breaker.openNames now).filter (h.providers.map (·.name)).contains

def status (h : Health) (now : Nat) : HealthStatus :=
  let circuits := (h.openCircuits now).length
  if h.providers.isEmpty || circuits == h.providers.length then .unhealthy
  else if 0 < circuits then .degraded
  else .healthy

structure Page where
  status : Nat
  mediaType : Option String
  body : String

def texts (items : List String) : Json := .list (items.map .str)

def json (status : Nat) (members : List (String × Json)) : Page :=
  ⟨status, some "application/json", (Json.record members).toCompact⟩

def page (h : Health) (now : Nat) (method path : String) : Page :=
  if method ≠ "GET" then json 404 [("error", .str "not found")]
  else match path with
    | "/health" =>
      let status := h.status now
      json status.code [("status", .str status.name),
        ("providers", texts (h.providers.map (·.name))),
        ("open_circuits", texts (h.openCircuits now))]
    | "/live" => json 200 [("status", .str "healthy")]
    | "/metrics" => ⟨200, some "text/plain; version=0.0.4", h.metrics.render⟩
    | _ => json 404 [("error", .str "not found")]

end Health
end LinkRelay
