import LinkRelay.Provider
set_option autoImplicit false

/-!
# Metrics

Counters by series. The text exposition lists families by name, the samples of a family by the
values of their labels, and the labels of a sample by name; a family without samples is left out.
-/

namespace LinkRelay

inductive Family where
  | breakerOpens
  | breakerSkips
  | deadLinks
  | linkRefreshes
  | outcomes
  | retries
  | limiterWaits
  deriving DecidableEq, Repr

namespace Family

def all : List Family :=
  [.breakerOpens, .breakerSkips, .deadLinks, .linkRefreshes, .outcomes, .retries, .limiterWaits]

def name : Family → String
  | .breakerOpens => "debrid_circuit_breaker_opens_total"
  | .breakerSkips => "debrid_circuit_breaker_skips_total"
  | .deadLinks => "debrid_dead_links_total"
  | .linkRefreshes => "debrid_link_refreshes_total"
  | .outcomes => "debrid_provider_outcomes_total"
  | .retries => "debrid_provider_retries_total"
  | .limiterWaits => "debrid_rate_limit_waits_total"

def help : Family → String
  | .breakerOpens => "Times a provider circuit was opened"
  | .breakerSkips => "Resolutions skipped because the provider circuit was open"
  | .deadLinks => "Links found dead before or during streaming"
  | .linkRefreshes => "Links re-resolved after being found dead"
  | .outcomes => "Provider resolution outcomes"
  | .retries => "Retried provider calls"
  | .limiterWaits => "Provider calls held back by the rate limiter"

end Family

/-- What is counted: one kind of event at one provider. -/
inductive Series where
  | breakerOpened (p : Provider)
  | breakerSkipped (p : Provider)
  | deadLink (p : Provider)
  | linkRefreshed (p : Provider) (success : Bool)
  | outcome (p : Provider) (label : String)
  | retried (p : Provider)
  | heldBack (p : Provider)
  deriving DecidableEq, Repr

namespace Series

def family : Series → Family
  | .breakerOpened _ => .breakerOpens
  | .breakerSkipped _ => .breakerSkips
  | .deadLink _ => .deadLinks
  | .linkRefreshed .. => .linkRefreshes
  | .outcome .. => .outcomes
  | .retried _ => .retries
  | .heldBack _ => .limiterWaits

def labels : Series → List (String × String)
  | .outcome p label => [("outcome", label), ("provider", p.name)]
  | .linkRefreshed p success =>
    [("provider", p.name), ("result", if success then "success" else "failure")]
  | .breakerOpened p | .breakerSkipped p | .deadLink p | .retried p | .heldBack p =>
    [("provider", p.name)]

end Series

structure Metrics where
  counts : List (Series × Nat)
  deriving Inhabited

namespace Metrics

def empty : Metrics := ⟨[]⟩

def count (m : Metrics) (s : Series) : Nat := (m.counts.lookup s).getD 0

def touch (m : Metrics) (s : Series) : Metrics :=
  if (m.counts.lookup s).isSome then m else ⟨m.counts ++ [(s, 0)]⟩

def add (m : Metrics) (s : Series) : Metrics :=
  ⟨(m.touch s).counts.map fun e => if e.1 = s then (e.1, e.2 + 1) else e⟩

def escapeChar (c : Char) : List Char :=
  if c = '\\' then ['\\', '\\']
  else if c = '\n' then ['\\', 'n']
  else if c = '"' then ['\\', '"']
  else [c]

def escape (s : String) : String := String.ofList (s.toList.flatMap escapeChar)

def sampleLine (e : Series × Nat) : String :=
  let labels := e.1.labels.map fun (name, value) => name ++ "=\"" ++ escape value ++ "\""
  e.1.family.name ++ "\x7b" ++ String.intercalate "," labels ++ "\x7d " ++ toString e.2

def valuesLe (a b : Series × Nat) : Bool :=
  let values (e : Series × Nat) : List String := e.1.labels.map (·.2)
  !(decide (values b < values a))

def samples (m : Metrics) (f : Family) : List (Series × Nat) :=
  (m.counts.filter fun e => e.1.family == f).mergeSort valuesLe

def familyLines (m : Metrics) (f : Family) : List String :=
  match m.samples f with
  | [] => []
  | samples =>
    s!"# HELP {f.name} {f.help}" :: s!"# TYPE {f.name} counter" :: samples.map sampleLine

def sampleLines (m : Metrics) : List String :=
  Family.all.flatMap fun f => (m.samples f).map sampleLine

def render (m : Metrics) : String :=
  String.join ((Family.all.flatMap m.familyLines).map (· ++ "\n"))

end Metrics
end LinkRelay
