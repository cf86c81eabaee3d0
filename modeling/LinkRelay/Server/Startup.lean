import LinkRelay.Config.Yaml
import LinkRelay.Relay
import LinkRelay.Server.Log
set_option autoImplicit false

/-!
# Starting the server

What a start does, up to the moment at which the server waits to be interrupted: it reads the
configuration, opens the store, and adds the content named on the command line. It either gets
there or ends with a report.
-/

namespace LinkRelay

structure Server where
  level : LogLevel
  log : List (LogLevel × String)
  world : World

abbrev Startup := ExceptT Report (StateM Server)

/-- What a start is given: its arguments, the files there are, the calendar and the wire. -/
structure Surroundings where
  arguments : List String
  readFile : String → Option String
  diskAt : String → Disk
  calendar : Nat → Time
  wire : Http.Wire

namespace Startup

def say (level : LogLevel) (text : String) : Startup Unit := modify fun s =>
  if s.level.shows level then { s with log := s.log ++ [(level, text)] } else s

def orReport {α : Type} (a : Except Failure α) : Startup α :=
  ExceptT.mk (pure (a.mapError .ofFailure))

def session {α : Type} (session : Session α) : Startup (Except Failure α) := ExceptT.mk fun s =>
  let (result, world) := session.attempt.run.run.run s.world
  match result with
  | .ok answer => (.ok answer, { s with world })
  | .error _ => (.ok (.error (.internal (.told "abandoned"))), { s with world })

def describe (path : String) (c : Config) : Startup Unit := do
  say .info "Starting debrid stream server"
  say .info s!"Configuration loaded from: {path}"
  for p in c.enabled do
    say .info (s!"  - Provider: {p.kind.name} ({p.baseUrlOrPublic}), rate limit " ++
      s!"{p.limit.quota} per {p.limit.windowMs}ms")
  say .info s!"  - Retries on provider error: {c.retries}"
  say .info s!"  - Circuit breaker cooldown: {c.cooldown}s"

def openStore (diskAt : String → Disk) (c : Config) : Startup Unit := do
  let backend ← match c.stateFile with
    | some path => do
      say .info s!"  - State file: {path}"
      orReport (Backend.opened (diskAt path))
    | none => do
      say .info "  - State file: none, records are kept in memory"
      pure Backend.memory
  modify fun s => { s with world := { s.world with store := ⟨backend, .ofConfig c⟩ } }

def readKey (text : String) : Except Failure Key :=
  if (Text.after? "magnet:".toList text.toList).isSome then Key.ofMagnet text
  else Key.ofRelease text

def providerTitle : Provider → String
  | .premiumize => "Premiumize"
  | .easynews => "Easynews"

def addContent (c : Config) (text root : String) : Startup Unit := do
  let key ← orReport (readKey text)
  let relay : Relay := ⟨.ofConfig c⟩
  match ← session (relay.addContent key root) with
  | .ok files =>
    for v in files do
      let providers := String.intercalate ", " (v.providers.map providerTitle)
      say .info s!"Created file: path={v.path}, size={v.size}, providers=[{providers}]"
  | .error f => say .error s!"Failed to add content: key={key.display}, error={f.message}"

def start (path : String) (c : Config) (given : Surroundings) : Startup Unit := do
  describe path c
  openStore given.diskAt c
  match given.arguments with
  | _ :: text :: root :: _ => addContent c text root
  | _ => pure ()
  say .info "Server initialization complete"

end Startup

namespace Server

def configPath (arguments : List String) : String := arguments.head?.getD "debrid.yaml"

def idle (c : Config) (given : Surroundings) : Server where
  level := (LogLevel.ofText? c.logLevel).getD .info
  log := []
  world := .start (Client.allOfConfig given.wire.platform.domains c) (.ofConfig .standard c)
    ⟨.memory, .ofConfig c⟩ given.wire given.calendar

/-- Starts a server: a report if it cannot, and the server as it is then, if there is one. -/
def start (given : Surroundings) : Except Report Unit × Option Server :=
  let path := configPath given.arguments
  match Config.ofFile given.wire.platform.domains (given.readFile path) with
  | .error f => (.error ⟨s!"Failed to load configuration from {path}", some f.message⟩, none)
  | .ok c =>
    let (result, server) := (Startup.start path c given).run.run (idle c given)
    (result, some server)

def stop (s : Server) : Server := ((Startup.say .info "Shutting down").run.run s).2

end Server
end LinkRelay
