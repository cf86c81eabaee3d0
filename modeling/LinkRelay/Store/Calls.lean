import LinkRelay.Store.Basic
set_option autoImplicit false

/-!
# Calls of a store

What a store is asked to write and to show, and what it answers.
-/

namespace LinkRelay

inductive Write where
  | upsert (path : String) (provider : Provider) (outcome : FileOutcome) (now : Time)
  | delete (path : String)

inductive Look where
  | state (path : String)
  | recordsWith (provider : Provider) (state : FileState)
  | paths

inductive StoreAnswer where
  | records (records : List Record)
  | file (file : Option CachedFile)
  | found (found : List (String × Record))
  | paths (paths : List String)
  | stale (stale : Bool)
  | upserted (result : Except Failure Record)
  | deleted (result : Except Failure Bool)
  | reopened (result : Except Failure Unit)

namespace Write

def path : Write → String
  | .upsert path .. => path
  | .delete path => path

def failure (f : Failure) : Write → StoreAnswer
  | .upsert .. => .upserted (.error f)
  | .delete _ => .deleted (.error f)

end Write

namespace Store

def look (s : Store) : Look → StoreAnswer
  | .state path => .records (s.records path)
  | .recordsWith provider state => .found (s.recordsWith provider state)
  | .paths => .paths s.paths

end Store
end LinkRelay
