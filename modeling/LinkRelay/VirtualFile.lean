import LinkRelay.CachedFile
import LinkRelay.Text.Blank
import LinkRelay.Text.Split
set_option autoImplicit false

/-!
# Virtual files

What the program shows of content under a root: one file for each path that the providers' files
come to, and what each provider's answer means for it.
-/

namespace LinkRelay

def virtualPath (root remote : String) : String :=
  let root := Text.dropRight (· == '/') root.toList
  let remote := remote.toList.dropWhile (· == '/')
  String.ofList (root ++ '/' :: remote)

structure VirtualFile where
  path : String
  size : Nat
  mimeType : Option String
  providers : List Provider
  deriving DecidableEq, Repr

namespace VirtualFile

def first (path : String) (f : CachedFile) : VirtualFile := ⟨path, f.size, f.mimeType, [f.provider]⟩

def join (v : VirtualFile) (p : Provider) : VirtualFile :=
  if v.providers.contains p then v else { v with providers := v.providers ++ [p] }

def add (root : String) (files : List VirtualFile) (f : CachedFile) : List VirtualFile :=
  let path := virtualPath root f.path
  if files.any fun v => v.path == path then
    files.map fun v => if v.path = path then v.join f.provider else v
  else files ++ [first path f]

def ofFiles (root : String) (files : List CachedFile) : List VirtualFile :=
  files.foldl (add root) []

/-- The provider's path of the first file at a virtual path. -/
def remotePath (root : String) (files : List CachedFile) (path : String) : String :=
  ((files.find? fun f => virtualPath root f.path == path).map (·.path)).getD ""

structure Entry where
  path : String
  provider : Provider
  outcome : FileOutcome

/-- What is recorded when content is added: every answer on every virtual file. -/
def entries (root : String) (resolutions : List Resolution) : List Entry :=
  let files := Resolution.files resolutions
  (ofFiles root files).flatMap fun v =>
    let remote := remotePath root files v.path
    resolutions.map fun r => ⟨v.path, r.provider, r.outcome.forFile remote⟩

def fileName (path : String) : String :=
  match Text.splitLast '/' path.toList with
  | some (_, name) => String.ofList name
  | none => path

end VirtualFile
end LinkRelay
