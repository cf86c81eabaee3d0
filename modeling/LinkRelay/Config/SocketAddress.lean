import LinkRelay.Url.Host
set_option autoImplicit false

/-!
# Socket addresses

An address of four bytes in decimal, or one of eight pieces in brackets, with a port.
-/

namespace LinkRelay.SocketAddress

def isNumber (limit : Nat) (s : List Char) : Bool :=
  !s.isEmpty && s.all Char.isDigit &&
    s.foldl (fun n c => n * 10 + Text.digitValue c) 0 ≤ limit

def isPort (s : List Char) : Bool := isNumber 65535 s

def isBracketed (s : List Char) : Bool :=
  match Text.splitFirst '%' s with
  | some (address, scope) =>
    (Host.readIpv6 address).toOption.isSome && isNumber Text.maxU32 scope
  | none => (Host.readIpv6 s).toOption.isSome

def isAddress (text : String) : Bool :=
  match text.toList with
  | '[' :: rest =>
    match Text.splitFirst ']' rest with
    | some (address, ':' :: port) => isBracketed address && isPort port
    | _ => false
  | s =>
    match Text.splitFirst ':' s with
    | some (address, port) => (Host.readTail address).isSome && isPort port
    | none => false

end LinkRelay.SocketAddress
