import LinkRelay.Text.Utf16
set_option autoImplicit false

/-!
# Documents

Text that comes as bytes of a kind not told otherwise.
-/

namespace LinkRelay.Text

/-- The text of a document. A leading byte order mark names the encoding and is no part of the
    text; without one the encoding is UTF-8. -/
def ofDocument (bytes : Bytes) : String :=
  match bytes with
  | 0xEF :: 0xBB :: 0xBF :: rest => Utf8.decodeLossy rest
  | 0xFE :: 0xFF :: rest => Utf16.decodeLossy .big rest
  | 0xFF :: 0xFE :: rest => Utf16.decodeLossy .little rest
  | _ => Utf8.decodeLossy bytes

end LinkRelay.Text
