import LinkRelay.Text.Split
set_option autoImplicit false

/-!
# Media types

The media type that a file's name suggests by what follows its last dot.
-/

namespace LinkRelay.MediaType

def ofExtension? (extension : String) : Option String :=
  match extension with
  | "mkv" => some "video/x-matroska"
  | "mp4" | "m4v" => some "video/mp4"
  | "avi" => some "video/x-msvideo"
  | "webm" => some "video/webm"
  | "mov" => some "video/quicktime"
  | "ts" => some "video/mp2t"
  | "srt" => some "application/x-subrip"
  | "nfo" | "txt" => some "text/plain"
  | "jpg" | "jpeg" => some "image/jpeg"
  | "png" => some "image/png"
  | _ => none

def ofPath? (path : String) : Option String := do
  let (_, extension) ← Text.splitLast '.' path.toList
  ofExtension? (String.ofList (Text.asciiLower extension))

end LinkRelay.MediaType
