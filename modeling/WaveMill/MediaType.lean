import WaveMill.Path

/-!
# Media types

What a file claims to be is a short text such as `audio/wav`.  A file on disk gets the type of its
extension, and only audio is taken into a registry.
-/

set_option autoImplicit false
namespace WaveMill
namespace MediaType

/-- The type that an extension in lower case stands for. -/
def ofExtension (extension : String) : String :=
  match extension with
  | "wav" | "wave" => "audio/wav"
  | "mp3" => "audio/mpeg"
  | "ogg" | "oga" => "audio/ogg"
  | "flac" => "audio/flac"
  | "aif" | "aiff" => "audio/aiff"
  | "m4a" | "mp4" => "audio/mp4"
  | "aac" => "audio/aac"
  | _ => "application/octet-stream"

/-- The type of the file at a path.  ASCII letters of the extension may be in either case. -/
def ofPath (path : String) : String :=
  ofExtension (.ofList (((Path.extension? path).getD "").toList.map Char.toLower))

/-- Whether a type is one of audio. -/
def isAudio (mediaType : String) : Bool := "audio/".toList.isPrefixOf mediaType.toList

end MediaType
end WaveMill
