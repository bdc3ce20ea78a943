import Mustache.Options
import Mustache.Toml.Reader

namespace Mustache

/-- Why a TOML document gives no options. -/
inductive DocumentFault where
  /-- Not TOML, or a field of the wrong type. -/
  | malformed
  | unknownField (name : String)
  | invalidTags (error : DelimiterError)
deriving DecidableEq

inductive OptionsError where
  /-- The file with the options cannot be read. -/
  | unreadable
  | document (fault : DocumentFault)
deriving DecidableEq

namespace DocumentFault

/-- The message of a fault, where it is one of the options and not of the document. -/
def message? : DocumentFault → Option String
  | malformed => none
  | unknownField name => some ("unknown field `" ++ name ++
      "`, expected one of `tags`, `file`, `preserve_whitespace`, `cache`, `partial_depth_limit`")
  | invalidTags e => some e.message

end DocumentFault

namespace Options

def texts? (item : Toml.Item) : Option (List String) :=
  match item with
  | .array items => items.mapM fun
    | .string s => some s
    | _ => none
  | _ => none

/-- Sets the option that an entry is for. -/
def set (o : Options) (key : String) (item : Toml.Item) : Except DocumentFault Options :=
  match key with
  | "tags" =>
    match texts? item with
    | none => .error .malformed
    | some texts =>
      ((Delimiters.ofList texts).mapError .invalidTags).map fun tags => { o with tags }
  | "file" =>
    match item with
    | .string file => .ok { o with file }
    | _ => .error .malformed
  | "preserve_whitespace" =>
    match item with
    | .boolean preserveWhitespace => .ok { o with preserveWhitespace }
    | _ => .error .malformed
  | "cache" =>
    match item with
    | .boolean cache => .ok { o with cache }
    | _ => .error .malformed
  | "partial_depth_limit" =>
    match item with
    | .integer n =>
      if 0 ≤ n then .ok { o with partialDepthLimit := n.toInt.toNat } else .error .malformed
    | _ => .error .malformed
  | name => .error (.unknownField name)

/-- Options from a TOML document. Of several faults the first counts. -/
def ofToml (document : String) : Except DocumentFault Options :=
  match Toml.read? document with
  | none => .error .malformed
  | some entries => entries.foldlM (fun o (key, item) => o.set key item) standard

/-- Options from the content of a file, which is missing if the file cannot be read. -/
def ofFile (content : Option String) : Except OptionsError Options :=
  match content with
  | none => .error .unreadable
  | some document => (ofToml document).mapError .document

end Options
end Mustache
