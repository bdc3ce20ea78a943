import Mustache.Delimiters

namespace Mustache

structure Options where
  tags : Delimiters := .standard
  file : Option String := none
  /-- Whether a line with nothing but a standalone tag keeps its white space. -/
  preserveWhitespace : Bool := false
  /-- Whether the compiled template is kept for the next compilation of the same text. -/
  cache : Bool := true
  /-- How many partials and helper renderings may be in progress at once. -/
  partialDepthLimit : Nat := 64
deriving DecidableEq

namespace Options

def standard : Options := {}

/-- The name of the template in diagnostics, or a stand-in for it. -/
def label (o : Options) : String :=
  o.file.getD "<template>"

end Options
end Mustache
