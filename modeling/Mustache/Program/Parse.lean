import Mustache.Options
import Mustache.Program.Assemble

namespace Mustache

/-- The pieces that count: without the white space of standalone lines unless it is preserved. -/
def Options.kept (options : Options) (pieces : List Piece) : List Piece :=
  if options.preserveWhitespace then pieces else Piece.strip pieces

/-- The program of a template, or the site of its first fault. -/
def Program.ofTemplate (template : List Char) (options : Options) : Except FaultSite Program := do
  let pieces ← Piece.ofTemplate template options.tags
  return Program.ofPieces (options.kept pieces)

/-- Compiles a template without regard to any cache. -/
def parse (template : String) (options : Options) : Except CompileError Program :=
  (Program.ofTemplate template.toList options).mapError
    (·.inTemplate template.toList options.label)

theorem parse_of_ok {text : String} {options : Options} {pieces : List Piece}
    (h : Piece.ofTemplate text.toList options.tags = .ok pieces) :
    parse text options = .ok (Program.ofPieces (options.kept pieces)) := by
  simp only [parse, Program.ofTemplate, h]
  rfl

theorem parse_eq_ok_iff {text : String} {options : Options} {program : Program} :
    parse text options = .ok program ↔
      (Program.ofTemplate text.toList options).toOption = some program := by
  unfold parse
  cases Program.ofTemplate text.toList options with
  | error site => exact ⟨nofun, nofun⟩
  | ok found => exact ⟨fun | rfl => rfl, fun | rfl => rfl⟩

theorem parse_of_error {text : String} {options : Options} {site : FaultSite}
    (h : Piece.ofTemplate text.toList options.tags = .error site) :
    parse text options = .error (site.inTemplate text.toList options.label) := by
  simp only [parse, Program.ofTemplate, h]
  rfl

theorem exists_pieces_of_parse {text : String} {options : Options} {program : Program}
    (h : parse text options = .ok program) :
    ∃ pieces, Piece.ofTemplate text.toList options.tags = .ok pieces ∧
      program = .ofPieces (options.kept pieces) := by
  cases hp : Piece.ofTemplate text.toList options.tags with
  | error site =>
    rw [parse_of_error hp] at h
    cases h
  | ok pieces =>
    rw [parse_of_ok hp] at h
    cases h
    exact ⟨pieces, rfl, rfl⟩

theorem exists_site_of_parse {text : String} {options : Options} {e : CompileError}
    (h : parse text options = .error e) :
    ∃ site, Piece.ofTemplate text.toList options.tags = .error site ∧
      e = site.inTemplate text.toList options.label := by
  cases hp : Piece.ofTemplate text.toList options.tags with
  | ok pieces =>
    rw [parse_of_ok hp] at h
    cases h
  | error site =>
    rw [parse_of_error hp] at h
    cases h
    exact ⟨site, rfl, rfl⟩

end Mustache
