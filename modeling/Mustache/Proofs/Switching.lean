import Mustache.Proofs.Concatenation

namespace Mustache

namespace Text

variable {needle xs ys : List Char}

/-- A needle whose first character does not come again in it cannot overlap itself. Behind a text in
which it does not occur it is found where that text ends. -/
theorem leftmost_of_absent {first : Char} {others : List Char} (h : first ∉ others)
    (absent : ¬(first :: others) <:+: xs) (ys : List Char) :
    Leftmost (first :: others) (xs ++ first :: others ++ ys) xs ys := by
  refine ⟨rfl, fun b a ho => ?_⟩
  by_contra hlt
  rw [List.append_assoc, List.append_assoc] at ho
  rcases List.append_eq_append_iff.mp ho with ⟨p, rfl, -⟩ | ⟨p, rfl, hneedle⟩
  · rw [List.length_append] at hlt
    omega
  rcases List.append_eq_append_iff.mp hneedle with ⟨q, rfl, -⟩ | ⟨q, hsplit, hrest⟩
  · exact absent ⟨b, q, List.append_assoc b _ q⟩
  -- The two occurrences would overlap in `q`, which starts as the needle does.
  cases q with
  | nil =>
    rw [List.append_nil] at hsplit
    exact absent ⟨b, [], by rw [hsplit, List.append_nil]⟩
  | cons c q =>
    obtain ⟨rfl, -⟩ := List.cons.inj hrest
    cases p with
    | nil =>
      rw [List.append_nil] at hlt
      omega
    | cons d p =>
      obtain ⟨-, rfl⟩ := List.cons.inj hsplit
      exact h (by simp)

/-- A needle does not lie across a character that is not in it. -/
theorem not_infix_append_cons {c : Char} (hc : c ∉ needle) (hxs : ¬needle <:+: xs)
    (hys : ¬needle <:+: ys) : ¬needle <:+: xs ++ c :: ys := by
  rintro ⟨b, a, h⟩
  rcases List.append_eq_append_iff.mp h with ⟨p, hp, -⟩ | ⟨p, hp, hrest⟩
  · exact hxs ⟨b, p, hp.symm⟩
  cases p with
  | nil => exact hxs ⟨b, [], by rw [hp, List.append_nil, List.append_nil]⟩
  | cons d p =>
    obtain ⟨rfl, rfl⟩ := List.cons.inj hrest
    rcases List.append_eq_append_iff.mp hp with ⟨q, -, hneedle⟩ | ⟨q, -, hneedle⟩
    · exact hc (by simp [hneedle])
    cases q with
    | nil => exact hc (by simp [show needle = _ from hneedle.symm])
    | cons e q =>
      obtain ⟨-, rfl⟩ := List.cons.inj hneedle
      exact hys ⟨q, a, rfl⟩

end Text

theorem Marker.chars_of_ofText {s : String} {m : Marker} (h : Marker.ofText s = .ok m) :
    m.chars = s.toList := by
  unfold ofText at h
  split at h
  · cases h
  · split at h
    · cases h
      rfl
    · cases h

namespace Delimiters

theorem chars_of_ofTexts {opening closing : String} {tags : Delimiters}
    (h : ofTexts opening closing = .ok tags) :
    tags.opening.chars = opening.toList ∧ tags.closing.chars = closing.toList := by
  simp only [ofTexts, bind, Except.bind] at h
  split at h
  · cases h
  next first hfirst =>
    split at h
    · cases h
    next second hsecond =>
      cases h
      exact ⟨Marker.chars_of_ofText hfirst, Marker.chars_of_ofText hsecond⟩

theorem words_source (tags : Delimiters) :
    Text.words (tags.opening.chars ++ ' ' :: tags.closing.chars) =
      [tags.opening.chars, tags.closing.chars] := by
  have hspace : ∀ c ∈ (' ' :: tags.closing.chars).head?, Text.isWhiteSpace c := by
    intro c hc
    cases hc
    rfl
  have hlast : Text.words (tags.closing.chars ++ []) = tags.closing.chars :: Text.words [] :=
    Text.words_append_of_solid tags.closing.nonempty tags.closing.solid nofun
  rw [List.append_nil] at hlast
  rw [Text.words_append_of_solid tags.opening.nonempty tags.opening.solid hspace,
    Text.words_cons_of_white rfl, hlast]
  rfl

theorem ofSwitch?_source (tags : Delimiters) :
    ofSwitch? (tags.opening.chars ++ ' ' :: tags.closing.chars) = some tags := by
  have hwords := tags.words_source
  unfold ofSwitch?
  split
  next h =>
    rw [hwords] at h
    cases h
  next first rest h =>
    obtain ⟨rfl, rfl⟩ := List.cons.inj (hwords.symm.trans h)
    rfl

/-- A tag that switches from the standard delimiters to these. -/
def switch (tags : Delimiters) : List Char :=
  standard.opening.chars ++ Sigil.delimiterSwitch.chars ++
    (tags.opening.chars ++ ' ' :: tags.closing.chars) ++
    Sigil.delimiterSwitch.ending standard.closing

theorem count_newline_switch (tags : Delimiters) : tags.switch.count '\n' = 0 := by
  have hsolid (m : Marker) : m.chars.count '\n' = 0 := by
    rw [List.count_eq_zero]
    intro hmem
    have hwhite := m.solid '\n' hmem
    cases hwhite
  simp [switch, hsolid, Sigil.chars, Sigil.ending]

/-- Neither of the markers holds what ends a switch of the standard delimiters. -/
def Switchable (tags : Delimiters) : Prop :=
  ¬['=', '}', '}'] <:+: tags.opening.chars ∧ ¬['=', '}', '}'] <:+: tags.closing.chars

theorem breakOn_source {tags : Delimiters} (h : tags.Switchable) (more : List Char) :
    Text.breakOn ['=', '}', '}']
        ((tags.opening.chars ++ ' ' :: tags.closing.chars) ++ ['=', '}', '}'] ++ more) =
      some (tags.opening.chars ++ ' ' :: tags.closing.chars, more) := by
  have absent := Text.not_infix_append_cons (c := ' ') (by decide) h.1 h.2
  exact Text.breakOn_eq_some_iff.mpr (Text.leftmost_of_absent (by decide) absent more)

/-- Behind a tag that switches to them, a template is scanned as with these delimiters from the
start. -/
theorem scan_behind_switch {tags : Delimiters} (h : tags.Switchable) (template : List Char) :
    ∃ t : Tag, t.sigil = .delimiterSwitch ∧
      Mustache.scan (tags.switch ++ template) .standard =
        ⟨.tag t :: (Mustache.scan template tags).items.map (·.shift (.over tags.switch)),
          (Mustache.scan template tags).fault.map (·.shift (.over tags.switch))⟩ := by
  let c := Cursor.start (tags.switch ++ template) .standard
  let source := tags.opening.chars ++ ' ' :: tags.closing.chars
  let inner := '=' :: (source ++ ['=', '}', '}'] ++ template)
  have hrest : c.rest = c.tags.opening.chars ++ inner := by
    simp only [c, Cursor.start, switch, inner, source, List.append_assoc]
    rfl
  have opens : Text.Leftmost c.tags.opening.chars c.rest [] inner :=
    ⟨hrest, fun _ _ _ => Nat.zero_le _⟩
  let t : Tag := ⟨.delimiterSwitch, source, 1, ⟨0, Text.byteLength tags.switch⟩⟩
  let next := (Cursor.start template tags).shift (.over tags.switch)
  have hsplit : Sigil.split inner =
      (.delimiterSwitch, source ++ ['=', '}', '}'] ++ template) := rfl
  have hread : c.readTag inner = .found (.tag t) next := by
    refine (Cursor.readTag_eq_found_iff hsplit).mpr
      ⟨source, template, tags, breakOn_source h template, ofSwitch?_source tags, ?_, ?_⟩
    · simp only [t, c, Cursor.advance, Cursor.start, Nat.zero_add]
      rfl
    · simp only [next, c, Cursor.shift, Shift.over, Cursor.start, Cursor.advance]
      rfl
  have hhere : c.advance [] (c.tags.opening.chars ++ inner) = c := by
    rw [← hrest]
    rfl
  rw [← hhere] at hread
  obtain ⟨passed, meets⟩ := Cursor.meets_of_readTag opens hread
  have hscan := meets.scan_eq
  rw [Cursor.shift_scan] at hscan
  exact ⟨t, rfl, hscan⟩

end Delimiters

namespace Piece

variable {tags : Delimiters}

theorem ofTemplate_behind_switch (h : tags.Switchable) (template : List Char) :
    ofTemplate (tags.switch ++ template) .standard =
      match ofTemplate template tags with
      | .error site => .error (site.shift (.over tags.switch))
      | .ok pieces => .ok (.silent :: pieces) := by
  obtain ⟨t, hsigil, hscan⟩ := tags.scan_behind_switch h template
  have ht : t.piece (tags.switch ++ template) [] = .ok (.silent, []) := by
    simp only [Tag.piece, hsigil]
  have hitems := Item.pieces_shift tags.switch template [] (scan template tags).items
  rw [List.map_nil] at hitems
  simp only [ofTemplate, hscan, Item.pieces, ht, bind, Except.bind, hitems]
  cases Item.pieces template [] (scan template tags).items with
  | error site => rfl
  | ok found =>
    obtain ⟨pieces, sections⟩ := found
    cases (scan template tags).fault with
    | some site => rfl
    | none => cases sections <;> rfl

theorem ofTemplate_newline (tags : Delimiters) (template : List Char) :
    ofTemplate ('\n' :: template) tags =
      match ofTemplate template tags with
      | .error site => .error (site.shift (.over ['\n']))
      | .ok pieces => .ok (.newline :: pieces) := by
  have absent : ¬tags.opening.chars <:+: ['\n'] :=
    Marker.not_infix_of_white fun c hc => by rw [List.mem_singleton.mp hc]; rfl
  have hscan : scan ['\n'] tags = ⟨[.text ['\n']], none⟩ := Cursor.scan_of_absent absent
  have hnewline : ofTemplate ['\n'] tags = .ok [.newline] := by
    rw [ofTemplate_eq_ok_iff, hscan]
    exact ⟨rfl, rfl⟩
  have restored : tags.atEnd ['\n'] = tags := by
    rw [Delimiters.atEnd, hscan]
    rfl
  have ends : Text.EndsLine ['\n'] := by simp [Text.EndsLine]
  exact ofTemplate_append ends hnewline restored template

theorem ofTemplate_behind_switch_line (h : tags.Switchable) (template : List Char) :
    ofTemplate (tags.switch ++ '\n' :: template) .standard =
      match ofTemplate template tags with
      | .error site => .error (site.shift (.over (tags.switch ++ ['\n'])))
      | .ok pieces => .ok (.silent :: .newline :: pieces) := by
  rw [ofTemplate_behind_switch h, ofTemplate_newline]
  cases ofTemplate template tags with
  | ok pieces => rfl
  | error site =>
    simp only [FaultSite.shift, Span.shift, Shift.over, Text.byteLength_append, List.count_append,
      Nat.add_assoc, Nat.add_comm]

/-- A line with nothing but a silent tag is elided as a whole. -/
theorem strip_silent_line (pieces : List Piece) :
    strip (.silent :: .newline :: pieces) = .silent :: strip pieces := by
  have ends : EndsLine [.silent, .newline] := by simp [EndsLine]
  exact strip_append ends pieces

end Piece

/-- Two outcomes of compiling: of a template that has another one at its end, behind something that
leaves nothing, and of that one alone. -/
structure Shift.Moves (d : Shift) (behind alone : Except CompileError Program) : Prop where
  programs : ∀ program, behind = .ok program ↔ alone = .ok program
  errors : ∀ e, alone = .error e → ∃ e', behind = .error e' ∧ e'.fault = e.fault ∧
    e'.location.file = e.location.file ∧ e'.location.line = e.location.line + d.lines ∧
    e'.location.span = e.location.span.shift d

theorem Shift.moves_of_ofTemplate {d : Shift} {text text' : String} {options options' : Options}
    (first : List Piece) (label : options'.label = options.label)
    (h : Piece.ofTemplate text'.toList options'.tags =
      match Piece.ofTemplate text.toList options.tags with
      | .error site => .error (site.shift d)
      | .ok pieces => .ok (first ++ pieces))
    (same : ∀ pieces, Program.ofPieces (options'.kept (first ++ pieces)) =
      Program.ofPieces (options.kept pieces)) :
    d.Moves (parse text' options') (parse text options) := by
  cases halone : Piece.ofTemplate text.toList options.tags with
  | ok pieces =>
    rw [halone] at h
    rw [parse_of_ok h, parse_of_ok halone, same]
    exact ⟨fun _ => Iff.rfl, nofun⟩
  | error site =>
    rw [halone] at h
    rw [parse_of_error h, parse_of_error halone, label]
    refine ⟨fun _ => ⟨nofun, nofun⟩, ?_⟩
    rintro _ ⟨⟩
    exact ⟨_, rfl, rfl, rfl, rfl, rfl⟩

/-- A tag at the start that switches the delimiters does what configuring them does, on a line of
its own if white space is elided: the programs are the same, and so are the faults, farther on. -/
theorem switch_agrees_with_configured {opening closing : String} {tags : Delimiters}
    (valid : Delimiters.ofTexts opening closing = .ok tags)
    (hopening : ¬['=', '}', '}'] <:+: opening.toList)
    (hclosing : ¬['=', '}', '}'] <:+: closing.toList)
    (options : Options) (text : String) :
    let switch := String.ofList ['{', '{', '='] ++ opening ++ " " ++ closing ++
      String.ofList ['=', '}', '}']
    Shift.Moves ⟨Text.byteLength (switch ++ "\n").toList, 1⟩
        (parse (switch ++ "\n" ++ text)
          { options with tags := .standard, preserveWhitespace := false })
        (parse text { options with tags, preserveWhitespace := false }) ∧
      Shift.Moves ⟨Text.byteLength switch.toList, 0⟩
        (parse (switch ++ text) { options with tags := .standard, preserveWhitespace := true })
        (parse text { options with tags, preserveWhitespace := true }) := by
  intro switch
  obtain ⟨ho, hc⟩ := Delimiters.chars_of_ofTexts valid
  have switchable : tags.Switchable := by
    rw [Delimiters.Switchable, ho, hc]
    exact ⟨hopening, hclosing⟩
  have hswitch : switch.toList = tags.switch := by
    simp only [switch, Delimiters.switch, String.toList_append, String.toList_ofList, ← ho, ← hc,
      List.append_assoc]
    rfl
  constructor
  · have hline : (switch ++ "\n" ++ text).toList = tags.switch ++ '\n' :: text.toList := by
      rw [String.toList_append, String.toList_append, hswitch, List.append_assoc]
      rfl
    have hover : Shift.over (tags.switch ++ ['\n']) =
        ⟨Text.byteLength (switch ++ "\n").toList, 1⟩ := by
      rw [Shift.over, List.count_append, tags.count_newline_switch, String.toList_append, hswitch]
      rfl
    refine Shift.moves_of_ofTemplate [.silent, .newline] rfl ?_ fun pieces => ?_
    · rw [hline, ← hover]
      exact Piece.ofTemplate_behind_switch_line switchable text.toList
    · have hstrip := congrArg Program.ofPieces (Piece.strip_silent_line pieces)
      exact hstrip
  · have hover : Shift.over tags.switch = ⟨Text.byteLength switch.toList, 0⟩ := by
      rw [Shift.over, tags.count_newline_switch, hswitch]
    refine Shift.moves_of_ofTemplate [.silent] rfl ?_ fun pieces => rfl
    rw [← hover, String.toList_append, hswitch]
    exact Piece.ofTemplate_behind_switch switchable text.toList

/-- Markers with the characters of the switch, of other tags and of more than one byte. -/
theorem switch_agrees_with_braces :
    ¬['=', '}', '}'] <:+: "=<é#".toList ∧ ¬['=', '}', '}'] <:+: "|=".toList ∧
      ∃ tags, Delimiters.ofTexts "=<é#" "|=" = .ok tags ∧
        parse "=<é##a|=x =<é#{b}|=\n=<é#/a|==" { tags } =
          .ok ⟨[.openSection "a" false 3 "x =<é#{b}|=\n", .literal "x ", .unescaped "b",
            .literal "\n", .closeSection "a", .literal "="]⟩ ∧
        parse "{{==<é# |==}}\n=<é##a|=x =<é#{b}|=\n=<é#/a|==" .standard =
          .ok ⟨[.openSection "a" false 3 "x =<é#{b}|=\n", .literal "x ", .unescaped "b",
            .literal "\n", .closeSection "a", .literal "="]⟩ := by
  have hopening : ¬['=', '}', '}'] <:+: "=<é#".toList := by decide +kernel
  have hclosing : ¬['=', '}', '}'] <:+: "|=".toList := by decide +kernel
  obtain ⟨tags, valid⟩ : ∃ tags, Delimiters.ofTexts "=<é#" "|=" = .ok tags := ⟨_, rfl⟩
  have configured : parse "=<é##a|=x =<é#{b}|=\n=<é#/a|==" { tags } =
      .ok ⟨[.openSection "a" false 3 "x =<é#{b}|=\n", .literal "x ", .unescaped "b",
        .literal "\n", .closeSection "a", .literal "="]⟩ := by
    cases valid
    rw [parse_eq_ok_iff]
    decide +kernel
  have moves := (switch_agrees_with_configured valid hopening hclosing .standard
    "=<é##a|=x =<é#{b}|=\n=<é#/a|==").1
  exact ⟨hopening, hclosing, tags, valid, configured, (moves.programs _).mpr configured⟩

end Mustache
