import Mustache.Proofs.Enclosing
import Mustache.Proofs.Unclaimed

namespace Mustache

namespace Op

variable {ops ops' : List Op}

theorem isOpening_withoutRaw (op : Op) : op.withoutRaw.isOpening = op.isOpening := by
  cases op <;> rfl

theorem Alike.countP_isOpening (h : Alike ops ops') :
    ops'.countP isOpening = ops.countP isOpening := by
  have hcount := congrArg (List.countP isOpening) h
  simpa only [List.countP_map, Function.comp_def, isOpening_withoutRaw] using hcount

theorem Alike.getElem?_openSection (h : Alike ops ops') {i n : Nat} {name raw : String}
    {inverted : Bool} (hi : ops[i]? = some (.openSection name inverted n raw)) :
    ∃ raw', ops'[i]? = some (.openSection name inverted n raw') := by
  have hget := congrArg (·[i]?) h
  simp only [List.getElem?_map, hi, Option.map_some] at hget
  obtain ⟨op', hi', hop⟩ := Option.map_eq_some_iff.mp hget
  rcases eq_or_sections_of_withoutRaw hop with rfl | ⟨_, _, _, _, raw', hsection, rfl⟩
  · exact ⟨raw, hi'⟩
  · cases hsection
    exact ⟨raw', hi'⟩

end Op

namespace LineStart

variable {options : Options} {text : String} {before after : List Char} {tags : Delimiters}
  {program program' : Program}

/-- With a comment inserted, a template is compiled to the same but for the sources of sections. -/
theorem parse_insert (starts : LineStart text.toList options.tags before after tags)
    (plain : options.preserveWhitespace = false) (line : CommentLine tags)
    (compiles : parse text options = .ok program) :
    ∃ program', parse (String.ofList (before ++ line.chars ++ after)) options = .ok program' ∧
      Op.Alike program.ops program'.ops := by
  obtain ⟨pieces, hpieces, rfl⟩ := exists_pieces_of_parse compiles
  rw [starts.template_eq] at hpieces
  obtain ⟨first, others, others', rfl, ends, hinserted, hraw⟩ :=
    starts.wholeLines.ofTemplate_insert line hpieces
  rw [← String.toList_ofList (l := before ++ line.chars ++ after)] at hinserted
  refine ⟨_, parse_of_ok hinserted, ?_⟩
  have hkept (pieces : List Piece) : options.kept pieces = Piece.strip pieces := by
    rw [Options.kept, plain]
    rfl
  rw [Op.Alike, hkept, hkept]
  exact Program.ofPieces_strip_insert ends (line.endsLine_pieces first) line.strip_pieces hraw

theorem exists_parse_of_insert (starts : LineStart text.toList options.tags before after tags)
    (line : CommentLine tags)
    (compiles : parse (String.ofList (before ++ line.chars ++ after)) options = .ok program') :
    ∃ program, parse text options = .ok program := by
  obtain ⟨pieces', hpieces', -⟩ := exists_pieces_of_parse compiles
  rw [String.toList_ofList] at hpieces'
  obtain ⟨pieces, hpieces⟩ := starts.wholeLines.ofTemplate_of_insert line hpieces'
  rw [← starts.template_eq] at hpieces
  exact ⟨_, parse_of_ok hpieces⟩

/-- The source of a section has the inserted line in it exactly if the section encloses the place
where the line is inserted. -/
theorem raw_insert (starts : LineStart text.toList options.tags before after tags)
    (line : CommentLine tags) (compiles : parse text options = .ok program)
    (compiles' : parse (String.ofList (before ++ line.chars ++ after)) options = .ok program')
    (alike : Op.Alike program.ops program'.ops) {i n : Nat} {name raw raw' : String}
    {inverted : Bool} (hi : program.ops[i]? = some (.openSection name inverted n raw))
    (hi' : program'.ops[i]? = some (.openSection name inverted n raw')) :
    ∃ s : Item.Section (scan text.toList options.tags).items, s.opening.name = name ∧
      (s.before.filterMap Item.tag?).countP Tag.opens =
        (program.ops.take i).countP Op.isOpening ∧
      (s.Encloses (Text.byteLength before) → ∃ u v, raw.toList = u ++ v ∧
        raw'.toList = u ++ line.chars ++ v ∧
        s.opening.span.stop + Text.byteLength u = Text.byteLength before) ∧
      (¬s.Encloses (Text.byteLength before) → raw' = raw) := by
  obtain ⟨pieces, hpieces, rfl⟩ := exists_pieces_of_parse compiles
  obtain ⟨pieces', hpieces', rfl⟩ := exists_pieces_of_parse compiles'
  have htemplate := starts.template_eq
  have whole := starts.wholeLines
  generalize text.toList = template at *
  subst htemplate
  rw [String.toList_ofList] at hpieces'
  obtain ⟨s, hname, hcount, hraw⟩ := Program.exists_section hpieces hi
  obtain ⟨s', -, hcount', hraw'⟩ := Program.exists_section hpieces' hi'
  have same : (s'.before.filterMap Item.tag?).countP Tag.opens =
      (s.before.filterMap Item.tag?).countP Tag.opens := by
    rw [hcount, hcount', (alike.take i).countP_isOpening]
  obtain ⟨sound, -⟩ := Piece.ofTemplate_eq_ok_iff.mp hpieces
  obtain ⟨inside, outside⟩ := whole.raw_insert line sound s s' same
  refine ⟨s, hname, hcount, ?_, ?_⟩
  · rw [hraw, hraw', String.toList_ofList, String.toList_ofList]
    exact inside
  · intro hout
    rw [hraw, hraw', outside hout]

end LineStart

theorem Template.program_eq (template : Template) {text : String} {options : Options}
    {program : Program} (htext : template.text = text) (hoptions : template.options = options)
    (compiles : parse text options = .ok program) : template.program = program := by
  have hcompiled := template.compiled
  rw [htext, hoptions, compiles] at hcompiled
  exact (Except.ok.inj hcompiled).symm

/-- A standalone comment is invisible. A line with nothing but a comment can be inserted wherever a
line starts outside of tags: the template is still accepted or refused, and its operations are the
same, but that the source of a section goes on with the line where the section encloses the place.
Where no section is taken over by a lambda, which could look at its source, a sink gets the same. -/
theorem comment_lines_invisible (text : String) (options : Options)
    (plain : options.preserveWhitespace = false) {before after : List Char} {tags : Delimiters}
    (starts : LineStart text.toList options.tags before after tags) (line : CommentLine tags) :
    let text' := String.ofList (before ++ line.chars ++ after)
    ((∃ program', parse text' options = .ok program') ↔
      ∃ program, parse text options = .ok program) ∧
    ∀ program program', parse text options = .ok program → parse text' options = .ok program' →
      program'.ops.map Op.withoutRaw = program.ops.map Op.withoutRaw ∧
      (∀ i n name raw inverted, program.ops[i]? = some (.openSection name inverted n raw) →
        ∃ raw', program'.ops[i]? = some (.openSection name inverted n raw') ∧
        ∃ s : Item.Section (scan text.toList options.tags).items, s.opening.name = name ∧
          (s.before.filterMap Item.tag?).countP Tag.opens =
            (program.ops.take i).countP Op.isOpening ∧
          (s.Encloses (Text.byteLength before) → ∃ u v, raw.toList = u ++ v ∧
            raw'.toList = u ++ line.chars ++ v ∧
            s.opening.span.stop + Text.byteLength u = Text.byteLength before) ∧
          (¬s.Encloses (Text.byteLength before) → raw' = raw)) ∧
      ∀ template template' : Template, template.text = text → template'.text = text' →
        template.options = options → template'.options = options →
          ∀ (view : Value) (partials : Partials) (lambdas : Lambdas),
            (∀ before depth task,
              (Setting.mk partials lambdas options.partialDepthLimit).Reaches 0
                  (.ops program.ops (.ofView view) 0) before depth task →
                (Setting.mk partials lambdas options.partialDepthLimit).Unclaimed task) →
            ∀ (pool pool' : Pool) {σ : Type} (sink : Sink σ) (s : σ),
              let r := pool.stream template view partials lambdas sink s
              let r' := pool'.stream template' view partials lambdas sink s
              (r'.1, r'.2.1) = (r.1, r.2.1) := by
  intro text'
  refine ⟨⟨?_, ?_⟩, ?_⟩
  · rintro ⟨program', compiles'⟩
    exact starts.exists_parse_of_insert line compiles'
  · rintro ⟨program, compiles⟩
    obtain ⟨program', compiles', -⟩ := starts.parse_insert plain line compiles
    exact ⟨program', compiles'⟩
  intro program program' compiles compiles'
  obtain ⟨found, hfound, alike⟩ := starts.parse_insert plain line compiles
  cases hfound.symm.trans compiles'
  refine ⟨alike, ?_, ?_⟩
  · intro i n name raw inverted hi
    obtain ⟨raw', hi'⟩ := alike.getElem?_openSection hi
    exact ⟨raw', hi', starts.raw_insert line compiles compiles' alike hi hi'⟩
  · intro template template' htext htext' hoptions hoptions' view partials lambdas unclaimed pool
      pool' σ sink s
    have hprogram : template.program = program := template.program_eq htext hoptions compiles
    have hprogram' : template'.program = program' :=
      template'.program_eq htext' hoptions' compiles'
    apply pool.stream_eq_of_alike pool' view partials lambdas
    · rw [hoptions, hoptions']
    · rw [hprogram, hprogram']
      exact alike
    · rw [hprogram, hoptions]
      exact unclaimed

/-- A comment of two lines, inserted in a section behind a switch of delimiters. -/
theorem comment_in_section_behind_switch :
    let text := "é{{=<% %>=}}\n<%#a%>\nx%\n<%/a%><%#b%>y<%/b%>"
    let text' := "é{{=<% %>=}}\n<%#a%>\nx%\n \t<%! two\n % lines%>\r\n<%/a%><%#b%>y<%/b%>"
    let view := Value.map [("a", .bool true), ("b", .string "z")]
    let lambdas : Lambdas := ⟨fun _ v => v, fun _ call => .done (.ok call.text)⟩
    ∃ template template' : Template, template.text = text ∧ template'.text = text' ∧
      template.program.ops = [.literal "é\n", .openSection "a" false 1 "\nx%\n", .literal "x%\n",
        .closeSection "a", .openSection "b" false 1 "y", .literal "y", .closeSection "b"] ∧
      template'.program.ops = [.literal "é\n",
        .openSection "a" false 1 "\nx%\n \t<%! two\n % lines%>\r\n", .literal "x%\n",
        .closeSection "a", .openSection "b" false 1 "y", .literal "y", .closeSection "b"] ∧
      ∀ (partials : Partials) (pool pool' : Pool) (chunks : List String),
        let r := pool.stream template view partials lambdas .patient chunks
        let r' := pool'.stream template' view partials lambdas .patient chunks
        (r'.1, r'.2.1) = (r.1, r.2.1) := by
  intro text text' view lambdas
  have compiles : parse text .standard = .ok ⟨[.literal "é\n",
      .openSection "a" false 1 "\nx%\n", .literal "x%\n", .closeSection "a",
      .openSection "b" false 1 "y", .literal "y", .closeSection "b"]⟩ := by
    rw [parse_eq_ok_iff]
    decide +kernel
  have compiles' : parse text' .standard = .ok ⟨[.literal "é\n",
      .openSection "a" false 1 "\nx%\n \t<%! two\n % lines%>\r\n", .literal "x%\n",
      .closeSection "a", .openSection "b" false 1 "y", .literal "y", .closeSection "b"]⟩ := by
    rw [parse_eq_ok_iff]
    decide +kernel
  let tags : Delimiters := (Delimiters.ofSwitch? "<% %>".toList).getD .standard
  let line : CommentLine tags := ⟨" \t".toList, " two\n % lines".toList, "\r".toList,
    List.all_eq_true.mp (by decide +kernel), List.all_eq_true.mp (by decide +kernel),
    CommentLine.eq_nil_of_breakOn (by decide +kernel)⟩
  let before : List Char := "é{{=<% %>=}}\n<%#a%>\nx%".toList ++ ['\n']
  let after : List Char := "<%/a%><%#b%>y<%/b%>".toList
  have htext : text.toList = before ++ after := by decide +kernel
  have starts : LineStart text.toList .standard before after tags := by
    refine lineStart_iff.mpr ⟨htext, Text.endsLine_concat _, ?_, ?_⟩
    · decide +kernel
    · decide +kernel
  have htext' : text' = String.ofList (before ++ line.chars ++ after) := by
    decide +kernel
  obtain ⟨-, same⟩ := comment_lines_invisible text .standard rfl starts line
  rw [← htext'] at same
  obtain ⟨-, -, rendered⟩ := same _ _ compiles compiles'
  refine ⟨⟨text, .standard, _, ⟨0, 0⟩, compiles⟩, ⟨text', .standard, _, ⟨0, 0⟩, compiles'⟩,
    rfl, rfl, rfl, rfl, ?_⟩
  intro partials pool pool' chunks
  have plain : view.Plain := by
    refine .map fun key value hentry => ?_
    simp only [List.mem_cons, List.not_mem_nil, or_false, Prod.mk.injEq] at hentry
    rcases hentry with ⟨-, rfl⟩ | ⟨-, rfl⟩
    · exact .bool true
    · exact .string "z"
  refine rendered _ _ rfl rfl rfl rfl view partials lambdas ?_ pool pool' .patient chunks
  intro before depth task reached
  exact Setting.unclaimed_of_plain (fun _ _ h => h)
    (reached.plain (fun _ _ h => h) (Scopes.plain_ofView plain))

end Mustache
