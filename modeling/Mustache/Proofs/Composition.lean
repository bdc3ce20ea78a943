import Mustache.Proofs.Fusion

namespace Mustache

namespace Transcript

/-- One text and then another, unless an error comes before. -/
def textThen (x y : Except RenderError String) : Except RenderError String := do
  let first ← x
  let second ← y
  return first ++ second

@[simp] theorem text_write (s : String) : (write s).text = .ok s := by
  unfold write text
  split
  next h =>
    rw [h]
    rfl
  next => simp [Except.map]

theorem text_bind (t u : Transcript Unit) :
    (t.bind fun _ => u).text = textThen t.text u.text := by
  obtain ⟨chunks, ending⟩ := t
  cases ending with
  | error e => rfl
  | ok a =>
    obtain ⟨later, ending⟩ := u
    cases ending with
    | error e => rfl
    | ok b => simp [bind, text, textThen, Except.map, Bind.bind, Except.bind, pure, Except.pure]

theorem textThen_assoc (x y z : Except RenderError String) :
    textThen (textThen x y) z = textThen x (textThen y z) := by
  cases x with
  | error e => rfl
  | ok x =>
    cases y with
    | error e => rfl
    | ok y =>
      cases z with
      | error e => rfl
      | ok z => simp [textThen, Bind.bind, Except.bind, pure, Except.pure, String.append_assoc]

end Transcript

namespace Setting

open Transcript

variable {setting : Setting} {eval? : Option Evaluator}

theorem evaluateAll_append (xs ys : List Node) (scopes : Scopes) (nesting : Nat) :
    setting.evaluateAll eval? (xs ++ ys) scopes nesting =
      (setting.evaluateAll eval? xs scopes nesting).bind fun _ =>
        setting.evaluateAll eval? ys scopes nesting := by
  induction xs with
  | nil => rfl
  | cons node nodes ih => rw [List.cons_append, evaluateAll, evaluateAll, ih, bind_assoc]

theorem text_evaluateAll_text (s : String) (nodes : List Node) (scopes : Scopes) (nesting : Nat) :
    (setting.evaluateAll eval? (.text s :: nodes) scopes nesting).text =
      textThen (.ok s) (setting.evaluateAll eval? nodes scopes nesting).text := by
  rw [evaluateAll, text_bind, evaluate, text_write]

/-- A text that goes on makes another chunk of it, but the same text. -/
theorem text_evaluateAll_join (before : List Node) (text : String) (nodes : List Node)
    (scopes : Scopes) (nesting : Nat) :
    (setting.evaluateAll eval? (Node.join before text nodes) scopes nesting).text =
      textThen
        (setting.evaluateAll eval? (Node.Growth.settled ⟨before, text, []⟩) scopes nesting).text
        (setting.evaluateAll eval? nodes scopes nesting).text := by
  rcases Node.join_cases before text nodes with ⟨s, rest, rfl, hsettled, hjoin⟩ | ⟨-, hjoin⟩
  · have hlast : (setting.evaluateAll eval? [.text text] scopes nesting).text = .ok text := by
      rw [text_evaluateAll_text]
      exact congrArg Except.ok String.append_empty
    rw [hjoin, hsettled, evaluateAll_append, evaluateAll_append, text_bind, text_bind, hlast,
      text_evaluateAll_text, text_evaluateAll_text, textThen_assoc, ← textThen_assoc (.ok text)]
    rfl
  · rw [hjoin, evaluateAll_append, text_bind]

theorem text_evaluator_join (depth : Nat) (before : List Node) (text : String) (nodes : List Node)
    (scopes : Scopes) (nesting : Nat) :
    (setting.evaluator depth (Node.join before text nodes) scopes nesting).text =
      textThen
        (setting.evaluator depth (Node.Growth.settled ⟨before, text, []⟩) scopes nesting).text
        (setting.evaluator depth nodes scopes nesting).text := by
  cases depth with
  | zero => exact text_evaluateAll_join before text nodes scopes nesting
  | succ depth => exact text_evaluateAll_join before text nodes scopes nesting

theorem transcript_rendering {program : Program} {nodes : List Node}
    (h : program.ops = Node.flattenAll nodes) (view : Value) :
    (setting.rendering program view).transcript = setting.evaluation nodes view := by
  rw [rendering, h, evaluation]
  exact setting.refines_runner setting.depthLimit nodes (.ofView view) 0

end Setting

/-- A rendering to a text gives the text of the transcript. -/
theorem Pool.render_eq_text (pool : Pool) (template : Template) (view : Value)
    (partials : Partials) (lambdas : Lambdas) :
    (pool.render template view partials lambdas).1 =
      ((Setting.mk partials lambdas template.options.partialDepthLimit).rendering
        template.program view).transcript.text := by
  have hr := pool.stream_eq_deliver template view partials lambdas .joined ""
  generalize ((Setting.mk partials lambdas template.options.partialDepthLimit).rendering
    template.program view).transcript = course at hr ⊢
  rw [Transcript.deliver, Sink.feed_joined] at hr
  obtain ⟨hresult, htext⟩ := Prod.mk.inj hr
  rw [Pool.render, Transcript.text]
  simp only [hresult, htext]
  cases course.ending <;> rfl

theorem endsLine_of_newline {a : String} (h : a = "" ∨ ∃ lines, a = lines ++ "\n") :
    Text.EndsLine a.toList := by
  rcases h with rfl | ⟨lines, rfl⟩
  · exact nofun
  · intro c hc
    rw [String.toList_append, List.getLast?_append] at hc
    cases hc
    rfl

section Lines

variable {options : Options} {a b : String} {first second : Program}

/-- The nodes of two templates, and of one behind the other. -/
theorem exists_nodes_of_append (ends : Text.EndsLine a.toList)
    (compiles : parse a options = .ok first)
    (restored : options.tags.atEnd a.toList = options.tags)
    (compiles' : parse b options = .ok second) :
    ∃ before text nodes, first.ops = Node.flattenAll (Node.Growth.settled ⟨before, text, []⟩) ∧
      second.ops = Node.flattenAll nodes ∧
      (∀ s, (Node.flattenAll before).getLast? ≠ some (.literal s)) ∧
      ∃ whole, parse (a ++ b) options = .ok whole ∧
        whole.ops = Node.flattenAll (Node.join before text nodes) := by
  obtain ⟨pieces, hpieces, rfl⟩ := exists_pieces_of_parse compiles
  obtain ⟨others, hothers, rfl⟩ := exists_pieces_of_parse compiles'
  have closes := Piece.closes_kept hpieces
  have closes' := Piece.closes_kept hothers
  have endsLine := Piece.endsLine_ofTemplate ends hpieces
  have hwhole : Piece.ofTemplate (a ++ b).toList options.tags = .ok (pieces ++ others) := by
    rw [String.toList_append, Piece.ofTemplate_append ends hpieces restored, hothers]
  obtain ⟨before, text, hfirst, hlast, hjoin⟩ := Node.ofPieces_append closes closes'
  refine ⟨before, text, Node.ofPieces (options.kept others), ?_, ?_, hlast, _,
    parse_of_ok hwhole, ?_⟩
  · rw [Program.ofPieces_eq_flatten closes, hfirst]
  · exact Program.ofPieces_eq_flatten closes'
  · rw [Piece.kept_append endsLine, Program.ofPieces_eq_flatten (closes.append closes'), hjoin]

theorem parse_append_of_ok (ends : Text.EndsLine a.toList) (compiles : parse a options = .ok first)
    (restored : options.tags.atEnd a.toList = options.tags)
    (compiles' : parse b options = .ok second) :
    parse (a ++ b) options = .ok ⟨Op.fuse first.ops second.ops⟩ := by
  obtain ⟨before, text, nodes, hfirst, hsecond, hlast, whole, hwhole, hops⟩ :=
    exists_nodes_of_append ends compiles restored compiles'
  rw [hwhole, hfirst, hsecond, ← Node.flattenAll_join hlast, ← hops]

theorem parse_append_of_error (ends : Text.EndsLine a.toList)
    (compiles : parse a options = .ok first)
    (restored : options.tags.atEnd a.toList = options.tags) {e : CompileError}
    (fails : parse b options = .error e) :
    ∃ e', parse (a ++ b) options = .error e' ∧
      e'.fault = e.fault ∧ e'.location.file = e.location.file ∧
      e'.location.line = e.location.line + a.toList.count '\n' ∧
      e'.location.span = e.location.span.shift (.over a.toList) := by
  obtain ⟨pieces, hpieces, -⟩ := exists_pieces_of_parse compiles
  cases hothers : Piece.ofTemplate b.toList options.tags with
  | ok others =>
    rw [parse_of_ok hothers] at fails
    cases fails
  | error site =>
    rw [parse_of_error hothers] at fails
    cases fails
    have hwhole : Piece.ofTemplate (a ++ b).toList options.tags =
        .error (site.shift (.over a.toList)) := by
      rw [String.toList_append, Piece.ofTemplate_append ends hpieces restored, hothers]
    exact ⟨_, parse_of_error hwhole, rfl, rfl, rfl, rfl⟩

/-- The one text and then the other are rendered, whatever the pools have cached. -/
theorem render_append (ends : Text.EndsLine a.toList) {one other both : Template}
    (restored : options.tags.atEnd a.toList = options.tags) (hone : one.text = a)
    (hother : other.text = b) (hboth : both.text = a ++ b) (hoptions : one.options = options)
    (hoptions' : other.options = options) (hoptions'' : both.options = options)
    (pool pool' pool'' : Pool) (view : Value) (partials : Partials) (lambdas : Lambdas) :
    (pool.render both view partials lambdas).1 =
      Transcript.textThen (pool'.render one view partials lambdas).1
        (pool''.render other view partials lambdas).1 := by
  have ha : parse a options = .ok one.program := by
    rw [← hone, ← hoptions]
    exact one.compiled
  have hb : parse b options = .ok other.program := by
    rw [← hother, ← hoptions']
    exact other.compiled
  have hab : parse (a ++ b) options = .ok both.program := by
    rw [← hboth, ← hoptions'']
    exact both.compiled
  obtain ⟨before, text, nodes, hfirst, hsecond, -, whole, hwhole, hops⟩ :=
    exists_nodes_of_append ends ha restored hb
  cases hab.symm.trans hwhole
  simp only [Pool.render_eq_text, hoptions, hoptions', hoptions'',
    Setting.transcript_rendering hfirst, Setting.transcript_rendering hsecond,
    Setting.transcript_rendering hops]
  exact Setting.text_evaluator_join _ before text nodes _ 0

end Lines

/-- Templates can be put together line by line. Behind one that ends its last line and has the
first delimiters in effect again, another one compiles as it does alone: to its operations behind
those of the first, but for a literal that goes on, or to its own fault, farther on. What is
rendered is the one text and then the other, up to the first error. -/
theorem templates_compose_by_lines (options : Options) (a b : String) {first : Program}
    (ends : a = "" ∨ ∃ lines, a = lines ++ "\n") (compiles : parse a options = .ok first)
    (restored : options.tags.atEnd a.toList = options.tags) :
    ((∃ whole, parse (a ++ b) options = .ok whole) ↔ ∃ second, parse b options = .ok second) ∧
    (∀ second, parse b options = .ok second →
      parse (a ++ b) options = .ok ⟨Op.fuse first.ops second.ops⟩) ∧
    (∀ e, parse b options = .error e → ∃ e', parse (a ++ b) options = .error e' ∧
      e'.fault = e.fault ∧ e'.location.file = e.location.file ∧
      e'.location.line = e.location.line + a.toList.count '\n' ∧
      e'.location.span = e.location.span.shift (.over a.toList)) ∧
    ∀ one other both : Template, one.text = a → other.text = b → both.text = a ++ b →
      one.options = options → other.options = options → both.options = options →
        ∀ (pool pool' pool'' : Pool) (view : Value) (partials : Partials) (lambdas : Lambdas),
          (pool.render both view partials lambdas).1 = do
            let text ← (pool'.render one view partials lambdas).1
            let text' ← (pool''.render other view partials lambdas).1
            return text ++ text' := by
  have hends := endsLine_of_newline ends
  have accepts (second : Program) (compiles' : parse b options = .ok second) :=
    parse_append_of_ok hends compiles restored compiles'
  have rejects (e : CompileError) (fails : parse b options = .error e) :=
    parse_append_of_error hends compiles restored fails
  refine ⟨⟨?_, fun ⟨second, h⟩ => ⟨_, accepts second h⟩⟩, accepts, rejects, ?_⟩
  · rintro ⟨whole, hwhole⟩
    cases hb : parse b options with
    | ok second => exact ⟨second, rfl⟩
    | error e =>
      obtain ⟨e', he', -⟩ := rejects e hb
      rw [hwhole] at he'
      cases he'
  · intro one other both hone hother hboth hoptions hoptions' hoptions''
    exact render_append hends restored hone hother hboth hoptions hoptions' hoptions''

/-- Lines that switch the delimiters and back, with text behind a section. -/
theorem line_continues_behind_switches :
    parse ("{{=| |=}}\n|#l|\n|.|,\n|/l|\n|={{ }}=|\nend\n" ++ "of {{z}}") .standard =
      .ok ⟨[.openSection "l" false 2 "\n|.|,\n", .escaped ".", .literal ",\n", .closeSection "l",
        .literal "end\nof ", .escaped "z"]⟩ := by
  have compiles : parse "{{=| |=}}\n|#l|\n|.|,\n|/l|\n|={{ }}=|\nend\n" .standard =
      .ok ⟨[.openSection "l" false 2 "\n|.|,\n", .escaped ".", .literal ",\n", .closeSection "l",
        .literal "end\n"]⟩ := by
    rw [parse_eq_ok_iff]
    decide +kernel
  have compiles' : parse "of {{z}}" .standard = .ok ⟨[.literal "of ", .escaped "z"]⟩ := by
    rw [parse_eq_ok_iff]
    decide +kernel
  have ends : "{{=| |=}}\n|#l|\n|.|,\n|/l|\n|={{ }}=|\nend\n" = "" ∨
      ∃ lines, "{{=| |=}}\n|#l|\n|.|,\n|/l|\n|={{ }}=|\nend\n" = lines ++ "\n" :=
    .inr ⟨"{{=| |=}}\n|#l|\n|.|,\n|/l|\n|={{ }}=|\nend", by decide +kernel⟩
  have restored : Options.standard.tags.atEnd
      "{{=| |=}}\n|#l|\n|.|,\n|/l|\n|={{ }}=|\nend\n".toList = Options.standard.tags := by
    decide +kernel
  exact (templates_compose_by_lines .standard _ "of {{z}}" ends compiles restored).2.1 _ compiles'

end Mustache
