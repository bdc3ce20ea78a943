import Mustache.Proofs.Evaluation
import Mustache.Proofs.Patching

namespace Mustache

theorem parse_eq_map_flatten (text : String) (options : Options) :
    parse text options = (Node.parse text options).map fun nodes => ⟨Node.flattenAll nodes⟩ := by
  cases hp : Piece.ofTemplate text.toList options.tags with
  | error site =>
    rw [parse_of_error hp, Node.parse_of_error hp]
    rfl
  | ok pieces =>
    have hops := Program.ofPieces_eq_flatten (Piece.closes_kept hp)
    rw [parse_of_ok hp, Node.parse_of_ok hp, Except.map, ← hops]

theorem nodes_of_parse {text : String} {options : Options} {program : Program}
    (h : parse text options = .ok program) :
    ∃ nodes, Node.parse text options = .ok nodes ∧ program.ops = Node.flattenAll nodes := by
  rw [parse_eq_map_flatten] at h
  cases hn : Node.parse text options with
  | error e =>
    rw [hn] at h
    cases h
  | ok nodes =>
    rw [hn] at h
    cases h
    exact ⟨nodes, rfl, rfl⟩

/-- The runner does with the operations of some nodes what the evaluator does with the nodes. -/
def Runner.Refines (run : Runner) (eval : Evaluator) : Prop :=
  ∀ nodes scopes nesting,
    (run (Node.flattenAll nodes) scopes nesting).transcript = eval nodes scopes nesting

/-- Either no inclusion may be entered, or the same is done with each. -/
inductive Runner.RefinesInside : Option Runner → Option Evaluator → Prop where
  | none : RefinesInside none none
  | some {run : Runner} {eval : Evaluator} (refines : run.Refines eval) :
    RefinesInside (some run) (some eval)

/-- A helper rendering answers with the text, and writes nothing. -/
theorem Reply.transcript_follow {helper : String → Rendering (Except Error String)}
    {text : String → Except Error String}
    (h : ∀ template, (helper template).transcript = .done (text template)) (reply : Reply) :
    (reply.follow helper).transcript = .done (reply.answer text) := by
  induction reply with
  | done result => rfl
  | render template next ih =>
    rw [Reply.follow, Rendering.transcript_bind, h, Transcript.bind_done]
    exact ih (text template)

namespace Setting

open Rendering Transcript

variable {setting : Setting} {run? : Option Runner} {eval? : Option Evaluator}

theorem transcript_emitValue {text : Value → String} {escaped : Bool}
    (h : ∀ v, text v = if escaped then escapeHtml v.text else v.text) (name : String)
    (scopes : Scopes) :
    (setting.emitValue text name scopes).transcript =
      .write (setting.textOf name escaped scopes) := by
  unfold emitValue textOf
  cases scopes.resolve setting.lambdas name with
  | none => rfl
  | some value =>
    simp only [← h value]
    exact transcript_emit _

theorem transcript_enterSection {name : String} {nesting : Nat} {body : Nat → Rendering Unit}
    {children : Nat → Transcript Unit} (h : ∀ n, (body n).transcript = children n) :
    (enterSection name nesting body).transcript = withinSection name nesting children := by
  unfold enterSection withinSection
  by_cases hn : nesting < sectionNestingLimit
  · rw [if_neg (Nat.not_le.mpr hn), if_pos hn, h]
  · rw [if_pos (Nat.not_lt.mp hn), if_neg hn]
    rfl

theorem transcript_helper (hi : Runner.RefinesInside run? eval?) (name : String) (top : Value)
    (nesting : Nat) (template : String) :
    (setting.helper run? name top nesting template).transcript =
      .done (setting.helperText eval? name top nesting template) := by
  cases hi with
  | none => rfl
  | some refines =>
    simp only [helper, helperText, transcript, parse_eq_map_flatten]
    cases Node.parse template .standard with
    | error e => rfl
    | ok nodes =>
      simp only [Except.map, transcript_bind, transcript_collect_empty, bind_done,
        refines nodes _ _]
      rfl

theorem transcript_runLambda (hi : Runner.RefinesInside run? eval?) (name : String)
    (id : LambdaId) (raw : String) (top : Value) (nesting : Nat) :
    (setting.runLambda run? name id raw top nesting).transcript =
      setting.evaluateLambda eval? name id raw top nesting := by
  unfold runLambda evaluateLambda
  rw [transcript_bind, Reply.transcript_follow (transcript_helper hi name top nesting), bind_done]
  cases (setting.lambdas.onSection id ⟨top, raw⟩).answer
    (setting.helperText eval? name top nesting) with
  | ok text => exact transcript_emit text
  | error e => rfl

theorem transcript_runPartial (hi : Runner.RefinesInside run? eval?) (name : String)
    (top : Value) (nesting : Nat) :
    (setting.runPartial run? name top nesting).transcript =
      setting.evaluatePartial eval? name top nesting := by
  unfold runPartial evaluatePartial
  cases setting.partials.get? name with
  | none => rfl
  | some entry =>
    cases hi with
    | none => rfl
    | some refines =>
      cases entry with
      | compiled template =>
        obtain ⟨nodes, hn, hops⟩ := nodes_of_parse template.compiled
        simp only [Partial.nodes, hn, hops]
        exact refines nodes _ _
      | source text =>
        simp only [Partial.nodes, transcript, parse_eq_map_flatten]
        cases Node.parse text .standard with
        | error e => rfl
        | ok nodes => exact refines nodes _ _

theorem transcript_runSection (hi : Runner.RefinesInside run? eval?)
    {body : Scopes → Nat → Rendering Unit} {children : Scopes → Nat → Transcript Unit}
    (h : ∀ scopes nesting, (body scopes nesting).transcript = children scopes nesting)
    (name : String) (inverted : Bool) (raw : String) (scopes : Scopes) (nesting : Nat) :
    (setting.runSection run? body name inverted raw scopes nesting).transcript =
      setting.evaluateSection eval? children name inverted raw scopes nesting := by
  have once : (enterSection name nesting (body scopes)).transcript =
      withinSection name nesting (children scopes) := transcript_enterSection (h scopes)
  unfold runSection evaluateSection
  cases hv : scopes.resolve setting.lambdas name with
  | none =>
    cases inverted with
    | true => exact once
    | false => rfl
  | some value =>
    cases inverted with
    | true =>
      cases value with
      | null => exact once
      | bool b =>
        cases b with
        | false => exact once
        | true => rfl
      | list items =>
        cases items with
        | nil => exact once
        | cons item items => rfl
      | _ => rfl
    | false =>
      cases value with
      | list items =>
        refine transcript_enterSection fun n => ?_
        exact transcript_forEach (fun item => h _ n) items
      | map entries => exact transcript_enterSection (h _)
      | sectionLambda id => exact transcript_runLambda hi name id raw scopes.top nesting
      | _ =>
        simp only [SectionPlan.of, SectionPlan.ofValue, Bool.false_eq_true, if_false]
        generalize Value.isTruthy _ = truthy
        cases truthy with
        | true => exact once
        | false => rfl

/-- A body is all the operations between the two of a section, and what comes after it goes on
after its end. -/
theorem execute_section (name : String) (inverted : Bool) (raw : String) (body rest : List Op)
    (scopes : Scopes) (nesting : Nat) :
    setting.execute run?
        (.openSection name inverted body.length raw :: (body ++ .closeSection name :: rest))
        scopes nesting =
      (setting.runSection run? (setting.execute run? body) name inverted raw scopes nesting).bind
        fun _ => setting.execute run? rest scopes nesting := by
  have hbody : Op.body body.length (body ++ .closeSection name :: rest) = body := by
    have hn : body.length ≤ (body ++ .closeSection name :: rest).length := by simp
    rw [Op.body, Op.body?, if_pos hn, List.take_left]
    rfl
  rw [execute, hbody, List.drop_left]
  congr 1
  funext _
  rw [execute]

/-- What is carried out with no operations after it is carried out alone. -/
theorem transcript_execute_of_append {ops : List Op} {scopes : Scopes} {nesting : Nat}
    {t : Transcript Unit}
    (h : (setting.execute run? (ops ++ []) scopes nesting).transcript =
      t.bind fun _ => (setting.execute run? [] scopes nesting).transcript) :
    (setting.execute run? ops scopes nesting).transcript = t := by
  simpa only [List.append_nil, execute, transcript, bind_done_right] using h

mutual

/-- The operations of a node do what the node says, and then the others follow. -/
theorem transcript_execute_flatten (hi : Runner.RefinesInside run? eval?) (node : Node)
    (rest : List Op) (scopes : Scopes) (nesting : Nat) :
    (setting.execute run? (node.flatten ++ rest) scopes nesting).transcript =
      (setting.evaluate eval? node scopes nesting).bind fun _ =>
        (setting.execute run? rest scopes nesting).transcript := by
  cases node with
  | text s =>
    rw [Node.flatten, List.singleton_append, execute, transcript_bind, transcript_emit, evaluate]
  | variableTag name escaped =>
    cases escaped with
    | true =>
      rw [Node.flatten, List.singleton_append, execute, transcript_bind, evaluate]
      rw [transcript_emitValue fun v => (if_pos rfl).symm]
    | false =>
      rw [Node.flatten, List.singleton_append, execute, transcript_bind, evaluate]
      rw [transcript_emitValue fun v => (if_neg Bool.false_ne_true).symm]
  | inclusion name =>
    rw [Node.flatten, List.singleton_append, execute, transcript_bind, evaluate,
      transcript_runPartial hi]
  | block name inverted raw children =>
    -- The children run as the body, and whatever follows the section is left to `rest`.
    have inside (scopes : Scopes) (nesting : Nat) :
        (setting.execute run? (Node.flattenAll children) scopes nesting).transcript =
          setting.evaluateAll eval? children scopes nesting :=
      transcript_execute_of_append (transcript_execute_flattenAll hi children [] scopes nesting)
    rw [Node.flatten, List.cons_append, List.append_assoc, List.singleton_append, execute_section,
      transcript_bind, transcript_runSection hi inside, evaluate]

theorem transcript_execute_flattenAll (hi : Runner.RefinesInside run? eval?) (nodes : List Node)
    (rest : List Op) (scopes : Scopes) (nesting : Nat) :
    (setting.execute run? (Node.flattenAll nodes ++ rest) scopes nesting).transcript =
      (setting.evaluateAll eval? nodes scopes nesting).bind fun _ =>
        (setting.execute run? rest scopes nesting).transcript := by
  cases nodes with
  | nil => rfl
  | cons node nodes =>
    rw [Node.flattenAll, List.append_assoc, transcript_execute_flatten hi node, evaluateAll,
      bind_assoc]
    congr 1
    funext _
    exact transcript_execute_flattenAll hi nodes rest scopes nesting

end

theorem refines_execute (hi : Runner.RefinesInside run? eval?) :
    Runner.Refines (setting.execute run?) (setting.evaluateAll eval?) := by
  intro nodes scopes nesting
  exact transcript_execute_of_append (transcript_execute_flattenAll hi nodes [] scopes nesting)

theorem refines_runner (depth : Nat) :
    Runner.Refines (setting.runner depth) (setting.evaluator depth) := by
  induction depth with
  | zero => exact refines_execute .none
  | succ depth ih => exact refines_execute (.some ih)

end Setting

/-- Running the operations of a template makes the calls of the sink, and has the result, that the
nested sections of the template ask for, whatever the sink does and the store knows. -/
theorem rendering_refines_evaluation {text : String} {options : Options} {program : Program}
    (h : parse text options = .ok program) :
    ∃ nodes, Node.parse text options = .ok nodes ∧
      (∀ (setting : Setting) (view : Value) {σ : Type} (sink : Sink σ) (state : σ)
        (store? : Option Store),
        let outcome := (setting.rendering program view).run sink .cached state store?
        (outcome.result, outcome.sink) = (setting.evaluation nodes view).deliver sink state) ∧
      ∀ ops, Op.Slice program ops → ∀ (i : Nat) name inverted n raw,
        ops[i]? = some (.openSection name inverted n raw) →
        ∃ body rest, body.length = n ∧
          ops.drop i = .openSection name inverted n raw :: (body ++ .closeSection name :: rest) ∧
          ∀ (setting : Setting) (run? : Option Runner) (scopes : Scopes) (nesting : Nat),
            setting.execute run? (ops.drop i) scopes nesting =
                (setting.runSection run? (setting.execute run? body) name inverted raw scopes
                  nesting).bind (fun _ => setting.execute run? rest scopes nesting) ∧
              (SectionPlan.of inverted (scopes.resolve setting.lambdas name) = .skip →
                setting.execute run? (ops.drop i) scopes nesting =
                  setting.execute run? rest scopes nesting) := by
  obtain ⟨nodes, hnodes, hops⟩ := nodes_of_parse h
  refine ⟨nodes, hnodes, ?_, ?_⟩
  · intro setting view σ sink state store?
    have refines := setting.refines_runner setting.depthLimit nodes (.ofView view) 0
    rw [← hops] at refines
    simp only [Rendering.run_eq_deliver Loader.faithful_cached]
    rw [Setting.rendering, refines, Setting.evaluation]
  · intro ops slice i name inverted n raw hi
    obtain ⟨body, rest, rfl, hdrop⟩ :=
      (slice.wellLinked (wellLinked_of_parse h)).linked.exists_body hi
    refine ⟨body, rest, rfl, hdrop, ?_⟩
    intro setting run? scopes nesting
    rw [hdrop, setting.execute_section]
    refine ⟨rfl, ?_⟩
    intro hskip
    rw [Setting.runSection, hskip]
    rfl

theorem evaluation_of_list_section :
    ∃ nodes, Node.parse "{{#a}}{{.}},{{/a}}" .standard = .ok nodes ∧
      (((Setting.mk .empty ⟨fun _ v => v, fun _ call => .done (.ok call.text)⟩ 64).evaluation nodes
        (.map [("a", .list [.string "x", .string "y"])])).deliver .joined "").2 = "x,y," := by
  have compiles : parse "{{#a}}{{.}},{{/a}}" .standard = .ok
      ⟨[.openSection "a" false 2 "{{.}},", .escaped ".", .literal ",", .closeSection "a"]⟩ := by
    rw [parse_eq_ok_iff]
    decide +kernel
  obtain ⟨nodes, hnodes, refines, _⟩ := rendering_refines_evaluation compiles
  refine ⟨nodes, hnodes, ?_⟩
  rw [← refines _ _ .joined "" none]
  decide +kernel

end Mustache
