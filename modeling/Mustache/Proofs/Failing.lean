import Mustache.Proofs.Reaching

namespace Mustache

/-- An error inside of the invocations of some section lambdas, named from outside to inside. -/
def Error.wrapped : List String → Error → Error
  | [], e => e
  | name :: names, e => .render (.lambda name (wrapped names e))

theorem Error.wrapped_append (names names' : List String) (e : Error) :
    wrapped (names ++ names') e = wrapped names (wrapped names' e) := by
  induction names with
  | nil => rfl
  | cons name names ih => rw [List.cons_append, wrapped, wrapped, ih]

/-- The section lambda whose invocation a task is. -/
def Task.invoking : Task → List String
  | lambda name .. => [name]
  | _ => []

/-- The chunks of some events inside of the invocations of some section lambdas that are put out.
What is rendered for a lambda is not. -/
def Event.heard (names : List String) (events : List Event) : List String :=
  if names = [] then chunks events else []

theorem Event.heard_of_silent {events : List Event} (h : chunks events = [])
    (names : List String) : heard names events = [] := by
  unfold heard
  rw [h, ite_self]

theorem Event.heard_append (names : List String) (events later : List Event) :
    heard names (events ++ later) = heard names events ++ heard names later := by
  unfold heard
  split
  · exact chunks_append events later
  · rfl

theorem Event.heard_append_of_silent {later : List Event} (h : chunks later = [])
    (names : List String) (events : List Event) :
    heard names (events ++ later) = heard names events := by
  rw [heard_append, heard_of_silent h, List.append_nil]

theorem Event.heard_of_chunks {events later : List Event} (h : chunks events = chunks later)
    (names : List String) : heard names events = heard names later := by
  unfold heard
  rw [h]

theorem Event.chunks_body (name : String) (events : List Event) :
    chunks (openBody name :: (events ++ [closeBody name])) = chunks events :=
  (chunks_append events [closeBody name]).trans (List.append_nil _)

namespace Setting

/-- What a section lambda gets for a template that it wants rendered. -/
inductive Gives (setting : Setting) (depth : Nat) (name : String) (top : Value) (nesting : Nat)
    (template : String) : Except Error String → Prop where
  | denied {first : List Event} {e : Error}
      (admits : setting.Admits depth name (.source template) first (.error e)) :
      Gives setting depth name top nesting template (.error e)
  | helped {first trace : List Event} {program : Program} {result : Except RenderError Unit}
      (admits : setting.Admits depth name (.source template) first (.ok program))
      (inside : setting.Runs (depth + 1) (.ops program.ops (.ofView top) nesting) trace result) :
      Gives setting depth name top nesting template
        ((result.map fun _ => String.join (Event.chunks trace)).mapError .render)

/-- Every section lambda that a task comes to returns the first error it is given as it is. -/
def Forwards (setting : Setting) (base : Nat) (start : Task) : Prop :=
  ∀ before depth name top nesting template next e,
    setting.Reaches base start before depth (.lambda name top nesting (.render template next)) →
    setting.Gives depth name top nesting template (.error e) → next (.error e) = .done (.error e)

/-- A task in which something goes wrong at once. -/
inductive Raises (setting : Setting) (depth : Nat) : Task → Error → Prop where
  | tooNested {name : String} {body : List Op} {inner : List Scopes} {nesting : Nat}
      (full : sectionNestingLimit ≤ nesting) :
      Raises setting depth (.block name body inner nesting)
        (.render (.nestingLimit name sectionNestingLimit))
  | tooDeep {name : String} {top : Value} {nesting : Nat} {origin : Partial}
      (present : setting.partials.get? name = some origin) (full : setting.depthLimit ≤ depth) :
      Raises setting depth (.inclusion name top nesting)
        (.render (.depthLimit name setting.depthLimit))
  | brokenPartial {name text : String} {top : Value} {nesting : Nat} {e : CompileError}
      (present : setting.partials.get? name = some (.source text))
      (free : depth < setting.depthLimit) (parsed : parse text .standard = .error e) :
      Raises setting depth (.inclusion name top nesting) (.render (.brokenPartial name e))
  /-- A render helper counts as an inclusion of the name of its section. -/
  | helperTooDeep {name template : String} {top : Value} {nesting : Nat}
      {next : Except Error String → Reply} (full : setting.depthLimit ≤ depth) :
      Raises setting depth (.lambda name top nesting (.render template next))
        (.render (.depthLimit name setting.depthLimit))
  | brokenHelper {name template : String} {top : Value} {nesting : Nat}
      {next : Except Error String → Reply} {e : CompileError}
      (free : depth < setting.depthLimit) (parsed : parse template .standard = .error e) :
      Raises setting depth (.lambda name top nesting (.render template next)) (.compile e)
  | own {name : String} {top : Value} {nesting : Nat} (e : Error) :
      Raises setting depth (.lambda name top nesting (.done (.error e))) e

/-- A point that a task comes to while all that is over has gone well: the section lambdas that have
a template rendered there, from outside to inside, and the chunks put out outside of all such
renderings. -/
inductive Comes (setting : Setting) (base : Nat) (start : Task) :
    List String → List String → Nat → Task → Prop where
  | start : Comes setting base start [] [] base start
  | step {names heard : List String} {depth depth' : Nat} {task next : Task} {events : List Event}
      (come : Comes setting base start names heard depth task) (plain : task.invoking = [])
      (leads : setting.Leads depth task events depth' next) :
      Comes setting base start names (heard ++ Event.heard names events) depth' next
  | helper {names heard : List String} {depth nesting : Nat} {name template : String} {top : Value}
      {next : Except Error String → Reply} {first : List Event} {program : Program}
      (come : Comes setting base start names heard depth
        (.lambda name top nesting (.render template next)))
      (admits : setting.Admits depth name (.source template) first (.ok program)) :
      Comes setting base start (names ++ [name]) heard (depth + 1)
        (.ops program.ops (.ofView top) nesting)
  | helped {names heard : List String} {depth nesting : Nat} {name template : String} {top : Value}
      {next : Except Error String → Reply} {first trace : List Event} {program : Program}
      (come : Comes setting base start names heard depth
        (.lambda name top nesting (.render template next)))
      (admits : setting.Admits depth name (.source template) first (.ok program))
      (inside : setting.Runs (depth + 1) (.ops program.ops (.ofView top) nesting) trace (.ok ())) :
      Comes setting base start names heard depth
        (.lambda name top nesting (next (.ok (String.join (Event.chunks trace)))))

variable {setting : Setting} {base depth depth' nesting : Nat} {start task next : Task}
  {names heard : List String} {events trace : List Event} {name template : String} {top : Value}
  {err : RenderError} {e : Error}

/-- A rendering for a lambda puts nothing out. -/
theorem Admits.chunks_around {origin : Partial} {first : List Event}
    {admitted : Except Error Program} (h : setting.Admits depth name origin first admitted)
    (inner later : List Event) :
    Event.chunks (first ++ Event.silent inner ++ .leave name :: later) = Event.chunks later := by
  rw [Event.chunks_append, Event.chunks_append, h.chunks_eq, Event.chunks_silent]
  rfl

theorem Comes.reaches (h : setting.Comes base start names heard depth task) :
    ∃ before, setting.Reaches base start before depth task := by
  induction h with
  | start => exact ⟨_, .start⟩
  | step come plain leads ih =>
    obtain ⟨before, reached⟩ := ih
    exact ⟨_, reached.step leads⟩
  | helper come admits ih =>
    obtain ⟨before, reached⟩ := ih
    exact ⟨_, reached.step (.helper admits)⟩
  | helped come admits inside ih =>
    obtain ⟨before, reached⟩ := ih
    exact ⟨_, reached.step (.helped admits inside)⟩

/-- Outside of section lambdas a task fails of what it comes to, as it is, and what was put out
before that stays. -/
theorem Leads.fails (leads : setting.Leads depth task events depth' next)
    (plain : task.invoking = []) (h : setting.Runs depth' next trace (.error err)) :
    ∃ trace', setting.Runs depth task trace' (.error err) ∧
      Event.chunks trace' = Event.chunks (events ++ trace) := by
  cases leads with
  | head op ops scopes => exact ⟨_, .broke h, rfl⟩
  | tail head => exact ⟨_, .wentOn head h, rfl⟩
  | inside free =>
    exact ⟨_, .nested free h, Event.chunks_body _ _⟩
  | body body scopes inner => exact ⟨_, .bodyBroke h, rfl⟩
  | others head => exact ⟨_, .bodyEnded head h, rfl⟩
  | included present admits =>
    refine ⟨_, .included present admits h, ?_⟩
    exact (Event.chunks_append _ [.leave _]).trans (List.append_nil _)
  | helper | denied | helped => cases plain

/-- An error that is raised inside of a render helper is wrapped once, for the lambda that called
it. -/
theorem runs_of_helper_failed {next : Except Error String → Reply} {first : List Event}
    {program : Program} (admits : setting.Admits depth name (.source template) first (.ok program))
    (inside : setting.Runs (depth + 1) (.ops program.ops (.ofView top) nesting) trace (.error err))
    (forwarded : next (.error (.render err)) = .done (.error (.render err))) :
    ∃ trace', setting.Runs depth (.lambda name top nesting (.render template next)) trace'
      (.error (.lambda name (.render err))) ∧ Event.chunks trace' = [] := by
  have failed : setting.Runs depth (.lambda name top nesting (.done (.error (.render err)))) []
      (.error (.lambda name (.render err))) := .lambdaFailed _
  rw [← forwarded] at failed
  exact ⟨_, .helped admits inside failed, admits.chunks_around trace []⟩

/-- A lambda that is denied a rendering gives back the error that it is given. -/
theorem runs_of_denied {next : Except Error String → Reply} {first : List Event}
    (admits : setting.Admits depth name (.source template) first (.error e))
    (forwarded : next (.error e) = .done (.error e)) :
    ∃ trace', setting.Runs depth (.lambda name top nesting (.render template next)) trace'
      (.error (.lambda name e)) ∧ Event.chunks trace' = [] := by
  have failed : setting.Runs depth (.lambda name top nesting (.done (.error e))) []
      (.error (.lambda name e)) := .lambdaFailed e
  rw [← forwarded] at failed
  refine ⟨_, .denied admits failed, ?_⟩
  rw [List.append_nil, admits.chunks_eq]

/-- What goes wrong at a point goes wrong in the whole, wrapped for the lambdas that are in progress
there. Only the chunks outside of their renderings are put out. -/
theorem Comes.fails (come : setting.Comes base start names heard depth task)
    (forwards : names ≠ [] → setting.Forwards base start)
    (h : setting.Runs depth task trace (.error err)) :
    ∃ whole failure, setting.Runs base start whole (.error failure) ∧
      Error.render failure = .wrapped names (.render err) ∧
      Event.chunks whole = heard ++ Event.heard names trace := by
  induction come generalizing trace err with
  | start => exact ⟨trace, err, h, rfl, rfl⟩
  | @step names heard _ _ task next events come plain leads ih =>
    obtain ⟨trace', runs, hchunks⟩ := leads.fails plain h
    obtain ⟨whole, failure, hwhole, hfailure, hheard⟩ := ih forwards runs
    refine ⟨whole, failure, hwhole, hfailure, ?_⟩
    rw [hheard, Event.heard_of_chunks hchunks, Event.heard_append, List.append_assoc]
  | @helper names heard depth nesting name template top next first program come admits ih =>
    have hforwards := forwards (by simp)
    obtain ⟨before, reached⟩ := come.reaches
    have forwarded := hforwards _ _ _ _ _ _ _ (.render err) reached (.helped admits h)
    obtain ⟨trace', runs, hchunks⟩ := runs_of_helper_failed admits h forwarded
    obtain ⟨whole, failure, hwhole, hfailure, hheard⟩ := ih (fun _ => hforwards) runs
    refine ⟨whole, failure, hwhole, ?_, ?_⟩
    · rw [hfailure, Error.wrapped_append]
      rfl
    · rw [hheard, Event.heard, hchunks, ite_self, Event.heard, if_neg (by simp)]
  | helped come admits inside ih =>
    obtain ⟨whole, failure, hwhole, hfailure, hheard⟩ := ih forwards (.helped admits inside h)
    refine ⟨whole, failure, hwhole, hfailure, ?_⟩
    rw [hheard, Event.heard_of_chunks (admits.chunks_around _ _)]

/-- An error that is raised at a point is what a run of the task there ends in, for a lambda as its
own failure. Nothing is put out for it. -/
theorem Raises.runs (raises : setting.Raises depth task e)
    (forwards : task.invoking ≠ [] → setting.Forwards base start) {before : List Event}
    (reached : setting.Reaches base start before depth task) :
    ∃ trace err, setting.Runs depth task trace (.error err) ∧
      Error.render err = .wrapped task.invoking e ∧ Event.chunks trace = [] := by
  cases raises with
  | tooNested full => exact ⟨_, _, .tooNested full, rfl, rfl⟩
  | tooDeep present full => exact ⟨_, _, .barred present (.refused full), rfl, rfl⟩
  | brokenPartial present free parsed =>
    exact ⟨_, _, .barred present (.broken free parsed), rfl, rfl⟩
  | helperTooDeep full =>
    have denied := forwards (List.cons_ne_nil _ _) _ _ _ _ _ _ _ _ reached (.denied (.refused full))
    obtain ⟨trace, runs, hchunks⟩ := runs_of_denied (.refused full) denied
    exact ⟨trace, _, runs, rfl, hchunks⟩
  | brokenHelper free parsed =>
    have denied :=
      forwards (List.cons_ne_nil _ _) _ _ _ _ _ _ _ _ reached (.denied (.broken free parsed))
    obtain ⟨trace, runs, hchunks⟩ := runs_of_denied (.broken free parsed) denied
    exact ⟨trace, _, runs, rfl, hchunks⟩
  | own e => exact ⟨_, _, .lambdaFailed e, rfl, rfl⟩

theorem Raises.of_barred {origin : Partial} {first : List Event}
    (present : setting.partials.get? name = some origin)
    (admits : setting.Admits depth name origin first (.error e)) :
    setting.Raises depth (.inclusion name top nesting) (.render (e.ofPartial name)) := by
  cases admits with
  | refused full => exact .tooDeep present full
  | broken free parsed => exact .brokenPartial present free parsed

theorem Raises.of_denied {next : Except Error String → Reply} {first : List Event}
    (admits : setting.Admits depth name (.source template) first (.error e)) :
    setting.Raises depth (.lambda name top nesting (.render template next)) e := by
  cases admits with
  | refused full => exact .helperTooDeep full
  | broken free parsed => exact .brokenHelper free parsed

/-- An error that is raised at a point, inside of some invocations and perhaps of others in them, is
what a run in the outer ones fails of. -/
def Failed (setting : Setting) (base : Nat) (start : Task) (names heard : List String)
    (err : RenderError) : Prop :=
  ∃ inner depth task e, setting.Comes base start (names ++ inner) heard depth task ∧
    setting.Raises depth task e ∧ Error.render err = .wrapped (inner ++ task.invoking) e

theorem Comes.failed (come : setting.Comes base start names heard depth task)
    (raises : setting.Raises depth task e) (silent : Event.chunks trace = [])
    (herr : Error.render err = .wrapped task.invoking e) :
    setting.Failed base start names (heard ++ Event.heard names trace) err := by
  rw [Event.heard_of_silent silent, List.append_nil]
  exact ⟨[], depth, task, e, by rwa [List.append_nil], raises, herr⟩

/-- Where a render helper fails, the lambda that called it is the innermost one in progress. -/
theorem Failed.of_helper
    (h : setting.Failed base start (names ++ [name]) heard err) :
    setting.Failed base start names heard (.lambda name (.render err)) := by
  obtain ⟨inner, depth, task, e, come, raises, herr⟩ := h
  rw [List.append_assoc] at come
  exact ⟨name :: inner, depth, task, e, come, raises, by rw [herr]; rfl⟩

/-- Whatever a run fails of is raised at a point that it comes to, after all that it has put out. -/
theorem Runs.failed {ending : Except RenderError Unit}
    (h : setting.Runs depth task trace ending) (herr : ending = .error err)
    (forwards : setting.Forwards base start)
    (come : setting.Comes base start names heard depth task) :
    setting.Failed base start names (heard ++ Event.heard names trace) err := by
  induction h generalizing names heard err with
  | write | finished | noBody | missing | answered => cases herr
  | broke head ih =>
    have next := come.step rfl (.head _ _ _)
    rw [Event.heard_of_silent rfl, List.append_nil] at next
    exact ih herr next
  | wentOn head tail _ ih =>
    have found := ih herr (come.step rfl (.tail head))
    rwa [List.append_assoc, ← Event.heard_append] at found
  | tooNested full =>
    cases herr
    exact come.failed (.tooNested full) rfl rfl
  | nested free inside ih =>
    have found := ih herr (come.step rfl (.inside free))
    rw [List.append_assoc, ← Event.heard_append] at found
    rwa [← List.cons_append, Event.heard_append_of_silent rfl]
  | bodyBroke head ih =>
    have next := come.step rfl (.body _ _ _)
    rw [Event.heard_of_silent rfl, List.append_nil] at next
    exact ih herr next
  | bodyEnded head tail _ ih =>
    have found := ih herr (come.step rfl (.others head))
    rwa [List.append_assoc, ← Event.heard_append] at found
  | barred present admits =>
    cases herr
    exact come.failed (.of_barred present admits) admits.chunks_eq rfl
  | included present admits inside ih =>
    have found := ih herr (come.step rfl (.included present admits))
    rw [List.append_assoc, ← Event.heard_append] at found
    rwa [Event.heard_append_of_silent rfl]
  | lambdaFailed e =>
    cases herr
    exact come.failed (.own e) rfl rfl
  | @denied _ _ name _ top next _ _ e _ admits tail _ =>
    -- The lambda is given the error and gives it back, so this is where the error is raised.
    obtain ⟨before, reached⟩ := come.reaches
    have forwarded := forwards _ _ _ _ _ _ _ e reached (.denied admits)
    rw [forwarded] at tail
    obtain ⟨rfl, rfl⟩ := tail.unique (.lambdaFailed e)
    cases herr
    rw [List.append_nil]
    exact come.failed (.of_denied admits) admits.chunks_eq rfl
  | @helped _ _ name _ top next _ inner later _ result _ admits inside tail ihinside ihtail =>
    have hchunks := admits.chunks_around inner later
    cases result with
    | error failure =>
      have found := ihinside rfl (come.helper admits)
      rw [Event.heard, if_neg (by simp), List.append_nil] at found
      obtain ⟨before, reached⟩ := come.reaches
      have forwarded := forwards _ _ _ _ _ _ _ (.render failure) reached (.helped admits inside)
      have answered : setting.Runs _ (.lambda name top _ (next (.error (.render failure)))) _ _ :=
        tail
      rw [forwarded] at answered
      obtain ⟨rfl, rfl⟩ := answered.unique (.lambdaFailed _)
      cases herr
      rw [Event.heard_of_silent hchunks, List.append_nil]
      exact found.of_helper
    | ok _ =>
      rw [Event.heard_of_chunks hchunks]
      exact ihtail herr (come.helped admits inside)

end Setting
end Mustache
