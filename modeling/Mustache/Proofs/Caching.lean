import Mustache.Entries
import Mustache.Template.Store

namespace Mustache

theorem Program.ofTemplate_eq_of_key {text text' : String} {options options' : Options}
    (h : CacheKey.of text options = .of text' options') :
    Program.ofTemplate text.toList options = Program.ofTemplate text'.toList options' := by
  simp only [CacheKey.of, CacheKey.mk.injEq] at h
  obtain ⟨htext, htags, hwhite, _⟩ := h
  simp only [Program.ofTemplate, Options.kept, htext, htags, hwhite]

/-- The name of a template in diagnostics cannot be seen in its program. -/
theorem parse_ok_of_key {text text' : String} {options options' : Options} {program : Program}
    (h : CacheKey.of text options = .of text' options') (hp : parse text options = .ok program) :
    parse text' options' = .ok program := by
  rw [parse_eq_ok_iff] at hp ⊢
  rw [← Program.ofTemplate_eq_of_key h, hp]

theorem Template.parse_of_key {template : Template} {text : String} {options : Options}
    (h : CacheKey.of template.text template.options = .of text options) :
    parse text options = .ok template.program :=
  parse_ok_of_key h template.compiled

theorem Template.build_cases (text : String) (options : Options) (identity : Identity) :
    (∃ e, build text options identity = .error e ∧ parse text options = .error e) ∨
      ∃ template, build text options identity = .ok template ∧ template.text = text ∧
        template.options = options ∧ template.identity = identity := by
  unfold build
  split
  next e h => exact .inl ⟨e, rfl, h⟩
  next program h => exact .inr ⟨_, rfl, rfl, rfl, rfl⟩

namespace Store

theorem key_of_get? {s : Store} {key : CacheKey} {template : Template}
    (h : s.get? key = some template) : key = .of template.text template.options :=
  s.keyed _ (Entries.mem_of_lookup_eq_some h)

/-- A store answers with the error of the text, with the template it keeps, or with a new one, which
it keeps if it is asked to. -/
theorem compile_inv (s : Store) (text : String) (options : Options) :
    (∃ e, parse text options = .error e ∧ s.compile text options = (.error e, s)) ∨
    (∃ template, options.cache ∧ s.get? (.of text options) = some template ∧
      s.compile text options = (.ok template, s)) ∨
    ∃ template, ¬(options.cache ∧ (s.get? (.of text options)).isSome) ∧ template.text = text ∧
      template.options = options ∧ template.identity = ⟨s.id, s.made⟩ ∧
      s.compile text options = (.ok template,
        if options.cache then { s with made := s.made + 1 }.keep template
        else { s with made := s.made + 1 }) := by
  simp only [compile]
  generalize hk : (if options.cache then s.get? (.of text options) else none) = kept?
  cases kept? with
  | some template =>
    split at hk
    next hcache => exact .inr (.inl ⟨template, hcache, hk, rfl⟩)
    next => cases hk
  | none =>
    rcases Template.build_cases text options ⟨s.id, s.made⟩ with
      ⟨e, hb, hp⟩ | ⟨template, hb, htext, hoptions, hidentity⟩
    · exact .inl ⟨e, hp, by rw [make, hb]; rfl⟩
    · refine .inr (.inr ⟨template, ?_, htext, hoptions, hidentity, by rw [make, hb]; rfl⟩)
      rintro ⟨hcache, hsome⟩
      rw [if_pos hcache] at hk
      rw [hk] at hsome
      cases hsome

/-- Whatever a store holds, it answers with the error of the text or with a template of the text and
the options, up to what the key leaves out. -/
theorem compile_cases (s : Store) (text : String) (options : Options) :
    (∃ e, (s.compile text options).1 = .error e ∧ parse text options = .error e) ∨
      ∃ template, (s.compile text options).1 = .ok template ∧
        CacheKey.of template.text template.options = .of text options := by
  rcases s.compile_inv text options with
    ⟨e, hp, hc⟩ | ⟨template, -, hkept, hc⟩ | ⟨template, -, rfl, rfl, -, hc⟩
  · exact .inl ⟨e, by rw [hc], hp⟩
  · exact .inr ⟨template, by rw [hc], (key_of_get? hkept).symm⟩
  · exact .inr ⟨template, by rw [hc], rfl⟩

theorem key_of_compile {s next : Store} {text : String} {options : Options} {template : Template}
    (h : s.compile text options = (.ok template, next)) :
    CacheKey.of template.text template.options = .of text options := by
  rcases s.compile_cases text options with ⟨e, hc, -⟩ | ⟨found, hc, hkey⟩
  · rw [h] at hc
    cases hc
  · rw [h] at hc
    cases hc
    exact hkey

theorem map_program_compile (s : Store) (text : String) (options : Options) :
    (s.compile text options).1.map (·.program) = parse text options := by
  rcases s.compile_cases text options with ⟨e, hc, hp⟩ | ⟨template, hc, hkey⟩
  · rw [hc, hp]
    rfl
  · rw [hc, Template.parse_of_key hkey]
    rfl

theorem id_compile (s : Store) (text : String) (options : Options) :
    (s.compile text options).2.id = s.id := by
  rcases s.compile_inv text options with ⟨_, -, hc⟩ | ⟨_, -, -, hc⟩ | ⟨_, -, -, -, -, hc⟩
  · rw [hc]
  · rw [hc]
  · rw [hc]
    dsimp only
    split <;> rfl

end Store

end Mustache
