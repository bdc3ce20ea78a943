import Mustache.Proofs.Caching

namespace Mustache

/-- Hands chunks to a sink until it wants no more. It is told of an end without an error. -/
def Sink.feed {σ : Type} (sink : Sink σ) (ending : Except RenderError Unit) :
    List String → σ → Except RenderError Completion × σ
  | [], s =>
    match ending with
    | .ok () => (.ok .finished, sink.finish s)
    | .error e => (.error e, s)
  | chunk :: chunks, s =>
    match sink.write s chunk with
    | (s, .more) => feed sink ending chunks s
    | (s, .stop) => (.ok .stopped, s)

/-- All that is written, chunk by chunk, and what it ends in. -/
structure Transcript (α : Type) where
  chunks : List String
  ending : Except RenderError α

namespace Transcript

variable {α β γ : Type}

def done (a : α) : Transcript α :=
  ⟨[], .ok a⟩

def failed (error : RenderError) : Transcript α :=
  ⟨[], .error error⟩

/-- A text is one chunk, and there is none for no text. -/
def write (text : String) : Transcript Unit :=
  ⟨if text = "" then [] else [text], .ok ()⟩

/-- What comes after an error is not written. -/
def bind (t : Transcript α) (f : α → Transcript β) : Transcript β :=
  match t.ending with
  | .error e => ⟨t.chunks, .error e⟩
  | .ok a => ⟨t.chunks ++ (f a).chunks, (f a).ending⟩

def forEach (f : β → Transcript Unit) : List β → Transcript Unit
  | [] => done ()
  | b :: bs => (f b).bind fun _ => forEach f bs

def text (t : Transcript Unit) : Except RenderError String :=
  t.ending.map fun _ => String.join t.chunks

def deliver {σ : Type} (t : Transcript Unit) (sink : Sink σ) (s : σ) :
    Except RenderError Completion × σ :=
  sink.feed t.ending t.chunks s

@[simp] theorem bind_done (a : α) (f : α → Transcript β) : (done a).bind f = f a :=
  rfl

@[simp] theorem bind_failed (e : RenderError) (f : α → Transcript β) :
    (failed e).bind f = failed e :=
  rfl

@[simp] theorem bind_chunk (chunk : String) (t : Transcript α) (f : α → Transcript β) :
    (Transcript.mk (chunk :: t.chunks) t.ending).bind f =
      ⟨chunk :: (t.bind f).chunks, (t.bind f).ending⟩ := by
  obtain ⟨chunks, ending⟩ := t
  cases ending <;> rfl

@[simp] theorem bind_done_right (t : Transcript Unit) : (t.bind fun _ => done ()) = t := by
  obtain ⟨chunks, ending⟩ := t
  cases ending <;> simp [bind, done]

theorem bind_assoc (t : Transcript α) (f : α → Transcript β) (g : β → Transcript γ) :
    (t.bind f).bind g = t.bind fun a => (f a).bind g := by
  obtain ⟨chunks, ending⟩ := t
  cases ending with
  | error e => rfl
  | ok a =>
    simp only [bind]
    cases (f a).ending <;> simp

theorem forEach_congr {f g : β → Transcript Unit} {bs : List β} (h : ∀ b ∈ bs, f b = g b) :
    forEach f bs = forEach g bs := by
  induction bs with
  | nil => rfl
  | cons b bs ih =>
    rw [List.forall_mem_cons] at h
    rw [forEach, forEach, h.1, ih h.2]

theorem forEach_map (f : β → Transcript Unit) (g : γ → β) (cs : List γ) :
    forEach f (cs.map g) = forEach (fun c => f (g c)) cs := by
  induction cs with
  | nil => rfl
  | cons c cs ih => rw [List.map_cons, forEach, forEach, ih]

end Transcript

/-- A loader that answers with the program a source has without any cache. -/
def Loader.Faithful {κ : Type} (loader : Loader κ) : Prop :=
  ∀ k source, (loader.load k source).1 = parse source .standard

theorem Loader.faithful_cached : Loader.cached.Faithful := by
  intro store? source
  cases store? with
  | none => rfl
  | some store => exact store.map_program_compile source .standard

theorem Loader.faithful_direct : Loader.direct.Faithful :=
  fun _ _ => rfl

namespace Rendering

variable {α β : Type}

/-- What is seen of a rendering for which every source is compiled anew. -/
def transcript : Rendering α → Transcript α
  | done a => .done a
  | failed e => .failed e
  | write chunk rest => ⟨chunk :: (rest ()).transcript.chunks, (rest ()).transcript.ending⟩
  | refuse _ rest => (rest ()).transcript
  | load source next => (next (parse source .standard)).transcript

@[simp] theorem transcript_bind (x : Rendering α) (f : α → Rendering β) :
    (x.bind f).transcript = x.transcript.bind fun a => (f a).transcript := by
  induction x with
  | done a => rfl
  | failed e => rfl
  | write chunk rest ih => simp only [bind, transcript, ih, Transcript.bind_chunk]
  | refuse e rest ih => exact ih ()
  | load source next ih => exact ih _

@[simp] theorem transcript_emit (text : String) : (emit text).transcript = .write text := by
  unfold emit Transcript.write
  split <;> rfl

theorem transcript_forEach {f : β → Rendering Unit} {g : β → Transcript Unit}
    (h : ∀ b, (f b).transcript = g b) (bs : List β) :
    (forEach f bs).transcript = .forEach g bs := by
  induction bs with
  | nil => rfl
  | cons b bs ih => simp only [forEach, Transcript.forEach, transcript_bind, h, ih]

/-- A rendering into a text writes nothing; an error is part of what it answers with. -/
theorem transcript_collect (x : Rendering Unit) (before : String) :
    (collect before x).transcript =
      .done (x.transcript.ending.map fun _ => x.transcript.chunks.foldl (· ++ ·) before) := by
  induction x generalizing before with
  | done a => rfl
  | failed e => rfl
  | write chunk rest ih => exact ih () _
  | refuse e rest ih => exact ih () _
  | load source next ih => exact ih _ _

theorem transcript_collect_empty (x : Rendering Unit) :
    (collect "" x).transcript = .done x.transcript.text :=
  transcript_collect x ""

/-- The sink of a run gets the chunks of the transcript, whatever the loader keeps. -/
theorem run_eq_deliver {σ κ : Type} {loader : Loader κ} (h : loader.Faithful) (sink : Sink σ)
    (x : Rendering Unit) (s : σ) (k : κ) :
    ((x.run sink loader s k).result, (x.run sink loader s k).sink) =
      x.transcript.deliver sink s := by
  induction x generalizing s k with
  | done a => rfl
  | failed e => rfl
  | write chunk rest ih =>
    rcases hw : sink.write s chunk with ⟨s', more | stop⟩
    · simp only [run, transcript, Transcript.deliver, Sink.feed, hw]
      exact ih () s' k
    · simp only [run, transcript, Transcript.deliver, Sink.feed, hw]
  | refuse e rest ih => exact ih () s k
  | load source next ih =>
    simp only [run, transcript]
    rw [ih, h k source]

end Rendering
end Mustache
