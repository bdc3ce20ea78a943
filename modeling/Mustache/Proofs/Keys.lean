import Mustache.Proofs.Elision
import Mustache.Proofs.FirstFault
import Mustache.Proofs.Refinement

namespace Mustache

/-- The name of a variable, or of a section where it starts. -/
def Tag.lookup? (t : Tag) : Option String :=
  match t.sigil with
  | .bare | .triple | .ampersand | .sectionOpen | .invertedOpen => some t.name
  | .sectionClose | .inclusion | .comment | .delimiterSwitch => none

/-- The keys that the tags of a template may find in maps. The name `.` is no such key. -/
def Scan.keys (s : Scan) : List String :=
  (s.tags.filterMap Tag.lookup?).filter (· ≠ ".")

def Template.keys (template : Template) : List String :=
  (scan template.text.toList template.options.tags).keys

def Partial.keys : Partial → List String
  | source text => (scan text.toList Options.standard.tags).keys
  | compiled template => template.keys

def Partials.keys (table : Partials) : List String :=
  table.entries.flatMap (·.2.keys)

/-- The name that is looked up for an operation. -/
def Op.lookup? : Op → Option String
  | escaped name | unescaped name | openSection name _ _ _ => some name
  | literal _ | closeSection _ | inclusion _ => none

theorem Tag.lookup?_eq (t : Tag) : t.lookup? = t.op?.bind Op.lookup? := by
  unfold Tag.lookup? Tag.op?
  cases t.sigil <;> rfl

namespace Op

theorem lookup?_link (op : Op) (n : Nat) (raw : String) : (op.link n raw).lookup? = op.lookup? := by
  cases op <;> rfl

theorem mem_outline_of_lookup? {ops : List Op} {op : Op} {name : String} (hop : op ∈ ops)
    (h : op.lookup? = some name) : .inr (op.link 0 "") ∈ outline ops := by
  refine List.mem_flatMap.mpr ⟨op, hop, ?_⟩
  cases op with
  | literal => cases h
  | _ => exact List.mem_singleton.mpr rfl

end Op

theorem Piece.mem_of_mem_strip {pieces : List Piece} {piece : Piece} (h : piece ∈ strip pieces) :
    piece ∈ pieces := by
  obtain ⟨line, hline, hpiece⟩ := List.mem_flatMap.mp h
  rw [← flatten_lines pieces]
  refine List.mem_flatten.mpr ⟨line, hline, ?_⟩
  unfold stripLine at hpiece
  split at hpiece
  · exact List.mem_of_mem_filter hpiece
  · exact hpiece

theorem Options.mem_of_mem_kept {options : Options} {pieces : List Piece} {piece : Piece}
    (h : piece ∈ options.kept pieces) : piece ∈ pieces := by
  unfold kept at h
  split at h
  · exact h
  · exact Piece.mem_of_mem_strip h

/-- The tag of an operation in a compiled template. -/
theorem exists_tag_of_lookup? {text : String} {options : Options} {program : Program} {op : Op}
    {name : String} (h : parse text options = .ok program) (hop : op ∈ program.ops)
    (hname : op.lookup? = some name) :
    ∃ t ∈ (scan text.toList options.tags).tags, t.lookup? = some name := by
  obtain ⟨pieces, hp, rfl⟩ := exists_pieces_of_parse h
  obtain ⟨_, hitems⟩ := exists_items_of_ofTemplate hp
  have shown := Piece.show_items hitems
  have hkept := Op.mem_outline_of_lookup? hop hname
  rw [Program.outline_ofPieces] at hkept
  obtain ⟨piece, hpiece, hout⟩ := List.mem_flatMap.mp hkept
  have houtline : .inr (op.link 0 "") ∈ pieces.flatMap Piece.outline :=
    List.mem_flatMap.mpr ⟨piece, options.mem_of_mem_kept hpiece, hout⟩
  rw [shown.outline_eq] at houtline
  obtain ⟨mark, hmark, hin⟩ := List.mem_flatMap.mp houtline
  obtain ⟨item, hitem, hmem⟩ := List.mem_flatMap.mp hmark
  cases item with
  | text cs =>
    obtain ⟨c, _, rfl⟩ := List.mem_map.mp hmem
    simp [Mark.outline] at hin
  | tag t =>
    cases List.mem_singleton.mp hmem
    have ht : t.op? = some (op.link 0 "") := by simpa [Mark.outline] using hin
    refine ⟨t, List.mem_filterMap.mpr ⟨.tag t, hitem, rfl⟩, ?_⟩
    rw [t.lookup?_eq, ht, Option.bind_some, Op.lookup?_link, hname]

namespace Node

/-- All names that are looked up for some nodes are among the keys, or are the name `.`. -/
def Within (keys : List String) (nodes : List Node) : Prop :=
  ∀ op ∈ flattenAll nodes, ∀ name ∈ op.lookup?, name ≠ "." → name ∈ keys

variable {keys more : List String} {node : Node} {nodes : List Node}

theorem within_cons : Within keys (node :: nodes) ↔ Within keys [node] ∧ Within keys nodes := by
  simp only [Within, flattenAll, List.append_nil, List.forall_mem_append]

theorem within_block {name : String} {inverted : Bool} {raw : String} {children : List Node}
    (h : Within keys [.block name inverted raw children]) :
    (name ≠ "." → name ∈ keys) ∧ Within keys children := by
  simp only [Within, flattenAll, flatten, List.append_nil, List.forall_mem_cons,
    List.forall_mem_append] at h
  exact ⟨h.1 name rfl, h.2.1⟩

theorem within_variableTag {name : String} {escaped : Bool}
    (h : Within keys [.variableTag name escaped]) : name ≠ "." → name ∈ keys := by
  cases escaped <;> exact h _ (List.mem_singleton.mpr rfl) name rfl

theorem Within.mono (h : Within keys nodes) (hsub : keys ⊆ more) : Within more nodes :=
  fun op hop name hname hne => hsub (h op hop name hname hne)

/-- The nodes of a template look for its keys only. -/
theorem within_of_parse {text : String} {options : Options} (h : parse text options = .ok nodes) :
    Within (scan text.toList options.tags).keys nodes := by
  have compiles : Mustache.parse text options = .ok ⟨flattenAll nodes⟩ := by
    rw [parse_eq_map_flatten, h]
    rfl
  intro op hop name hname hne
  obtain ⟨t, ht, hlookup⟩ := exists_tag_of_lookup? compiles hop hname
  have hmem : name ∈ (scan text.toList options.tags).tags.filterMap Tag.lookup? :=
    List.mem_filterMap.mpr ⟨t, ht, hlookup⟩
  exact List.mem_filter.mpr ⟨hmem, by simpa using hne⟩

end Node

theorem Partial.within_keys {entry : Partial} {nodes : List Node} (h : entry.nodes = .ok nodes) :
    Node.Within entry.keys nodes := by
  cases entry with
  | source text => exact Node.within_of_parse h
  | compiled template => exact Node.within_of_parse h

theorem Partials.keys_subset {table : Partials} {name : String} {entry : Partial}
    (h : table.get? name = some entry) : entry.keys ⊆ table.keys := by
  intro key hkey
  exact List.mem_flatMap.mpr ⟨(name, entry), Entries.mem_of_lookup_eq_some h, hkey⟩

end Mustache
