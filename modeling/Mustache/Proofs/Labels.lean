import Mustache.Report
import Mustache.Proofs.Excerpts

namespace Mustache

namespace Text

variable {c : Char} {cs before after : List Char} {m n offset : Nat}

theorem size_utf8Encode (cs : List Char) : cs.utf8Encode.size = byteLength cs := by
  induction cs with
  | nil => rfl
  | cons c cs ih =>
    rw [List.utf8Encode_cons, ByteArray.size_append, ih, List.utf8Encode_singleton,
      List.size_toByteArray, String.length_utf8EncodeChar, byteLength]

theorem extract_utf8Encode (before word after : List Char) :
    (before ++ word ++ after).utf8Encode.extract (byteLength before) (byteLength (before ++ word)) =
      word.utf8Encode := by
  have hstart : byteLength before = before.utf8Encode.size := (size_utf8Encode before).symm
  have hstop : byteLength (before ++ word) = before.utf8Encode.size + word.utf8Encode.size := by
    rw [byteLength_append, size_utf8Encode, size_utf8Encode]
  rw [List.utf8Encode_append, ByteArray.extract_append, List.utf8Encode_append,
    ByteArray.extract_append_eq_right hstart hstop, hstart, hstop]
  simp

theorem charOffset_byteLength (before after : List Char) :
    charOffset (byteLength before) (before ++ after) = before.length := by
  rw [charOffset, takeBytes_byteLength]

theorem charOffset_le_length (offset : Nat) (cs : List Char) :
    charOffset offset cs ≤ cs.length := by
  have hlength := congrArg List.length (takeBytes_append_dropBytes offset cs)
  rw [List.length_append] at hlength
  rw [charOffset]
  omega

theorem charOffset_cons (h : 0 < offset) (c : Char) (cs : List Char) :
    charOffset offset (c :: cs) = charOffset (offset - c.utf8Size) cs + 1 := by
  obtain ⟨n, rfl⟩ : ∃ n, offset = n + 1 := ⟨offset - 1, by omega⟩
  simp only [charOffset, takeBytes, List.length_cons]

theorem charOffset_zero (cs : List Char) : charOffset 0 cs = 0 := by
  rw [charOffset, takeBytes_zero, List.length_nil]

theorem charOffset_mono (h : m ≤ n) (cs : List Char) : charOffset m cs ≤ charOffset n cs := by
  induction cs generalizing m n with
  | nil => cases m <;> cases n <;> simp [charOffset, takeBytes]
  | cons c cs ih =>
    by_cases hm : m = 0
    · rw [hm, charOffset_zero]
      exact Nat.zero_le _
    · have hle : m - c.utf8Size ≤ n - c.utf8Size := by omega
      rw [charOffset_cons (by omega), charOffset_cons (by omega)]
      exact Nat.succ_le_succ (ih hle)

/-- An offset behind the first byte of the character that follows `before`, and in front of its
end. -/
def Inside (offset : Nat) (before : List Char) (c : Char) : Prop :=
  byteLength before < offset ∧ offset < byteLength before + c.utf8Size

theorem Inside.charOffset_eq (h : Inside offset before c) (after : List Char) :
    charOffset offset (before ++ c :: after) = before.length + 1 := by
  obtain ⟨hlt, hstop⟩ := h
  induction before generalizing offset with
  | nil =>
    simp only [byteLength] at hlt hstop
    have hspent : offset - c.utf8Size = 0 := by omega
    rw [List.nil_append, charOffset_cons hlt, hspent, charOffset_zero]
    rfl
  | cons d before ih =>
    simp only [byteLength] at hlt hstop
    have hrest : charOffset (offset - d.utf8Size) (before ++ c :: after) = before.length + 1 :=
      ih (by omega) (by omega)
    rw [List.cons_append, charOffset_cons (by omega), hrest, List.length_cons]

end Text

namespace Span

/-- A range of characters that spells the bytes of a span, and at least one of them. -/
structure Spells (label span : Span) (text : String) : Prop where
  nonempty : label.start < label.stop
  stop_le : label.stop ≤ text.length
  within : span.stop ≤ text.utf8ByteSize
  bytes : ((text.toList.drop label.start).take (label.stop - label.start)).utf8Encode =
    text.toByteArray.extract span.start span.stop

/-- Where the bytes are those of a part of the source, so are the characters. -/
theorem inCharacters_part (before word after : List Char) :
    inCharacters ⟨Text.byteLength before, Text.byteLength (before ++ word)⟩
      (before ++ word ++ after) = ⟨before.length, (before ++ word).length⟩ := by
  have hstart := Text.charOffset_byteLength before (word ++ after)
  rw [← List.append_assoc] at hstart
  rw [inCharacters, hstart, Text.charOffset_byteLength]

theorem spells_part {text : String} {before word after : List Char}
    (h : text.toList = before ++ word ++ after) (hword : word ≠ []) :
    Spells ⟨before.length, (before ++ word).length⟩
      ⟨Text.byteLength before, Text.byteLength (before ++ word)⟩ text where
  nonempty := by
    have hpos := List.length_pos_iff.mpr hword
    simp only [List.length_append]
    omega
  stop_le := by
    rw [← String.length_toList, h]
    exact (List.prefix_append (before ++ word) after).length_le
  within := by
    rw [← String.size_toByteArray, ← String.utf8Encode_toList, Text.size_utf8Encode, h,
      Text.byteLength_append (before ++ word)]
    exact Nat.le_add_right _ _
  bytes := by
    have hcharacters :
        (text.toList.drop before.length).take ((before ++ word).length - before.length) = word := by
      rw [h, List.append_assoc, List.drop_left, List.length_append, Nat.add_sub_cancel_left,
        List.take_left]
    rw [hcharacters, ← String.utf8Encode_toList, h, Text.extract_utf8Encode]

theorem inCharacters_ordered {span : Span} (h : span.start ≤ span.stop) (source : List Char) :
    (span.inCharacters source).start ≤ (span.inCharacters source).stop ∧
      (span.inCharacters source).stop ≤ source.length :=
  ⟨Text.charOffset_mono h source, Text.charOffset_le_length span.stop source⟩

end Span

/-- The label of an error spells the bytes that the error points at, however wide the characters in
them and before them are. In any other source too a label is a range of characters, which never goes
back where the span goes on; an offset inside of a character counts the character. -/
theorem labels_cover_tags :
    (∀ (text : String) (options : Options) (e : CompileError), parse text options = .error e →
      (e.location.span.inCharacters text.toList).Spells e.location.span text) ∧
    ∀ (source : String) (span : Span),
      let label := span.inCharacters source.toList
      (span.start ≤ span.stop → label.start ≤ label.stop ∧ label.stop ≤ source.length) ∧
      (∀ later : Span,
        (span.start ≤ later.start → label.start ≤ (later.inCharacters source.toList).start) ∧
        (span.stop ≤ later.stop → label.stop ≤ (later.inCharacters source.toList).stop)) ∧
      ∀ before c after, source.toList = before ++ c :: after →
        (Text.Inside span.start before c → label.start = before.length + 1) ∧
        (Text.Inside span.stop before c → label.stop = before.length + 1) := by
  constructor
  · intro text options e h
    obtain ⟨site, hsite, rfl⟩ := exists_site_of_parse h
    obtain ⟨culprit, -, hspan, -⟩ := exists_culprit hsite
    have hspelled : culprit.spelled ≠ [] := by
      have hopening := List.length_pos_iff.mpr culprit.point.tags.opening.nonempty
      have hle := culprit.opening_prefix.length_le
      exact List.length_pos_iff.mp (by omega)
    have hlabel := Span.inCharacters_part culprit.before culprit.spelled culprit.after
    rw [← culprit.template_eq, ← hspan] at hlabel
    have spells := Span.spells_part culprit.template_eq hspelled
    rw [← hspan, ← hlabel] at spells
    exact spells
  · intro source span
    refine ⟨fun h => span.inCharacters_ordered h source.toList, fun later => ?_, ?_⟩
    · exact ⟨fun h => Text.charOffset_mono h _, fun h => Text.charOffset_mono h _⟩
    · intro before c after h
      rw [h]
      exact ⟨fun inside => inside.charOffset_eq after, fun inside => inside.charOffset_eq after⟩

/-- Of nine bytes the first two make one character, and so do two of the tag. -/
theorem label_of_wide_tag :
    let text := "é{{#ü}}"
    ∃ e, parse text .standard = .error e ∧ e.location.span = ⟨2, 9⟩ ∧
      e.location.span.inCharacters text.toList = ⟨1, 7⟩ ∧
      ((text.toList.drop 1).take 6).utf8Encode = text.toByteArray.extract 2 9 := by
  intro text
  have refused : Piece.ofTemplate text.toList Options.standard.tags =
      .error ⟨.unclosedSection "ü", 1, 2, 9⟩ := by
    decide +kernel
  have he : parse text .standard = .error _ := parse_of_error refused
  have hlabel : (Span.mk 2 9).inCharacters text.toList = ⟨1, 7⟩ := by decide +kernel
  have spells : Span.Spells ⟨1, 7⟩ ⟨2, 9⟩ text := by
    rw [← hlabel]
    exact labels_cover_tags.1 text .standard _ he
  exact ⟨_, he, rfl, hlabel, spells.bytes⟩

end Mustache
