import Splice.Directive

set_option autoImplicit false

namespace Splice

namespace Text

def Blank (w : Text) : Prop := ∀ c ∈ w, isBlank c = true

variable {w : Text} {c : Char}

theorem blank_takeWhile (t : Text) : Blank (t.takeWhile isBlank) := by
  intro c hc
  exact List.all_eq_true.1 List.all_takeWhile c hc

theorem trimLeft_append (hw : Blank w) (t : Text) : trimLeft (w ++ t) = trimLeft t :=
  List.dropWhile_append_of_pos hw

theorem trimLeft_cons (hc : isBlank c = false) (t : Text) : trimLeft (c :: t) = c :: t :=
  List.dropWhile_cons_of_neg (by simp [hc])

theorem trimRight_append (hw : Blank w) (t : Text) : trimRight (t ++ w) = trimRight t := by
  have hr : Blank w.reverse := fun c hc => hw c (List.mem_reverse.1 hc)
  rw [trimRight, List.reverse_append, List.dropWhile_append_of_pos hr, trimRight]

theorem trimRight_concat (hc : isBlank c = false) (t : Text) :
    trimRight (t ++ [c]) = t ++ [c] := by
  rw [trimRight, List.reverse_append, List.reverse_singleton, List.singleton_append,
    List.dropWhile_cons_of_neg (by simp [hc]), List.reverse_cons, List.reverse_reverse]

theorem exists_trimLeft (t : Text) : ∃ w, Blank w ∧ t = w ++ trimLeft t :=
  ⟨t.takeWhile isBlank, blank_takeWhile t, List.takeWhile_append_dropWhile.symm⟩

theorem exists_trimRight (t : Text) : ∃ w, Blank w ∧ t = trimRight t ++ w := by
  refine ⟨(t.reverse.takeWhile isBlank).reverse, ?_, ?_⟩
  · intro c hc
    exact blank_takeWhile t.reverse c (List.mem_reverse.1 hc)
  · rw [trimRight, ← List.reverse_append, List.takeWhile_append_dropWhile, List.reverse_reverse]

theorem exists_trim (t : Text) : ∃ w w', Blank w ∧ Blank w' ∧ t = w ++ trim t ++ w' := by
  obtain ⟨w, hw, ht⟩ := exists_trimLeft t
  obtain ⟨w', hw', ht'⟩ := exists_trimRight (trimLeft t)
  refine ⟨w, w', hw, hw', ?_⟩
  rw [List.append_assoc, trim, ← ht', ← ht]

end Text

def Kind.opening : Kind → Char
  | .searched => '<'
  | .relative => '"'

def Kind.closing : Kind → Char
  | .searched => '>'
  | .relative => '"'

def Include.delimited (d : Include) : Text := d.kind.opening :: (d.name ++ [d.kind.closing])

/-- The line is the marker, an ampersand and the directive, with blanks where they are allowed. -/
def Marker.Writes (m : Marker) (d : Include) (line : Text) : Prop :=
  ∃ w₁ w₂ w₃, Text.Blank w₁ ∧ Text.Blank w₂ ∧ Text.Blank w₃ ∧
    line = m.text ++ ['&'] ++ w₁ ++ includeWord ++ w₂ ++ d.delimited ++ w₃

variable {m : Marker} {d d' : Include} {line rest tail : Text}

theorem enclosed?_eq_some {opening closing : Char} {t name : Text} :
    enclosed? opening closing t = some name ↔ t = opening :: (name ++ [closing]) := by
  cases t with
  | nil => simp [enclosed?]
  | cons c t =>
    rw [enclosed?]
    constructor
    · intro h
      split at h
      · rename_i ht
        obtain ⟨init, rfl⟩ := List.getLast?_eq_some_iff.1 ht.2
        simp_all
      · cases h
    · rintro ⟨⟩
      simp

theorem Include.delimited_inj : d.delimited = d'.delimited ↔ d = d' := by
  rcases d with ⟨_ | _, name⟩ <;> rcases d' with ⟨_ | _, name'⟩ <;>
    simp [delimited, Kind.opening, Kind.closing]

theorem Include.trim_delimited {w w' : Text} (d : Include) (hw : Text.Blank w)
    (hw' : Text.Blank w') : Text.trim (w ++ d.delimited ++ w') = d.delimited := by
  have ho : Text.isBlank d.kind.opening = false := by cases d.kind <;> decide
  have hc : Text.isBlank d.kind.closing = false := by cases d.kind <;> decide
  rw [Text.trim, List.append_assoc, Text.trimLeft_append hw, delimited, List.cons_append,
    Text.trimLeft_cons ho, ← List.cons_append, Text.trimRight_append hw', ← List.cons_append,
    Text.trimRight_concat hc]

theorem trimLeft_includeWord (t : Text) :
    Text.trimLeft (includeWord ++ t) = includeWord ++ t :=
  Text.trimLeft_cons (by decide) _

theorem readCommand_of_word (h : Text.trimLeft rest = includeWord ++ tail) :
    readCommand rest = .inclusion d ↔ Text.trim tail = d.delimited := by
  simp only [readCommand, Text.after?_eq_some.2 h]
  cases hs : enclosed? '<' '>' (Text.trim tail) with
  | some name =>
    have ht : Text.trim tail = (Include.mk .searched name).delimited := enclosed?_eq_some.1 hs
    simp [ht, Include.delimited_inj]
  | none =>
    cases hr : enclosed? '"' '"' (Text.trim tail) with
    | some name =>
      have ht : Text.trim tail = (Include.mk .relative name).delimited := enclosed?_eq_some.1 hr
      simp [ht, Include.delimited_inj]
    | none =>
      simp only [reduceCtorEq, false_iff]
      intro ht
      rcases d with ⟨_ | _, name⟩
      · cases hs.symm.trans (enclosed?_eq_some.2 ht)
      · cases hr.symm.trans (enclosed?_eq_some.2 ht)

theorem readCommand_eq_inclusion :
    readCommand rest = .inclusion d ↔
      ∃ w₁ w₂ w₃, Text.Blank w₁ ∧ Text.Blank w₂ ∧ Text.Blank w₃ ∧
        rest = w₁ ++ includeWord ++ w₂ ++ d.delimited ++ w₃ := by
  constructor
  · intro h
    cases ha : Text.after? includeWord (Text.trimLeft rest) with
    | none => simp [readCommand, ha] at h
    | some tail =>
      rw [Text.after?_eq_some] at ha
      obtain ⟨w₁, hw₁, hr⟩ := Text.exists_trimLeft rest
      obtain ⟨w₂, w₃, hw₂, hw₃, ht⟩ := Text.exists_trim tail
      refine ⟨w₁, w₂, w₃, hw₁, hw₂, hw₃, ?_⟩
      rw [(readCommand_of_word ha).1 h] at ht
      rw [hr, ha, ht]
      simp only [List.append_assoc]
  · rintro ⟨w₁, w₂, w₃, hw₁, hw₂, hw₃, rfl⟩
    have ht : Text.trimLeft (w₁ ++ includeWord ++ w₂ ++ d.delimited ++ w₃) =
        includeWord ++ (w₂ ++ d.delimited ++ w₃) := by
      simp only [List.append_assoc]
      rw [Text.trimLeft_append hw₁, trimLeft_includeWord]
    rw [readCommand_of_word ht]
    exact d.trim_delimited hw₂ hw₃

theorem readCommand_eq_malformed {message : Text} :
    readCommand rest = .malformed message ↔
      (∀ d, readCommand rest ≠ .inclusion d) ∧
        (includeWord <+: Text.trimLeft rest ∧
            message = "invalid include statement `".toList ++ rest ++ ['`'] ∨
          ¬includeWord <+: Text.trimLeft rest ∧
            message = "invalid preproc statement `".toList ++ rest ++ ['`']) := by
  cases ha : Text.after? includeWord (Text.trimLeft rest) with
  | none =>
    have hp : ¬includeWord <+: Text.trimLeft rest := by
      rintro ⟨tail, ht⟩
      rw [Text.after?_eq_some.2 ht.symm] at ha
      cases ha
    simp [readCommand, ha, hp, eq_comm]
  | some tail =>
    have hp : includeWord <+: Text.trimLeft rest := ⟨tail, (Text.after?_eq_some.1 ha).symm⟩
    simp only [readCommand, ha, hp]
    cases enclosed? '<' '>' (Text.trim tail) with
    | some name => simp
    | none => cases enclosed? '"' '"' (Text.trim tail) <;> simp [eq_comm]

theorem readCommand_ne_plain (rest : Text) : readCommand rest ≠ .plain := by
  rw [readCommand]
  split
  · simp
  · dsimp only
    split
    · simp
    · split <;> simp

namespace Marker

theorem read_of_eq (h : line = m.text ++ ['&'] ++ rest) : m.read line = readCommand rest := by
  rw [read, Text.after?_eq_some.2 h]

theorem read_eq_plain : m.read line = .plain ↔ ¬(m.text ++ ['&']) <+: line := by
  cases ha : Text.after? (m.text ++ ['&']) line with
  | none =>
    refine iff_of_true (by rw [read, ha]) ?_
    rintro ⟨rest, h⟩
    rw [Text.after?_eq_some.2 h.symm] at ha
    cases ha
  | some rest =>
    rw [Text.after?_eq_some] at ha
    refine iff_of_false ?_ (not_not_intro ⟨rest, ha.symm⟩)
    rw [read_of_eq ha]
    exact readCommand_ne_plain rest

theorem exists_rest (h : m.read line ≠ .plain) : ∃ rest, line = m.text ++ ['&'] ++ rest := by
  obtain ⟨rest, hr⟩ := Decidable.not_not.1 (mt read_eq_plain.2 h)
  exact ⟨rest, hr.symm⟩

theorem read_eq_inclusion : m.read line = .inclusion d ↔ m.Writes d line := by
  constructor
  · intro h
    have hp : m.read line ≠ .plain := by simp [h]
    obtain ⟨rest, rfl⟩ := exists_rest hp
    rw [read_of_eq rfl, readCommand_eq_inclusion] at h
    obtain ⟨w₁, w₂, w₃, hw₁, hw₂, hw₃, rfl⟩ := h
    exact ⟨w₁, w₂, w₃, hw₁, hw₂, hw₃, by simp only [List.append_assoc]⟩
  · rintro ⟨w₁, w₂, w₃, hw₁, hw₂, hw₃, rfl⟩
    have hl : m.text ++ ['&'] ++ w₁ ++ includeWord ++ w₂ ++ d.delimited ++ w₃ =
        m.text ++ ['&'] ++ (w₁ ++ includeWord ++ w₂ ++ d.delimited ++ w₃) := by
      simp only [List.append_assoc]
    rw [read_of_eq hl]
    exact readCommand_eq_inclusion.2 ⟨w₁, w₂, w₃, hw₁, hw₂, hw₃, rfl⟩

/-- Reading a line accepts the grammar and nothing else. A line is a directive exactly when it is
written as one; it is plain exactly when it does not start with the marker and an ampersand; any
other line is malformed, and the message quotes all that follows the ampersand and says whether the
word of an inclusion comes first. A line writes one directive at most, and every directive can be
written. -/
theorem read_iff_written (m : Marker) (line : Text) :
    (∀ d, m.read line = .inclusion d ↔ m.Writes d line) ∧
      (m.read line = .plain ↔ ¬(m.text ++ ['&']) <+: line) ∧
      (∀ message, m.read line = .malformed message ↔
        ∃ rest, line = m.text ++ ['&'] ++ rest ∧ (∀ d, ¬m.Writes d line) ∧
          (includeWord <+: Text.trimLeft rest ∧
              message = "invalid include statement `".toList ++ rest ++ ['`'] ∨
            ¬includeWord <+: Text.trimLeft rest ∧
              message = "invalid preproc statement `".toList ++ rest ++ ['`'])) ∧
      (∀ d d', m.Writes d line → m.Writes d' line → d = d') ∧
      ∀ d : Include, m.read (m.text ++ ['&'] ++ includeWord ++ d.delimited) = .inclusion d := by
  refine ⟨fun d => read_eq_inclusion, read_eq_plain, fun message => ⟨?_, ?_⟩, ?_, fun d => ?_⟩
  · intro h
    have hp : m.read line ≠ .plain := by simp [h]
    obtain ⟨rest, rfl⟩ := exists_rest hp
    rw [read_of_eq rfl, readCommand_eq_malformed] at h
    refine ⟨rest, rfl, fun d hd => ?_, h.2⟩
    rw [← read_eq_inclusion, read_of_eq rfl] at hd
    exact h.1 d hd
  · rintro ⟨rest, rfl, hn, hm⟩
    rw [read_of_eq rfl, readCommand_eq_malformed]
    refine ⟨fun d hd => hn d ?_, hm⟩
    rw [← read_eq_inclusion, read_of_eq rfl]
    exact hd
  · intro d d' h h'
    rw [← read_eq_inclusion] at h h'
    exact Reading.inclusion.inj (h.symm.trans h')
  · rw [read_eq_inclusion]
    exact ⟨[], [], [], by simp [Text.Blank], by simp [Text.Blank], by simp [Text.Blank], by simp⟩

end Marker
end Splice
