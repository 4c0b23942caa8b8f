import LinkedViews.Proofs.Document.Breaks

/-!
Offsets and positions of a document.

The two ways between them keep the order and stay in the document. They undo each other but
for the offsets and the positions that stand for others: an offset between the two characters
of a break goes to the end of the line, and a position that no line has to the one nearest
before it.
-/

namespace LinkedViews.Document

variable {d : Document} {a b : Nat} {p q : Position}

lemma lined (d : Document) : Line.Lined d.text.toList d.lines := Line.lined_ofText _

lemma length_toList (d : Document) : d.text.toList.length = d.length := String.length_toList

lemma start_length (d : Document) : Line.start d.lines d.lines.length = d.length :=
  (Line.start_length_ofText _).trans d.length_toList

lemma min_le_length_toList (d : Document) (o : Nat) : min o d.length ≤ d.text.toList.length :=
  d.length_toList ▸ Nat.min_le_right o d.length

lemma located_positionAt (d : Document) (o : Nat) :
    Line.Located d.lines (min o d.length) (d.positionAt o) :=
  Line.located_locate d.lined.ne_nil _

lemma positionAt_min (d : Document) (o : Nat) :
    d.positionAt (min o d.length) = d.positionAt o := by
  rw [positionAt, positionAt, Nat.min_assoc, Nat.min_self]

lemma positionAt_zero (d : Document) : d.positionAt 0 = ⟨0, 0⟩ := by
  rw [positionAt, Nat.zero_min, d.lined.locate_eq 0 (Nat.zero_le _)]
  simp [Nat.count_succ, Line.BreakEnds]

lemma positionAt_mono (h : a ≤ b) : d.positionAt a ≤ d.positionAt b :=
  (d.located_positionAt a).mono (d.located_positionAt b) (by omega)

lemma offsetOf_le (d : Document) (p : Position) : d.offsetOf p ≤ d.length :=
  d.start_length ▸ Line.offset_le d.lines p.line p.column

lemma positionAt_offsetOf (d : Document) (p : Position) :
    d.positionAt (d.offsetOf p) = Line.locate d.lines (d.offsetOf p) := by
  rw [positionAt, Nat.min_eq_left (d.offsetOf_le p)]

lemma not_splitsBreak_offsetOf (d : Document) (p : Position) :
    ¬ Line.SplitsBreak d.text.toList (d.offsetOf p) := by
  have hle : d.offsetOf p ≤ d.text.toList.length := d.length_toList ▸ d.offsetOf_le p
  rw [← d.lined.within_locate_iff _ hle]
  exact d.lined.terminated.within_locate_offset p

/-- **Offsets and positions come back from each other.** There is a line more than breaks. The
line of an offset is the number of breaks that end at or before it, and the column how far
behind the last of them it is. The offset comes back, but for one between the two characters of
a break, from which the one before it does. The positions that come back are those in a line or
at its end, and what a position is taken for stays what it is. -/
theorem offset_position_round_trip (d : Document) :
    d.lines.length = Nat.count (Line.BreakEnds d.text.toList) (d.length + 1) + 1 ∧
    (∀ o, let inside := min o d.length
      d.positionAt o =
        ⟨Nat.count (Line.BreakEnds d.text.toList) (inside + 1),
          inside - Nat.findGreatest (Line.BreakEnds d.text.toList) inside⟩ ∧
      d.offsetOf (d.positionAt o) =
        if Line.SplitsBreak d.text.toList inside then inside - 1 else inside) ∧
    ∀ p,
      (d.positionAt (d.offsetOf p) = p ↔
        ∃ l, d.lines[p.line]? = some l ∧ p.column ≤ l.length) ∧
      d.offsetOf (d.positionAt (d.offsetOf p)) = d.offsetOf p := by
  refine ⟨?_, fun o => ⟨?_, ?_⟩, fun p => ?_⟩
  · rw [← d.length_toList]
    exact d.lined.length_eq
  · exact d.lined.locate_eq _ (d.min_le_length_toList o)
  · exact d.lined.offset_locate _ (d.min_le_length_toList o)
  · rw [positionAt_offsetOf]
    exact ⟨d.lined.terminated.locate_offset_eq_iff p, d.lined.terminated.offset_locate_offset p⟩

/-- Between the characters of the first break, at the end of the second and beyond the text. -/
example :
    let d : Document := ⟨"é\r\n\r\u2028"⟩
    [2, 4, 9].map d.positionAt = [⟨0, 2⟩, ⟨2, 0⟩, ⟨3, 0⟩] ∧
    [2, 4, 9].map (fun o => d.offsetOf (d.positionAt o)) = [1, 4, 5] := by
  decide

/-- **Offsets and positions are in one order**, and stay in the document. A column is exactly how
far an offset is behind the start of its line, no position leads between the two characters of a
break, and the length of a line is that of its text, up to the break that ends it. -/
theorem offset_position_order (d : Document) :
    (∀ a b, a ≤ b → d.positionAt a ≤ d.positionAt b) ∧
    (∀ p q, p ≤ q → d.offsetOf p ≤ d.offsetOf q) ∧
    (∀ o, (d.positionAt o).line < d.lines.length ∧
      Line.start d.lines (d.positionAt o).line + (d.positionAt o).column = min o d.length) ∧
    (∀ p, d.offsetOf p ≤ d.length ∧ ¬ Line.SplitsBreak d.text.toList (d.offsetOf p)) ∧
    ∀ n l, d.lines[n]? = some l → ∃ body brk after,
      d.text.toList.drop (Line.start d.lines n) = body ++ (brk ++ after) ∧
      body.length = l.length ∧ brk.length = l.breakLength ∧ (∀ c ∈ body, ¬ Line.isBreak c) ∧
      (brk = [] ∧ after = [] ∨ Line.IsWhole brk after) := by
  refine ⟨fun _ _ => positionAt_mono, fun p q => Line.offset_mono d.lines, fun o => ?_,
    fun p => ⟨d.offsetOf_le p, d.not_splitsBreak_offsetOf p⟩, fun n l => d.lined.exists_text⟩
  have hlocated := d.located_positionAt o
  exact ⟨hlocated.line_lt, hlocated.start_add⟩

/-- Around a break of two characters: an offset within it, and a column behind it. -/
theorem offset_position_order_crlf :
    let d : Document := ⟨"ab\r\ncd"⟩
    (3 ≤ 4 ∧ d.positionAt 3 ≤ d.positionAt 4 ∧ d.positionAt 3 = ⟨0, 3⟩) ∧
    ((⟨0, 9⟩ : Position) ≤ ⟨1, 0⟩ ∧ d.offsetOf ⟨0, 9⟩ ≤ d.offsetOf ⟨1, 0⟩ ∧
      d.offsetOf ⟨0, 9⟩ = 2) := by
  obtain ⟨hposition, hoffset, -⟩ := offset_position_order ⟨"ab\r\ncd"⟩
  have hle : (⟨0, 9⟩ : Position) ≤ ⟨1, 0⟩ := Position.le_iff.mpr (.inl Nat.one_pos)
  exact ⟨⟨by decide, hposition 3 4 (by decide), by decide⟩, hle, hoffset _ _ hle, by decide⟩

end LinkedViews.Document
