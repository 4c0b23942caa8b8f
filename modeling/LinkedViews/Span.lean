/-!
Spans of text and how they correspond.

A span is a half-open range of character offsets. A link takes one span to any number of
spans of another document; of the links that contain an offset the first one counts.
-/

namespace LinkedViews

/-- The offsets from `start` up to, and without, `stop`. -/
structure Span where
  start : UInt64
  stop : UInt64
  deriving DecidableEq, Repr, Inhabited

namespace Span

/-- The span between two offsets, in whichever order they are given. -/
def between (a b : UInt64) : Span := if a ≤ b then ⟨a, b⟩ else ⟨b, a⟩

/-- The span of no characters at an offset. -/
def caret (offset : UInt64) : Span := ⟨offset, offset⟩

def Contains (s : Span) (offset : Nat) : Prop := s.start.toNat ≤ offset ∧ offset < s.stop.toNat

instance (s : Span) (offset : Nat) : Decidable (s.Contains offset) :=
  inferInstanceAs (Decidable (_ ∧ _))

def isEmpty (s : Span) : Bool := s.stop ≤ s.start

def length (s : Span) : Nat := s.stop.toNat - s.start.toNat

theorem start_le_stop_between (a b : UInt64) : (between a b).start ≤ (between a b).stop := by
  rw [between]
  split
  · assumption
  · rename_i h
    exact (UInt64.le_total a b).resolve_left h

theorem not_contains_of_isEmpty {s : Span} (h : s.isEmpty) (offset : Nat) :
    ¬ s.Contains offset := by
  simp only [isEmpty, decide_eq_true_eq, UInt64.le_iff_toNat_le] at h
  simp only [Contains]
  omega

end Span

/-- One span of a document and the spans that it corresponds to in another. -/
structure Link where
  source : Span
  targets : List Span
  deriving DecidableEq, Repr, Inhabited

namespace Link

/-- The link of a document about which nothing is known: its start to the other's start. -/
def atStart : Link := ⟨.caret 0, [.caret 0]⟩

/-- The first link whose source contains an offset. -/
def containing? (links : List Link) (offset : Nat) : Option Link :=
  links.find? fun l => l.source.Contains offset

/-- The spans that an offset corresponds to; the start of the other document, if no link
contains it. -/
def resolve (links : List Link) (offset : Nat) : List Span :=
  ((containing? links offset).map Link.targets).getD [.caret 0]

end Link

/-- Which way a look-up goes. -/
inductive Direction where
  /-- From the source document to the product. -/
  | forward
  /-- From the product to the source document. -/
  | reverse
  deriving DecidableEq, Repr

end LinkedViews
