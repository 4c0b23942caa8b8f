/-!
Positions in a document.

A line ends with a line feed, a carriage return, both in this order, or one of the other
line-breaking characters. An offset counts characters. One between the two characters of a
break belongs to the line that the break ends; a position beyond the end of its line stands
for that end, and one beyond the last line for the end of the document.
-/

namespace LinkedViews

structure Position where
  line : Nat
  column : Nat
  deriving DecidableEq, Repr, Inhabited

instance : Ord Position := ⟨compareLex (compareOn Position.line) (compareOn Position.column)⟩

/-- The selected text between two positions, in the direction of the selection. -/
structure Selection where
  start : Position
  stop : Position
  deriving DecidableEq, Repr, Inhabited

/-- A selection of no text. -/
def Selection.caret (p : Position) : Selection := ⟨p, p⟩

def Selection.isEmpty (s : Selection) : Bool := s.start = s.stop

/-- The lengths of a line and of the break that ends it, if one does. -/
structure Line where
  length : Nat
  breakLength : Nat
  deriving DecidableEq, Repr

namespace Line

def isBreak (c : Char) : Bool :=
  c ∈ ['\n', '\x0b', '\x0c', '\r', '\u0085', '\u2028', '\u2029']

def size (l : Line) : Nat := l.length + l.breakLength

/-- A character in front of the first line. -/
def grow : List Line → List Line
  | [] => []
  | l :: rest => { l with length := l.length + 1 } :: rest

/-- The lines of a text; never none. -/
def ofText : List Char → List Line
  | [] => [⟨0, 0⟩]
  | '\r' :: '\n' :: rest => ⟨0, 2⟩ :: ofText rest
  | c :: rest => if isBreak c then ⟨0, 1⟩ :: ofText rest else grow (ofText rest)

theorem ofText_ne_nil (cs : List Char) : ofText cs ≠ [] := by
  fun_induction ofText cs with
  | case1 => simp
  | case2 => simp
  | case3 => simp
  | case4 c rest _ _ ih =>
    cases h : ofText rest with
    | nil => exact absurd h ih
    | cons l ls => simp [grow]

/-- The lines and their breaks are the whole text. -/
theorem foldr_size_ofText (cs : List Char) :
    (ofText cs).foldr (fun l n => l.size + n) 0 = cs.length := by
  fun_induction ofText cs with
  | case1 => rfl
  | case2 rest ih => rw [List.foldr_cons, ih, List.length_cons]; exact Nat.add_comm _ _
  | case3 c rest _ _ ih => rw [List.foldr_cons, ih, List.length_cons]; exact Nat.add_comm _ _
  | case4 c rest _ _ ih =>
    cases h : ofText rest with
    | nil => exact absurd h (ofText_ne_nil rest)
    | cons l ls =>
      rw [h] at ih
      simp only [grow, size, List.foldr_cons, List.length_cons] at ih ⊢
      omega

/-- The position of an offset that is not beyond the last line. -/
def locate : List Line → Nat → Position
  | [], offset => ⟨0, offset⟩
  | [_], offset => ⟨0, offset⟩
  | l :: rest, offset =>
    if offset < l.size then ⟨0, offset⟩
    else
      let p := locate rest (offset - l.size)
      ⟨p.line + 1, p.column⟩

/-- The offset of the column in the line of the given number. -/
def offset : List Line → Nat → Nat → Nat
  | [], _, _ => 0
  | l :: _, 0, column => min column l.length
  | l :: rest, n + 1, column => l.size + offset rest n column

end Line

structure Document where
  text : String
  deriving DecidableEq, Repr

namespace Document

def empty : Document := ⟨""⟩

instance : Inhabited Document := ⟨empty⟩

def lines (d : Document) : List Line := Line.ofText d.text.toList

def length (d : Document) : Nat := d.text.length

def positionAt (d : Document) (offset : Nat) : Position :=
  Line.locate d.lines (min offset d.length)

def offsetOf (d : Document) (p : Position) : Nat := Line.offset d.lines p.line p.column

example : (⟨"ab\r\ncd\n"⟩ : Document).lines = [⟨2, 2⟩, ⟨2, 1⟩, ⟨0, 0⟩] := by decide
example : (⟨"ab\r\ncd\n"⟩ : Document).positionAt 3 = ⟨0, 3⟩ := by decide
example : (⟨"ab\r\ncd\n"⟩ : Document).offsetOf ⟨0, 9⟩ = 2 := by decide
example : (⟨"ab\r\ncd\n"⟩ : Document).offsetOf ⟨7, 0⟩ = 7 := by decide

end Document

end LinkedViews
