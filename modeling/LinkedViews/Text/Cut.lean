/-!
Cutting texts at a character or behind a given beginning.
-/

namespace LinkedViews.Text

/-- What follows `lead` at the start of a list, if the list starts with it. -/
def behind? : (lead cs : List Char) → Option (List Char)
  | [], cs => some cs
  | _ :: _, [] => none
  | a :: lead, c :: cs => if a = c then behind? lead cs else none

/-- What follows `lead` at the start of a text, if the text starts with it. -/
def rest? (lead s : String) : Option String := (behind? lead.toList s.toList).map String.ofList

/-- The text before the first `c`, or all of it. -/
def upTo (c : Char) (s : String) : String := String.ofList (s.toList.takeWhile (· != c))

/-- The text after the last `c`, or all of it. -/
def afterLast (c : Char) (s : String) : String :=
  String.ofList (s.toList.reverse.takeWhile (· != c)).reverse

/-- The text before the last `c`, or all of it. -/
def beforeLast (c : Char) (s : String) : String :=
  if c ∈ s.toList then String.ofList (s.toList.reverse.dropWhile (· != c)).tail.reverse else s

/-- The pieces between the occurrences of `c`; never none. -/
def pieces (c : Char) (s : String) : List String := (s.toList.splitOn c).map String.ofList

/-- The text with its first `c` turned into `d`. -/
def replaceFirst (c d : Char) (s : String) : String :=
  String.ofList (go s.toList)
where
  go : List Char → List Char
    | [] => []
    | x :: xs => if x = c then d :: xs else x :: go xs

/-- Whether `part` stands anywhere in a text. -/
def hasPart (part s : String) : Bool := go s.toList
where
  go : List Char → Bool
    | [] => part.isEmpty
    | c :: cs => (behind? part.toList (c :: cs)).isSome || go cs

theorem behind?_eq_some_iff {lead cs rest : List Char} :
    behind? lead cs = some rest ↔ cs = lead ++ rest := by
  fun_induction behind? lead cs with
  | case1 => simp [eq_comm]
  | case2 => simp
  | case3 lead c cs ih => simp [ih]
  | case4 a lead c cs h => simp [Ne.symm h]

theorem rest?_eq_some_iff {lead s r : String} : rest? lead s = some r ↔ s = lead ++ r := by
  simp only [rest?, Option.map_eq_some_iff, behind?_eq_some_iff]
  constructor
  · rintro ⟨u, hu, rfl⟩
    exact String.toList_inj.1 (by simpa using hu)
  · rintro rfl
    exact ⟨r.toList, by simp⟩

theorem rest?_eq_none_iff {lead s : String} :
    rest? lead s = none ↔ ¬ lead.toList <+: s.toList := by
  rw [Option.eq_none_iff_forall_ne_some]
  constructor
  · rintro h ⟨rest, hrest⟩
    refine h (String.ofList rest) (rest?_eq_some_iff.mpr (String.toList_inj.1 ?_))
    rw [String.toList_append, String.toList_ofList, hrest]
  · intro h rest hrest
    exact h ⟨rest.toList, by rw [rest?_eq_some_iff.mp hrest, String.toList_append]⟩

example : upTo '|' "/a.c|x|y" = "/a.c" ∧ upTo '|' "ab" = "ab" := by decide
example : afterLast '/' "/a/b" = "b" ∧ afterLast '/' "ab" = "ab" := by decide
example : beforeLast '.' "a.b.c" = "a.b" ∧ beforeLast '.' "ab" = "ab" := by decide
example : pieces '|' "a||b" = ["a", "", "b"] ∧ pieces '|' "" = [""] := by decide

end LinkedViews.Text
