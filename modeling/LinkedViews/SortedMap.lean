/-!
Finite maps kept as lists of entries in strictly ascending key order.

Two maps with the same value at every key are the same list, so a map says nothing about
the order in which it was filled. The lemmas describe every operation through `get?`.
-/

namespace LinkedViews

universe u v

structure SortedMap (α : Type u) (β : Type v) [Ord α] where
  entries : List (α × β)
  ascending : entries.Pairwise fun a b => compare a.1 b.1 = .lt

namespace SortedMap

variable {α : Type u} {β : Type v} [Ord α]

instance [DecidableEq α] [DecidableEq β] : DecidableEq (SortedMap α β) := fun a b =>
  decidable_of_iff (a.entries = b.entries)
    ⟨fun h => by cases a; cases b; cases h; rfl, fun h => congrArg entries h⟩

def empty : SortedMap α β := ⟨[], .nil⟩

instance : Inhabited (SortedMap α β) := ⟨empty⟩

def size (m : SortedMap α β) : Nat := m.entries.length

def keys (m : SortedMap α β) : List α := m.entries.map (·.1)

def values (m : SortedMap α β) : List β := m.entries.map (·.2)

def get? (m : SortedMap α β) (k : α) : Option β :=
  (m.entries.find? fun e => compare k e.1 == .eq).map (·.2)

def contains (m : SortedMap α β) (k : α) : Bool := (m.get? k).isSome

/-- Keeps the entries that satisfy a test. -/
def filter (p : α → β → Bool) (m : SortedMap α β) : SortedMap α β :=
  ⟨m.entries.filter fun e => p e.1 e.2, m.ascending.filter _⟩

def erase (m : SortedMap α β) (k : α) : SortedMap α β :=
  m.filter fun a _ => compare k a != .eq

/-- Changes the value at a key, if there is one. -/
def modify (m : SortedMap α β) (k : α) (f : β → β) : SortedMap α β where
  entries := m.entries.map fun e => if compare k e.1 = .eq then (e.1, f e.2) else e
  ascending := by
    rw [List.pairwise_map]
    refine m.ascending.imp fun {a b} h => ?_
    split <;> split <;> exact h

/-- Puts an entry in its place, instead of the one that has its key. -/
def insertEntry (k : α) (v : β) : List (α × β) → List (α × β)
  | [] => [(k, v)]
  | e :: rest =>
    match compare k e.1 with
    | .lt => (k, v) :: e :: rest
    | .eq => (k, v) :: rest
    | .gt => e :: insertEntry k v rest

theorem mem_insertEntry {k : α} {v : β} {l : List (α × β)} {e : α × β}
    (h : e ∈ insertEntry k v l) : e = (k, v) ∨ e ∈ l := by
  induction l with
  | nil => simpa [insertEntry] using h
  | cons a l ih =>
    rw [insertEntry] at h
    split at h
    · simpa using h
    · rcases List.mem_cons.1 h with h | h
      · exact .inl h
      · exact .inr (List.mem_cons_of_mem _ h)
    · rcases List.mem_cons.1 h with h | h
      · exact .inr (h ▸ List.mem_cons_self)
      · exact (ih h).imp_right (List.mem_cons_of_mem _)

theorem find?_insertEntry_of_ne {k k' : α} {v : β} {l : List (α × β)} [Std.TransOrd α]
    (h : compare k' k ≠ .eq) :
    (insertEntry k v l).find? (fun e => compare k' e.1 == .eq) =
      l.find? (fun e => compare k' e.1 == .eq) := by
  induction l with
  | nil => simp [insertEntry, h]
  | cons a l ih =>
    rw [insertEntry]
    split
    · simp [h]
    · rename_i he
      have h' : ¬ compare k' a.1 = .eq := fun h1 =>
        h (Std.TransCmp.eq_trans h1 (Std.OrientedCmp.eq_symm he))
      simp [h, h']
    · simp [List.find?_cons, ih]

theorem find?_insertEntry_self {k : α} {v : β} {l : List (α × β)} [Std.TransOrd α] :
    (insertEntry k v l).find? (fun e => compare k e.1 == .eq) = some (k, v) := by
  induction l with
  | nil => simp [insertEntry]
  | cons a l ih =>
    rw [insertEntry]
    split
    · simp
    · simp
    · rename_i he
      simp [he, ih]

variable [Std.TransOrd α]

theorem pairwise_insertEntry (k : α) (v : β) {l : List (α × β)}
    (h : l.Pairwise fun a b => compare a.1 b.1 = .lt) :
    (insertEntry k v l).Pairwise fun a b => compare a.1 b.1 = .lt := by
  induction l with
  | nil => simp [insertEntry]
  | cons a l ih =>
    rw [List.pairwise_cons] at h
    rw [insertEntry]
    split
    · rename_i he
      refine List.pairwise_cons.2 ⟨fun b hb => ?_, List.pairwise_cons.2 h⟩
      rcases List.mem_cons.1 hb with rfl | hb
      · exact he
      · exact Std.TransCmp.lt_trans he (h.1 b hb)
    · rename_i he
      exact List.pairwise_cons.2 ⟨fun b hb => Std.TransCmp.lt_of_eq_of_lt he (h.1 b hb), h.2⟩
    · rename_i he
      refine List.pairwise_cons.2 ⟨fun b hb => ?_, ih h.2⟩
      rcases mem_insertEntry hb with rfl | hb
      · exact Std.OrientedCmp.gt_iff_lt.1 he
      · exact h.1 b hb

def insert (m : SortedMap α β) (k : α) (v : β) : SortedMap α β :=
  ⟨insertEntry k v m.entries, pairwise_insertEntry k v m.ascending⟩

omit [Std.TransOrd α] in
@[simp] theorem get?_empty (k : α) : (empty : SortedMap α β).get? k = none := rfl

@[simp] theorem get?_insert_self (m : SortedMap α β) (k : α) (v : β) :
    (m.insert k v).get? k = some v := by
  simp [get?, insert, find?_insertEntry_self]

theorem get?_insert_of_ne (m : SortedMap α β) {k k' : α} (v : β) (h : compare k' k ≠ .eq) :
    (m.insert k v).get? k' = m.get? k' := by
  simp [get?, insert, find?_insertEntry_of_ne h]

variable [Std.LawfulEqOrd α]

omit [Std.TransOrd α] in
theorem get?_eq_some_iff {m : SortedMap α β} {k : α} {v : β} :
    m.get? k = some v ↔ (k, v) ∈ m.entries := by
  obtain ⟨l, hl⟩ := m
  simp only [get?]
  induction l with
  | nil => simp
  | cons e l ih =>
    obtain ⟨a, b⟩ := e
    rw [List.pairwise_cons] at hl
    by_cases h : compare k a = .eq
    · obtain rfl : k = a := Std.LawfulEqCmp.compare_eq_iff_eq.1 h
      have hn : (k, v) ∉ l := fun hm => by
        have := hl.1 _ hm
        simp [Std.ReflCmp.compare_self] at this
      rw [List.find?_cons_of_pos (by simp), List.mem_cons, or_iff_left hn]
      simp [eq_comm]
    · have hk : (k, v) ≠ (a, b) := fun e => h (by cases e; exact Std.ReflCmp.compare_self)
      rw [List.find?_cons_of_neg (by simpa using h), ih hl.2, List.mem_cons]
      exact ⟨.inr, fun hv => hv.resolve_left hk⟩

/-- A map is determined by its look-ups. -/
theorem ext_get? {m n : SortedMap α β} (h : ∀ k, m.get? k = n.get? k) : m = n := by
  have hmem : ∀ e : α × β, e ∈ m.entries ↔ e ∈ n.entries := fun e => by
    rw [← get?_eq_some_iff (m := m) (k := e.1) (v := e.2),
      ← get?_eq_some_iff (m := n) (k := e.1) (v := e.2), h]
  obtain ⟨l, hl⟩ := m
  obtain ⟨l', hl'⟩ := n
  simp only [mk.injEq] at hmem ⊢
  clear h
  induction l generalizing l' with
  | nil =>
    cases l' with
    | nil => rfl
    | cons b l' => exact absurd ((hmem b).2 List.mem_cons_self) (by simp)
  | cons a l ih =>
    cases l' with
    | nil => exact absurd ((hmem a).1 List.mem_cons_self) (by simp)
    | cons b l' =>
      rw [List.pairwise_cons] at hl hl'
      have irr : ∀ e : α × β, compare e.1 e.1 ≠ .lt := fun e => by
        simp [Std.ReflCmp.compare_self]
      have hab : a = b := by
        rcases List.mem_cons.1 ((hmem a).1 List.mem_cons_self) with h1 | h1
        · exact h1
        rcases List.mem_cons.1 ((hmem b).2 List.mem_cons_self) with h2 | h2
        · exact h2.symm
        exact absurd (Std.TransCmp.lt_trans (hl.1 b h2) (hl'.1 a h1)) (irr a)
      subst hab
      congr 1
      refine ih hl.2 l' hl'.2 fun e => ?_
      constructor
      · intro he
        rcases List.mem_cons.1 ((hmem e).1 (List.mem_cons_of_mem _ he)) with rfl | h1
        · exact absurd (hl.1 _ he) (irr _)
        · exact h1
      · intro he
        rcases List.mem_cons.1 ((hmem e).2 (List.mem_cons_of_mem _ he)) with rfl | h1
        · exact absurd (hl'.1 _ he) (irr _)
        · exact h1

theorem get?_insert (m : SortedMap α β) (k k' : α) (v : β) [DecidableEq α] :
    (m.insert k v).get? k' = if k' = k then some v else m.get? k' := by
  split
  · rename_i h
    rw [h, get?_insert_self]
  · rename_i h
    exact get?_insert_of_ne m v fun e => h (Std.LawfulEqCmp.compare_eq_iff_eq.1 e)

omit [Std.TransOrd α] in
theorem get?_filter (p : α → β → Bool) (m : SortedMap α β) (k : α) :
    (m.filter p).get? k = (m.get? k).filter (p k) := by
  apply Option.ext
  intro v
  rw [get?_eq_some_iff]
  simp only [filter, List.mem_filter, Option.filter_eq_some_iff, get?_eq_some_iff]

omit [Std.TransOrd α] in
theorem get?_modify (m : SortedMap α β) (k k' : α) (f : β → β) [DecidableEq α] :
    (m.modify k f).get? k' = if k' = k then (m.get? k').map f else m.get? k' := by
  obtain ⟨l, hl⟩ := m
  simp only [get?, modify]
  clear hl
  induction l with
  | nil => simp
  | cons e l ih =>
    obtain ⟨a, b⟩ := e
    have hfst : (if compare k a = .eq then (a, f b) else (a, b)).1 = a := by split <;> rfl
    rw [List.map_cons]
    by_cases h : compare k' a = .eq
    · obtain rfl : k' = a := Std.LawfulEqCmp.compare_eq_iff_eq.1 h
      rw [List.find?_cons_of_pos (by rw [beq_iff_eq, hfst]; exact h),
        List.find?_cons_of_pos (by rw [beq_iff_eq]; exact h)]
      by_cases hk : k' = k
      · simp [hk, Std.ReflCmp.compare_self]
      · have : compare k k' ≠ .eq := fun e => hk (Std.LawfulEqCmp.compare_eq_iff_eq.1 e).symm
        simp [hk, this]
    · rw [List.find?_cons_of_neg (by rw [beq_iff_eq, hfst]; exact h), ih,
        List.find?_cons_of_neg (by rw [beq_iff_eq]; exact h)]

theorem modify_modify (m : SortedMap α β) (k : α) (f g : β → β) [DecidableEq α] :
    (m.modify k f).modify k g = m.modify k (g ∘ f) := by
  refine ext_get? fun k' => ?_
  simp only [get?_modify]
  split
  · rw [Option.map_map]
  · rfl

omit [Std.TransOrd α] in
theorem get?_erase (m : SortedMap α β) (k k' : α) [DecidableEq α] :
    (m.erase k).get? k' = if k' = k then none else m.get? k' := by
  rw [erase, get?_filter]
  split
  · rename_i h
    subst h
    cases m.get? k' <;> simp [Option.filter]
  · rename_i h
    have : compare k k' ≠ .eq := fun e => h (Std.LawfulEqCmp.compare_eq_iff_eq.1 e).symm
    cases m.get? k' <;> simp [Option.filter, this]

end SortedMap

end LinkedViews
