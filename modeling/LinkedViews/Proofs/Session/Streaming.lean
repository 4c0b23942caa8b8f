import Mathlib.Data.List.Induction
import Mathlib.Order.Bounds.Basic
import LinkedViews.Proofs.Session.Dropping

/-!
What the history of a session says about its products.

A history is all that was saved and dropped, in the order in which it came. The versions of a
product may stand anywhere in it, between those of other products, and so may the drops that it
fell to. A version that is stored has the content of all the versions since the stream of them
began: with the last one that took the place of those before it, or with the first one since
the product was dropped, whichever came later.
-/

namespace LinkedViews

/-- What changes the products of a session. -/
inductive Change where
  | save (p : Product)
  | drop (source : Source)
  deriving DecidableEq

namespace Session

def change (s : Session) : Change → Session
  | .save p => (s.save p).session
  | .drop source => (s.drop source).session

/-- The session that a history leads to. -/
def past (settings : Settings) (h : List Change) : Session := h.foldl change (new settings)

section History

variable (settings : Settings) (h : List Change) (t : Target) (i : Nat)

/-- At a place of the history, a version is saved at the target. -/
def SavedAt (p : Product) : Prop := h[i]? = some (.save p) ∧ p.target = t

/-- The version saved there takes the place of those before it. -/
def ReplacedAt : Prop := ∃ p, SavedAt h t i p ∧ p.continues = false

/-- A drop of some document takes the target with it. -/
def DroppedAt : Prop :=
  ∃ source, h[i]? = some (.drop source) ∧ t ∈ ((past settings (h.take i)).drop source).result

/-- A version is saved there, and the target is not dropped after that. -/
def KeptAt : Prop := (∃ p, SavedAt h t i p) ∧ ∀ j, DroppedAt settings h t j → j < i

/-- The versions saved at a target, in the order in which they came. -/
def versions : List Product :=
  h.filterMap fun
    | .save p => if p.target = t then some p else none
    | .drop _ => none

/-- The product stored at a target, told from the history. -/
structure Streamed (p : Product) (first start : Nat) (last : Product) : Prop where
  /-- The first save since the target was dropped, or at all. -/
  kept : IsLeast {i | KeptAt settings h t i} first
  /-- The stream begins there, or with the last version that replaces, if that is later. -/
  begun : IsGreatest (insert first {i | ReplacedAt h t i}) start
  latest : (versions h t).getLast? = some last
  /-- All but the content is that of the latest version. -/
  stored : p = { last with content := String.join ((versions (h.drop start) t).map (·.content)) }

end History

variable {settings : Settings} {h : List Change} {t : Target} {c : Change} {p q : Product}
  {source : Source} {i first start : Nat}

lemma past_append_singleton : past settings (h ++ [c]) = (past settings h).change c :=
  List.foldl_concat ..

/-! ### One more change -/

lemma SavedAt.lt_length (hi : SavedAt h t i p) : i < h.length :=
  (List.getElem?_eq_some_iff.mp hi.1).1

lemma DroppedAt.lt_length (hi : DroppedAt settings h t i) : i < h.length :=
  have ⟨_, hc, _⟩ := hi
  (List.getElem?_eq_some_iff.mp hc).1

lemma KeptAt.lt_length (hi : KeptAt settings h t i) : i < h.length :=
  have ⟨_, hp⟩ := hi.1
  hp.lt_length

lemma ReplacedAt.lt_length (hi : ReplacedAt h t i) : i < h.length :=
  have ⟨_, hp, _⟩ := hi
  hp.lt_length

lemma getElem?_append_singleton {c' : Change} :
    (h ++ [c])[i]? = some c' ↔ h[i]? = some c' ∨ i = h.length ∧ c = c' := by
  rcases Nat.lt_trichotomy i h.length with hi | rfl | hi
  · simp [List.getElem?_append_left hi, hi.ne]
  · simp
  · have hout : (h ++ [c])[i]? = none := by
      rw [List.getElem?_append_right hi.le, List.getElem?_eq_none]
      rw [List.length_singleton]
      omega
    simp [hout, List.getElem?_eq_none hi.le, hi.ne']

lemma savedAt_append_singleton :
    SavedAt (h ++ [c]) t i p ↔ SavedAt h t i p ∨ i = h.length ∧ c = .save p ∧ p.target = t := by
  simp only [SavedAt, getElem?_append_singleton]
  tauto

lemma droppedAt_append_singleton :
    DroppedAt settings (h ++ [c]) t i ↔ DroppedAt settings h t i ∨
      i = h.length ∧ ∃ source, c = .drop source ∧ t ∈ ((past settings h).drop source).result := by
  simp only [DroppedAt, getElem?_append_singleton]
  constructor
  · rintro ⟨source, hc | ⟨rfl, rfl⟩, ht⟩
    · have hi : i ≤ h.length := (List.getElem?_eq_some_iff.mp hc).1.le
      rw [List.take_append_of_le_length hi] at ht
      exact .inl ⟨source, hc, ht⟩
    · rw [List.take_left] at ht
      exact .inr ⟨rfl, source, rfl, ht⟩
  · rintro (⟨source, hc, ht⟩ | ⟨rfl, source, rfl, ht⟩)
    · have hi : i ≤ h.length := (List.getElem?_eq_some_iff.mp hc).1.le
      exact ⟨source, .inl hc, by rw [List.take_append_of_le_length hi]; exact ht⟩
    · exact ⟨source, .inr ⟨rfl, rfl⟩, by rw [List.take_left]; exact ht⟩

lemma replacedAt_append_save : ReplacedAt (h ++ [.save q]) t i ↔
    ReplacedAt h t i ∨ i = h.length ∧ q.target = t ∧ q.continues = false := by
  simp only [ReplacedAt, savedAt_append_singleton, Change.save.injEq]
  constructor
  · rintro ⟨p, hp | ⟨rfl, rfl, ht⟩, hnew⟩
    · exact .inl ⟨p, hp, hnew⟩
    · exact .inr ⟨rfl, ht, hnew⟩
  · rintro (⟨p, hp, hnew⟩ | ⟨rfl, ht, hnew⟩)
    · exact ⟨p, .inl hp, hnew⟩
    · exact ⟨q, .inr ⟨rfl, rfl, ht⟩, hnew⟩

lemma keptAt_append_save : KeptAt settings (h ++ [.save q]) t i ↔
    KeptAt settings h t i ∨ i = h.length ∧ q.target = t := by
  simp only [KeptAt, savedAt_append_singleton, droppedAt_append_singleton, Change.save.injEq,
    reduceCtorEq, false_and, exists_false, and_false, or_false]
  constructor
  · rintro ⟨⟨p, hp | ⟨rfl, rfl, ht⟩⟩, hdrops⟩
    · exact .inl ⟨⟨p, hp⟩, hdrops⟩
    · exact .inr ⟨rfl, ht⟩
  · rintro (⟨⟨p, hp⟩, hdrops⟩ | ⟨rfl, ht⟩)
    · exact ⟨⟨p, .inl hp⟩, hdrops⟩
    · exact ⟨⟨q, .inr ⟨rfl, rfl, ht⟩⟩, fun j hj => hj.lt_length⟩

lemma keptAt_append_drop : KeptAt settings (h ++ [.drop source]) t i ↔
    KeptAt settings h t i ∧ t ∉ ((past settings h).drop source).result := by
  simp only [KeptAt, savedAt_append_singleton, droppedAt_append_singleton, reduceCtorEq,
    false_and, and_false, or_false, Change.drop.injEq, exists_eq_left']
  constructor
  · rintro ⟨⟨p, hp⟩, hdrops⟩
    refine ⟨⟨⟨p, hp⟩, fun j hj => hdrops j (.inl hj)⟩, fun ht => ?_⟩
    exact (hdrops h.length (.inr ⟨rfl, ht⟩)).not_gt hp.lt_length
  · rintro ⟨⟨hsaved, hdrops⟩, ht⟩
    refine ⟨hsaved, ?_⟩
    rintro j (hj | ⟨-, hj⟩)
    · exact hdrops j hj
    · exact absurd hj ht

lemma versions_append (h h' : List Change) (t : Target) :
    versions (h ++ h') t = versions h t ++ versions h' t := List.filterMap_append

lemma versions_save_self : versions [.save q] q.target = [q] := by simp [versions]

/-! ### The stream of a target -/

lemma Streamed.start_lt_length (hs : Streamed settings h t p first start q) :
    start < h.length := by
  rcases hs.begun.1 with rfl | hreplaced
  · exact KeptAt.lt_length hs.kept.1
  · exact ReplacedAt.lt_length hreplaced

lemma versions_drop_append (hs : start ≤ h.length) : versions ((h ++ [c]).drop start) t =
    versions (h.drop start) t ++ versions [c] t := by
  rw [List.drop_append_of_le_length hs, versions_append]

/-- A change that tells nothing of the target: it neither saves a version at it nor drops it. -/
structure Silent (settings : Settings) (h : List Change) (t : Target) (c : Change) : Prop where
  kept (i : Nat) : KeptAt settings (h ++ [c]) t i ↔ KeptAt settings h t i
  replaced (i : Nat) : ReplacedAt (h ++ [c]) t i ↔ ReplacedAt h t i
  versions : versions [c] t = []

lemma silent_save (hne : q.target ≠ t) : Silent settings h t (.save q) where
  kept _ := by simp [keptAt_append_save, hne]
  replaced _ := by simp [replacedAt_append_save, hne]
  versions := by simp [Session.versions, hne]

lemma silent_drop (ht : t ∉ ((past settings h).drop source).result) :
    Silent settings h t (.drop source) where
  kept _ := by simp [keptAt_append_drop, ht]
  replaced _ := by simp [ReplacedAt, savedAt_append_singleton]
  versions := rfl

/-- The stream outlasts what does not touch it. -/
lemma Streamed.silent (hs : Streamed settings h t p first start q) (hc : Silent settings h t c) :
    Streamed settings (h ++ [c]) t p first start q where
  kept := by simpa only [hc.kept] using hs.kept
  begun := by simpa only [hc.replaced] using hs.begun
  latest := by rw [versions_append, hc.versions, List.append_nil, hs.latest]
  stored := by
    rw [versions_drop_append hs.start_lt_length.le, hc.versions, List.append_nil]
    exact hs.stored

/-- The version saved last begins the stream if it is the first, or if it replaces. -/
lemma streamed_of_start (hfirst : IsLeast {i | KeptAt settings (h ++ [.save q]) q.target i} first)
    (hstart : first = h.length ∨ q.continues = false) :
    Streamed settings (h ++ [.save q]) q.target q first h.length q where
  kept := hfirst
  begun := by
    -- nothing comes after it
    have hlast : ∀ i, i < (h ++ [Change.save q]).length → i ≤ h.length := fun i hi => by
      rw [List.length_append, List.length_singleton] at hi
      omega
    constructor
    · rcases hstart with rfl | hnew
      · exact .inl rfl
      · exact .inr (replacedAt_append_save.mpr (.inr ⟨rfl, rfl, hnew⟩))
    · rintro i (rfl | hi)
      · exact hlast i (KeptAt.lt_length hfirst.1)
      · exact hlast i (ReplacedAt.lt_length hi)
  latest := by rw [versions_append, versions_save_self, List.getLast?_concat]
  stored := by
    rw [List.drop_left, versions_save_self]
    simp

/-- With nothing in the store, the stream begins with the version saved. -/
lemma streamed_of_absent (hnone : ∀ i, ¬ KeptAt settings h q.target i) :
    Streamed settings (h ++ [.save q]) q.target q h.length h.length q := by
  refine streamed_of_start ⟨keptAt_append_save.mpr (.inr ⟨rfl, rfl⟩), fun i hi => ?_⟩ (.inl rfl)
  rcases keptAt_append_save.mp hi with hi | ⟨rfl, -⟩
  · exact absurd hi (hnone i)
  · exact le_rfl

lemma Streamed.isLeast_append_save {t : Target} {old last : Product}
    (hs : Streamed settings h t old first start last) (q : Product) :
    IsLeast {i | KeptAt settings (h ++ [.save q]) t i} first := by
  refine ⟨keptAt_append_save.mpr (.inl hs.kept.1), fun i hi => ?_⟩
  rcases keptAt_append_save.mp hi with hi | ⟨rfl, -⟩
  · exact hs.kept.2 hi
  · exact (KeptAt.lt_length hs.kept.1).le

/-- A version that continues goes on with the stream. -/
lemma Streamed.continued {old last : Product}
    (hs : Streamed settings h q.target old first start last) (hq : q.continues = true) :
    Streamed settings (h ++ [.save q]) q.target { q with content := old.content ++ q.content }
      first start q where
  kept := hs.isLeast_append_save q
  begun := by
    have hreplaced : ∀ i, ReplacedAt (h ++ [.save q]) q.target i ↔ ReplacedAt h q.target i := by
      simp [replacedAt_append_save, hq]
    simpa only [hreplaced] using hs.begun
  latest := by rw [versions_append, versions_save_self, List.getLast?_concat]
  stored := by
    rw [versions_drop_append hs.start_lt_length.le, versions_save_self, List.map_append,
      String.join_append, hs.stored]
    simp

/-! ### The whole history -/

/-- What the history tells of a look-up: how the stream came about, or that there is none. -/
def Told (settings : Settings) (h : List Change) (t : Target) : Option Product → Prop
  | none => ∀ i, ¬ KeptAt settings h t i
  | some p => ∃ first start last, Streamed settings h t p first start last

variable {found : Option Product}

lemma Told.silent (hs : Told settings h t found) (hc : Silent settings h t c) :
    Told settings (h ++ [c]) t found := by
  cases found with
  | none => exact fun i hi => hs i ((hc.kept i).mp hi)
  | some p =>
    obtain ⟨first, start, last, hs⟩ := hs
    exact ⟨first, start, last, hs.silent hc⟩

lemma Told.save_self (hs : Told settings h q.target found) :
    Told settings (h ++ [.save q]) q.target (some (q.after found)) := by
  cases found with
  | none => exact ⟨_, _, _, streamed_of_absent hs⟩
  | some old =>
    obtain ⟨first, start, last, hs⟩ := hs
    rw [Product.after]
    split
    · rename_i hq
      exact ⟨first, start, q, hs.continued hq⟩
    · rename_i hq
      have hnew : q.continues = false := Bool.eq_false_iff.mpr hq
      exact ⟨first, h.length, q, streamed_of_start (hs.isLeast_append_save q) (.inr hnew)⟩

lemma told_drop_of_mem (ht : t ∈ ((past settings h).drop source).result) :
    Told settings (h ++ [.drop source]) t none := fun _ hi => (keptAt_append_drop.mp hi).2 ht

/-- Each change either goes past the target, or saves a version at it, or drops it. -/
lemma told_past (settings : Settings) (h : List Change) (t : Target) :
    Told settings h t ((past settings h).store.find? t) := by
  induction h using List.reverseRecOn with
  | nil => exact fun i hi => absurd hi.lt_length (Nat.not_lt_zero i)
  | append_singleton h c ih =>
    rw [past_append_singleton]
    cases c with
    | save q =>
      rw [change, find?_save]
      split
      · rename_i ht
        subst ht
        exact ih.save_self
      · rename_i hne
        exact ih.silent (silent_save (Ne.symm hne))
    | drop source =>
      by_cases ht : t ∈ ((past settings h).drop source).result
      · have hgone : ((past settings h).change (.drop source)).store.find? t = none :=
          Store.find?_dropSource_of_mem ht
        rw [hgone]
        exact told_drop_of_mem ht
      · have hstays : ((past settings h).change (.drop source)).store.find? t =
            (past settings h).store.find? t := Store.find?_dropSource_of_notMem ht
        rw [hstays]
        exact ih.silent (silent_drop ht)

/-- A target is stored exactly if a version was saved since it was last dropped. -/
theorem stored_iff_keptAt (settings : Settings) (h : List Change) (t : Target) :
    (past settings h).store.contains t ↔ ∃ i, KeptAt settings h t i := by
  have htold := told_past settings h t
  rw [Store.contains]
  cases hfound : (past settings h).store.find? t with
  | none =>
    rw [hfound] at htold
    constructor
    · intro hstored
      cases hstored
    · rintro ⟨i, hi⟩
      exact absurd hi (htold i)
  | some p =>
    rw [hfound] at htold
    obtain ⟨first, _, _, hs⟩ := htold
    exact ⟨fun _ => ⟨first, hs.kept.1⟩, fun _ => rfl⟩

/-- **A stored product is the stream of its versions**, whatever else is saved and dropped
between them. Its content is theirs, one after the other, since the stream began, and
everything else is that of the latest one. -/
theorem stored_streamed (settings : Settings) (h : List Change) (t : Target) (p : Product)
    (hp : (past settings h).store.find? t = some p) :
    ∃ first start last, Streamed settings h t p first start last := by
  have htold := told_past settings h t
  rw [hp] at htold
  exact htold

/-- A stream that is dropped, and goes on with a version that continues what is gone. -/
theorem stored_streamed_again :
    let chunk := fun content continues =>
      { Product.plain "/a.c" "ast" "text" content with continues }
    let other := Product.plain "/b.c" "ast" "text" "x"
    let t := other.target
    let h : List Change := [.save (chunk "1" false), .save (chunk "2" true), .save other,
      .drop (.ofPath "/a.c"), .save (chunk "3" true), .drop (.ofPath "/b.c"), .save (chunk "4" true)]
    let p := chunk "34" true
    (past .initial h).store.find? p.target = some p ∧ (past .initial h).store.find? t = none ∧
      ∃ first start last, Streamed .initial h p.target p first start last := by
  intro chunk other t h p
  have hp : (past .initial h).store.find? p.target = some p := by decide
  exact ⟨hp, by decide, stored_streamed .initial h p.target p hp⟩

end Session

end LinkedViews
