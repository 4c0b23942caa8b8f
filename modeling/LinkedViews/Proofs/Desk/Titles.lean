import LinkedViews.Proofs.Desk.Panels
import LinkedViews.Proofs.Tree.Shape

/-!
The titles of panels.

A panel is to be called like the node of its target in the tree, which has a path of all the
keys with blanks between them: every bar of the target's name is a blank in it. In the title
the first bar alone is one. Both leave out the directories. So the title is the name of the
node exactly if no bar is left in it.
-/

namespace LinkedViews

namespace Text

variable {c d : Char} {s : String}

/-- The text with every `c` turned into `d`. -/
def replaceEach (c d : Char) (s : String) : String :=
  String.ofList (s.toList.map fun x => if x = c then d else x)

lemma toList_replaceEach (c d : Char) (s : String) :
    (replaceEach c d s).toList = s.toList.map fun x => if x = c then d else x :=
  String.toList_ofList

lemma intercalate_splitOn_eq_map (c d : Char) (cs : List Char) :
    [d].intercalate (cs.splitOn c) = cs.map fun x => if x = c then d else x := by
  induction cs with
  | nil => rw [List.splitOn_nil]; rfl
  | cons x cs ih =>
    obtain ⟨piece, pieces, hcut⟩ := List.exists_cons_of_ne_nil (List.splitOn_ne_nil c cs)
    rw [hcut] at ih
    rw [List.splitOn_cons_eq_if_modifyHead, hcut, List.map_cons, ← ih]
    by_cases hx : x = c
    · rw [if_pos (beq_iff_eq.mpr hx), if_pos hx, List.intercalate_cons_cons]; rfl
    · rw [if_neg (by simp [hx]), if_neg hx, List.modifyHead_cons]
      cases pieces with
      | nil => rw [List.intercalate_singleton, List.intercalate_singleton]
      | cons next pieces => rw [List.intercalate_cons_cons, List.intercalate_cons_cons]; rfl

/-- Pieces of a text, put together with something else between them. -/
lemma intercalate_pieces_eq (c d : Char) (s : String) :
    (String.singleton d).intercalate (pieces c s) = replaceEach c d s := by
  rw [← String.toList_inj, toList_intercalate_pieces, intercalate_splitOn_eq_map,
    toList_replaceEach]

lemma replaceEach_replaceFirst (c d : Char) (s : String) :
    replaceEach c d (replaceFirst c d s) = replaceEach c d s := by
  have hgo : ∀ cs : List Char, (replaceFirst.go c d cs).map (fun x => if x = c then d else x) =
      cs.map fun x => if x = c then d else x := by
    intro cs
    induction cs with
    | nil => rfl
    | cons x cs ih =>
      unfold replaceFirst.go
      split
      · rename_i hx
        simp [hx]
      · rw [List.map_cons, List.map_cons, ih]
  rw [← String.toList_inj, toList_replaceEach, toList_replaceEach, replaceFirst,
    String.toList_ofList, hgo]

/-- What is turned into what makes no difference to where a text is cut. -/
lemma afterLast_replaceEach {cut : Char} (hc : c ≠ cut) (hd : d ≠ cut) (s : String) :
    afterLast cut (replaceEach c d s) = replaceEach c d (afterLast cut s) := by
  have hcut : ((· != cut) ∘ fun x => if x = c then d else x) = (· != cut) := by
    funext x
    by_cases hx : x = c
    · rw [Function.comp_apply, if_pos hx, hx, bne_iff_ne.mpr hd, bne_iff_ne.mpr hc]
    · rw [Function.comp_apply, if_neg hx]
  rw [← String.toList_inj, afterLast, String.toList_ofList, toList_replaceEach,
    toList_replaceEach, afterLast, String.toList_ofList, ← List.map_reverse, List.takeWhile_map,
    hcut, List.map_reverse]

lemma replaceEach_eq_self_iff (h : d ≠ c) : replaceEach c d s = s ↔ c ∉ s.toList := by
  rw [← String.toList_inj, toList_replaceEach]
  conv_lhs => rhs; rw [← List.map_id s.toList]
  rw [List.map_eq_map_iff]
  constructor
  · intro hsame hc
    exact h (by simpa using hsame c hc)
  · intro hc x hx
    exact if_neg fun hxc : x = c => hc (hxc ▸ hx)

end Text

/-- The path of a node has the name of its target, with blanks for bars. -/
lemma Target.pathOf_keys (t : Target) :
    Node.pathOf t.keys = some (Text.replaceEach '|' ' ' t.name) := by
  rw [Node.pathOf, if_neg t.keys_ne_nil]
  exact congrArg some (Text.intercalate_pieces_eq '|' ' ' t.name)

lemma Session.Reached.exists_node {s : Session} (hs : s.Reached) {t : Target}
    (ht : s.store.contains t) : ∃ n, s.tree.find? t.keys = some n ∧
      n.path = some (Text.replaceEach '|' ' ' t.name) ∧ n.product = some t := by
  have hc := hs.coherent
  obtain ⟨n, hfind, hproduct⟩ := Tree.find?_ofProducts.mpr ((hc.contains_iff t).mp ht)
  rw [← hc.mirrored] at hfind
  have hsound : Node.Sound t.keys n := hs.sound_tree.leadsTo (Node.leadsTo_of_find? hfind)
  exact ⟨n, hfind, hsound.path_eq.trans t.pathOf_keys, hproduct⟩

namespace Desk

variable {H : Type} [Host H]

/-- A graphic without a panel is shown in a new one. -/
lemma openProduct_of_no_panel {s : Session} {t : Target} {p : Product}
    (hp : s.store.find? t = some p) (hgraphic : p.kind = .graphic)
    (hnone : s.placement.panel? t = none) (h : H) :
    let placed := s.place t.uri .product
    let made := Host.newPanel h t.panelTitle placed.1
    openProduct ⟨s, h⟩ t = (some (.panel made.1), ⟨placed.2.setPanel t made.1,
      Host.raisePanel (Host.fillPanel made.2 made.1 p.content) made.1⟩) := by
  rw [openProduct_of_graphic hp hgraphic, openPanel_of_no_panel hnone]

/-- **A new panel is called like the node of its target exactly if no bar is left in its
title.** The name of the node is the path of its keys without directories. It has blanks for
all bars of the title. -/
theorem titled_like_node {s : Session} (hs : s.Reached) {t : Target} {p : Product}
    (hp : s.store.find? t = some p) (hgraphic : p.kind = .graphic)
    (hnone : s.placement.panel? t = none) (h : H) :
    (let placed := s.place t.uri .product
     let made := Host.newPanel h t.panelTitle placed.1
     openProduct ⟨s, h⟩ t = (some (.panel made.1), ⟨placed.2.setPanel t made.1,
       Host.raisePanel (Host.fillPanel made.2 made.1 p.content) made.1⟩)) ∧
    ∃ n path, (s.tree.find? t.keys = some n ∧ n.product = some t ∧ n.path = some path) ∧
      Text.afterLast '/' path = Text.replaceEach '|' ' ' t.panelTitle ∧
      (t.panelTitle = Text.afterLast '/' path ↔ '|' ∉ t.panelTitle.toList) := by
  have hstored : s.store.contains t := by rw [Store.contains, hp]; rfl
  obtain ⟨n, hfind, hpath, hproduct⟩ := hs.exists_node hstored
  have hname : Text.afterLast '/' (Text.replaceEach '|' ' ' t.name) =
      Text.replaceEach '|' ' ' t.panelTitle := by
    rw [Target.panelTitle, ← Text.afterLast_replaceEach (by decide) (by decide),
      Text.replaceEach_replaceFirst]
  refine ⟨openProduct_of_no_panel hp hgraphic hnone h, n, _, ⟨hfind, hproduct, hpath⟩, hname, ?_⟩
  rw [hname, eq_comm, Text.replaceEach_eq_self_iff (by decide)]

/-- A bar and a slash in the name of a graphic: what is in front of the slash is left out. -/
theorem titled_like_node_slash :
    let p := Product.plain "/a.c" "n|m/k" "svg" "<svg/>"
    let s := ((Session.new .initial).save p).session
    let d := (openProduct ⟨s, MemoryHost.empty⟩ p.target).2
    (s.Reached ∧ s.store.find? p.target = some p ∧ p.kind = .graphic ∧
      s.placement.panel? p.target = none ∧ '|' ∉ p.target.panelTitle.toList) ∧
    ∃ n path, (s.tree.find? p.target.keys = some n ∧ n.path = some path) ∧
      (d.host.panel? ⟨0⟩).map Panel.title = some (Text.afterLast '/' path) := by
  intro p s d
  have hreached : s.Reached := .next (.new _) (.save p)
  have hp : s.store.find? p.target = some p := by decide
  have hgraphic : p.kind = .graphic := by decide
  have hnone : s.placement.panel? p.target = none := by decide
  have hbar : '|' ∉ p.target.panelTitle.toList := by decide
  have htitle : (d.host.panel? ⟨0⟩).map Panel.title = some p.target.panelTitle := by decide
  obtain ⟨-, n, path, ⟨hfind, -, hpath⟩, -, hiff⟩ :=
    titled_like_node hreached hp hgraphic hnone MemoryHost.empty
  exact ⟨⟨hreached, hp, hgraphic, hnone, hbar⟩, n, path, ⟨hfind, hpath⟩,
    htitle.trans (congrArg some (hiff.mpr hbar))⟩

/-- A bar in the name of a graphic is left in the title, and a blank in the path of the node. -/
theorem titled_with_bar :
    let p := Product.plain "/a.c" "n|m" "svg" "<svg/>"
    let s := ((Session.new .initial).save p).session
    let d := (openProduct ⟨s, MemoryHost.empty⟩ p.target).2
    s.Reached ∧ (s.store.find? p.target = some p ∧ p.kind = .graphic ∧
      s.placement.panel? p.target = none) ∧
    (d.host.panel? ⟨0⟩).map Panel.title = some "a.c n|m.svg" ∧
    (s.tree.find? p.target.keys).bind Node.path = some "/a.c n m.svg" ∧
    Text.afterLast '/' "/a.c n m.svg" = "a.c n m.svg" := by
  intro p s d
  exact ⟨.next (.new _) (.save p), by decide, by decide, by decide +kernel, by decide⟩

end Desk

end LinkedViews
