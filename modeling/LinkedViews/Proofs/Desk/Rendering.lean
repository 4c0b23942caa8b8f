import Mathlib.Data.List.Nodup
import LinkedViews.Proofs.Desk.Room
import LinkedViews.Proofs.Session.Identity
import LinkedViews.Session.Invalidation

/-!
Renderers of what a session tells.

A renderer keeps the contents of the targets in sight and the tree as it last fetched them. It
is one of the subscribers, and fetches again what it is told of. Every operation tells of all
that it changes in sight, and tells it when the change is made. So a renderer that was up to
date stays up to date.
-/

namespace LinkedViews

/-! ### What is told -/

/-- The target whose content is to be fetched again. -/
def Event.target? : Event → Option Target
  | .text t => some t
  | .graphic t _ => some t
  | .tree => none

/-- An event, and the session at the moment when it is told. -/
structure Notice where
  event : Event
  session : Session

/-- The events of an operation that tells them when all is done. -/
def Reply.told {α : Type} (r : Reply α) : List Notice := r.events.map fun e => ⟨e, r.session⟩

namespace Session

/-- The events of a save. When the first is told, the version is stored, and the tree grows
before the second. -/
def toldBySave (s : Session) (p : Product) : List Notice :=
  let saved := s.save p
  saved.events.zipWith Notice.mk [{ saved.session with tree := s.tree }, saved.session]

lemma target?_savedEvent (s : Session) (saved : Saved) :
    (s.savedEvent saved).target? = some saved.target := by
  unfold savedEvent
  split <;> rfl

lemma content_congr {s s' : Session} (h : s'.store = s.store) (t : Target) :
    s'.content t = s.content t := by
  rw [content, h]
  rfl

end Session

namespace Notice

variable {m : Notice} {n : Nat}

/-- The calls of one subscriber that an event leads to. -/
def callsTo (n : Nat) (m : Notice) : List Notice :=
  ((m.session.deliveries [m.event]).filter fun call => call.1 = n).map fun call =>
    ⟨call.2, m.session⟩

/-- Each subscriber is called once. -/
lemma callsTo_eq (hn : n < m.session.subscribers) : m.callsTo n = [m] := by
  have hcalls : (List.range m.session.subscribers).filter (fun k => decide (k = n)) = [n] := by
    have hcount := List.count_eq_one_of_mem List.nodup_range (List.mem_range.mpr hn)
    rw [List.filter_eq, hcount]
    rfl
  simp [callsTo, Session.deliveries, List.filter_map, Function.comp_def, hcalls]

/-- What is fetched when the event is told is the same in a later session. -/
structure Settled (m : Notice) (s : Session) : Prop where
  content : ∀ t, m.event.target? = some t → m.session.content t = s.content t
  tree : m.event = .tree → m.session.tree = s.tree

/-- The tree is not fetched when a content is told of. -/
lemma settled_of_store {e : Event} {t : Target} {s s' : Session} (he : e.target? = some t)
    (hstore : s'.store = s.store) : (Notice.mk e s).Settled s' where
  content u _ := (Session.content_congr hstore u).symm
  tree htree := by
    have htree : e = .tree := htree
    rw [htree] at he
    cases he

end Notice

namespace Reply

variable {α : Type} {r : Reply α} {m : Notice}

/-- What is told when all is done is settled. -/
lemma settled_told (hm : m ∈ r.told) : m.Settled r.session := by
  obtain ⟨e, -, rfl⟩ := List.mem_map.mp hm
  exact ⟨fun _ _ => rfl, fun _ => rfl⟩

lemma session_told (hm : m ∈ r.told) : m.session = r.session := by
  obtain ⟨e, -, rfl⟩ := List.mem_map.mp hm
  rfl

lemma exists_told_iff {P : Event → Prop} :
    (∃ m ∈ r.told, P m.event) ↔ ∃ e ∈ r.events, P e := by
  simp [told]

end Reply

/-- A drop tells of the targets in editors, and of no other. -/
lemma Session.told_dropAndRefresh_iff {H : Type} [Host H] {s : Session} {h : H} {source : Source}
    {t : Target} : (∃ e ∈ (s.dropAndRefresh h source).events, e.target? = some t) ↔
      ∃ v ∈ Host.visible h, Target.parse v.uri = .ok t := by
  constructor
  · rintro ⟨e, he, hname⟩
    rcases List.mem_append.mp he with he | he
    · rw [List.mem_singleton.mp he] at hname
      cases hname
    · obtain ⟨u, hu, rfl⟩ := List.mem_map.mp he
      obtain ⟨v, hv, hparse⟩ := List.mem_filterMap.mp hu
      cases hname
      cases hv' : Target.parse v.uri with
      | error err =>
        rw [hv'] at hparse
        cases hparse
      | ok u =>
        rw [hv'] at hparse
        cases hparse
        exact ⟨v, hv, hv'⟩
  · rintro ⟨v, hv, hparse⟩
    have hview : t ∈ (Host.visible h).filterMap fun v => (Target.parse v.uri).toOption :=
      List.mem_filterMap.mpr ⟨v, hv, by rw [hparse]; rfl⟩
    exact ⟨.text t, List.mem_append_right _ (List.mem_map_of_mem hview), rfl⟩

/-! ### Renderers -/

/-- What a renderer fetched last. -/
structure Renderer where
  /-- The contents of the targets that it shows. -/
  contents : SortedMap Target String
  tree : Tree

namespace Renderer

/-- Fetches what an event is about. Of the contents only those that are shown are kept. -/
def hear (r : Renderer) (e : Event) (s : Session) : Renderer :=
  match e with
  | .text t | .graphic t _ => { r with contents := r.contents.modify t fun _ => s.content t }
  | .tree => { r with tree := s.tree }

/-- Hears, as one of the subscribers, what an operation tells. It fetches at once, or when the
operation is over. -/
def follow (atOnce : Bool) (n : Nat) (r : Renderer) (told : List Notice) (after : Session) :
    Renderer :=
  (told.flatMap (Notice.callsTo n)).foldl
    (fun r m => r.hear m.event (if atOnce then m.session else after)) r

/-- The renderer shows every target in sight with its content, and the tree. -/
structure UpToDate (r : Renderer) (d : Desk MemoryHost) : Prop where
  contents : ∀ v ∈ Host.visible d.host, ∀ t, Target.parse v.uri = .ok t →
    r.contents.get? t = some (d.session.content t)
  tree : r.tree = d.session.tree

variable {r : Renderer} {m : Notice} {told : List Notice} {s s' : Session} {t : Target} {n : Nat}
  {w : String} {d d' : Desk MemoryHost}

lemma hear_congr (h : m.Settled s) : r.hear m.event m.session = r.hear m.event s := by
  obtain ⟨e, moment⟩ := m
  cases e with
  | text t => simp only [hear, h.content t rfl]
  | graphic t panel => simp only [hear, h.content t rfl]
  | tree =>
    have htree : moment.tree = s.tree := h.tree rfl
    simp only [hear, htree]

/-- A subscriber hears every event once, and it makes no difference when it fetches. -/
lemma follow_eq (atOnce : Bool) (r : Renderer) (hn : ∀ m ∈ told, n < m.session.subscribers)
    (hs : ∀ m ∈ told, m.Settled s) :
    r.follow atOnce n told s = told.foldl (fun r m => r.hear m.event s) r := by
  unfold follow
  induction told generalizing r with
  | nil => rfl
  | cons m told ih =>
    have hfetch : r.hear m.event (if atOnce then m.session else s) = r.hear m.event s := by
      cases atOnce with
      | true => exact hear_congr (hs m List.mem_cons_self)
      | false => rfl
    rw [List.flatMap_cons, Notice.callsTo_eq (hn m List.mem_cons_self), List.singleton_append,
      List.foldl_cons, List.foldl_cons, hfetch]
    exact ih _ (fun m hm => hn m (List.mem_cons_of_mem _ hm))
      fun m hm => hs m (List.mem_cons_of_mem _ hm)

lemma get?_hear (r : Renderer) (e : Event) (s : Session) (t : Target) :
    (r.hear e s).contents.get? t =
      if e.target? = some t then (r.contents.get? t).map fun _ => s.content t
      else r.contents.get? t := by
  have hmodify : ∀ u, (r.contents.modify u fun _ => s.content u).get? t =
      if some u = some t then (r.contents.get? t).map fun _ => s.content t
      else r.contents.get? t := by
    intro u
    rw [SortedMap.get?_modify]
    by_cases hu : t = u
    · rw [if_pos hu, if_pos (congrArg some hu.symm), hu]
    · rw [if_neg hu, if_neg fun h => hu (Option.some.inj h).symm]
  cases e with
  | text u => exact hmodify u
  | graphic u panel => exact hmodify u
  | tree => rfl

/-- A content that is shown is right in the end, if it was right or is told of. -/
lemma get?_foldl_hear (hshown : r.contents.get? t = some w)
    (h : w = s.content t ∨ ∃ m ∈ told, m.event.target? = some t) :
    (told.foldl (fun r m => r.hear m.event s) r).contents.get? t = some (s.content t) := by
  induction told generalizing r w with
  | nil =>
    rcases h with rfl | ⟨m, hm, -⟩
    · exact hshown
    · cases hm
  | cons m told ih =>
    have hheard := get?_hear r m.event s t
    rw [hshown] at hheard
    by_cases hm : m.event.target? = some t
    · rw [if_pos hm] at hheard
      exact ih hheard (.inl rfl)
    · rw [if_neg hm] at hheard
      refine ih hheard (h.imp_right ?_)
      rintro ⟨m', hm', ht⟩
      rcases List.mem_cons.mp hm' with rfl | hm'
      · exact absurd ht hm
      · exact ⟨m', hm', ht⟩

lemma tree_hear (r : Renderer) (e : Event) (s : Session) :
    (r.hear e s).tree = if e = .tree then s.tree else r.tree := by
  cases e <;> rfl

lemma tree_foldl_hear (h : r.tree = s.tree ∨ ∃ m ∈ told, m.event = .tree) :
    (told.foldl (fun r m => r.hear m.event s) r).tree = s.tree := by
  induction told generalizing r with
  | nil =>
    rcases h with htree | ⟨m, hm, -⟩
    · exact htree
    · cases hm
  | cons m told ih =>
    have hheard := tree_hear r m.event s
    by_cases hm : m.event = .tree
    · rw [if_pos hm] at hheard
      exact ih (.inl hheard)
    · rw [if_neg hm] at hheard
      refine ih (h.imp hheard.trans ?_)
      rintro ⟨m', hm', ht⟩
      rcases List.mem_cons.mp hm' with rfl | hm'
      · exact absurd ht hm
      · exact ⟨m', hm', ht⟩

end Renderer

/-! ### What is announced -/

namespace MemoryHost

/-- Some editor shows a view of the target. -/
def InSight (h : MemoryHost) (t : Target) : Prop := ∃ e, h.shown e = .view t

lemma inSight_iff {h : MemoryHost} {t : Target} :
    h.InSight t ↔ ∃ v ∈ Host.visible h, Target.parse v.uri = .ok t := by
  constructor
  · rintro ⟨e, he⟩
    obtain ⟨v, hv, -, huri⟩ := exists_visible (shown_eq_view_iff.mp he)
    exact ⟨v, hv, Target.parse_eq_ok_iff.mpr huri⟩
  · rintro ⟨v, hv, hparse⟩
    exact ⟨v.id, shown_of_view (Target.parse_eq_ok_iff.mp hparse ▸ uri?_of_mem_visible hv)⟩

lemma SameDocuments.inSight {h h' : MemoryHost} (hs : SameDocuments h h') {t : Target}
    (ht : h'.InSight t) : h.InSight t := by
  obtain ⟨e, he⟩ := ht
  exact ⟨e, (hs.shown e).symm.trans he⟩

end MemoryHost

namespace Desk

open MemoryHost

variable {d d' : Desk MemoryHost} {told : List Notice}

/-- From one desk to the other, all that changed is told of and counted, and nothing is told
before it is so. No target came into sight. -/
structure Announced (d d' : Desk MemoryHost) (told : List Notice) : Prop where
  inSight : ∀ t, d'.host.InSight t → d.host.InSight t
  subscribers : d'.session.subscribers = d.session.subscribers
  called : ∀ m ∈ told, m.session.subscribers = d.session.subscribers
  settled : ∀ m ∈ told, m.Settled d'.session
  content : ∀ t, d'.host.InSight t → d'.session.content t ≠ d.session.content t →
    ∃ m ∈ told, m.event.target? = some t
  tree : d'.session.tree ≠ d.session.tree → ∃ m ∈ told, m.event = .tree
  counted : (d'.session.store = d.session.store ∧ d'.session.tree = d.session.tree) ∨
    d'.session.version = Word.next d.session.version

/-- A renderer that hears all that is announced stays up to date. -/
lemma Announced.upToDate {r : Renderer} (ha : Announced d d' told) (h : r.UpToDate d)
    (atOnce : Bool) {n : Nat} (hn : n < d.session.subscribers) :
    (r.follow atOnce n told d'.session).UpToDate d' := by
  rw [Renderer.follow_eq atOnce r (fun m hm => ha.called m hm ▸ hn) ha.settled]
  constructor
  · intro v hv t hparse
    have hsight : d'.host.InSight t := inSight_iff.mpr ⟨v, hv, hparse⟩
    obtain ⟨v₀, hv₀, hparse₀⟩ := inSight_iff.mp (ha.inSight t hsight)
    refine Renderer.get?_foldl_hear (h.contents v₀ hv₀ t hparse₀) ?_
    by_cases hsame : d'.session.content t = d.session.content t
    · exact .inl hsame.symm
    · exact .inr (ha.content t hsight hsame)
  · refine Renderer.tree_foldl_hear ?_
    by_cases hsame : d'.session.tree = d.session.tree
    · exact .inl (h.tree.trans hsame.symm)
    · exact .inr (ha.tree hsame)

/-- What leaves products and tree alone need not be announced. -/
lemma announced_of_same (hstore : d'.session.store = d.session.store)
    (htree : d'.session.tree = d.session.tree)
    (hsubscribers : d'.session.subscribers = d.session.subscribers)
    (hsight : ∀ t, d'.host.InSight t → d.host.InSight t) : Announced d d' [] where
  inSight := hsight
  subscribers := hsubscribers
  called := nofun
  settled := nofun
  content t _ hne := absurd (Session.content_congr hstore t) hne
  tree hne := absurd htree hne
  counted := .inl ⟨hstore, htree⟩

lemma announced_of_undisturbed (hu : Session.Undisturbed d.session d'.session)
    (hsight : ∀ t, d'.host.InSight t → d.host.InSight t) : Announced d d' [] :=
  announced_of_same hu.store hu.tree hu.subscribers hsight

/-- A save tells of the one content that it changes, and of the tree. -/
lemma announced_save (d : Desk MemoryHost) (p : Product) :
    Announced d { d with session := (d.session.save p).session } (d.session.toldBySave p) where
  inSight _ ht := ht
  subscribers := rfl
  called m hm := by
    rcases List.mem_pair.mp hm with rfl | rfl <;> rfl
  settled m hm := by
    rcases List.mem_pair.mp hm with rfl | rfl
    · exact Notice.settled_of_store (d.session.target?_savedEvent _) rfl
    · exact ⟨fun _ _ => rfl, fun _ => rfl⟩
  content t _ hne := by
    refine ⟨_, List.mem_cons_self, ?_⟩
    rw [Session.target?_savedEvent]
    by_contra hother
    refine hne ?_
    have hfind : (d.session.save p).session.store.find? t = d.session.store.find? t :=
      (Store.find?_save ..).trans (if_neg fun ht => hother (congrArg some ht.symm))
    simp only [Session.content, hfind]
  tree _ := ⟨_, List.mem_cons_of_mem _ List.mem_cons_self, rfl⟩
  counted := .inr rfl

/-- A drop tells of the tree, and of the content of every target in sight. -/
lemma announced_dropAndRefresh (d : Desk MemoryHost) (source : Source) :
    Announced d { d with session := (d.session.dropAndRefresh d.host source).session }
      (d.session.dropAndRefresh d.host source).told where
  inSight _ ht := ht
  subscribers := rfl
  called _ hm := by rw [Reply.session_told hm]; rfl
  settled _ := Reply.settled_told
  content _ hsight _ :=
    Reply.exists_told_iff.mpr (Session.told_dropAndRefresh_iff.mpr (inSight_iff.mp hsight))
  tree _ := Reply.exists_told_iff (P := (· = .tree)) |>.mpr
    ⟨.tree, List.mem_append_left _ List.mem_cons_self, rfl⟩
  counted := .inr rfl

lemma announced_invalidate (d : Desk MemoryHost) (uri : String) :
    Announced d { d with session := (d.session.invalidate d.host uri).session }
      (d.session.invalidate d.host uri).told := by
  unfold Session.invalidate
  split
  · exact announced_of_same rfl rfl rfl fun _ ht => ht
  · exact announced_dropAndRefresh d _

/-! ### What selections bring into sight -/

lemma inSight_of_deliver {r : Report} {t : Target} (ht : (d.deliver r).host.InSight t) :
    d.host.InSight t :=
  ht.imp fun _ => view_of_deliver

lemma inSight_of_drainUpTo (n : Nat) {t : Target} :
    (drainUpTo n d).2.host.InSight t → d.host.InSight t :=
  drainUpTo_induction (P := fun d' => d'.host.InSight t → d.host.InSight t)
    (fun d' _ rest h _ ht =>
      h ((sameDocuments_withReports d' rest).inSight (inSight_of_deliver ht)))
    n id

section Command

variable (s : Source) (e : EditorId) (selections : List Selection) {p : Progress MemoryHost}
  {view : VisibleEditor} {t : Target}

/-- A command opens no other view than the one that it comes to. -/
lemma inSight_of_command (ht : (p.step s e selections false view).desk.host.InSight t) :
    p.desk.host.InSight t ∨ view.uri = t.uri := by
  rcases Progress.step_cases s e selections false p view with
    ⟨-, hstep⟩ | ⟨u, -, ⟨hfalse, -, -⟩ | ⟨-, -, hstep⟩ | ⟨-, mapped, -, -, hstep⟩⟩
  · exact .inl (hstep ▸ ht)
  · cases hfalse
  · exact .inl (hstep ▸ ht)
  · rw [hstep, if_neg Bool.false_ne_true] at ht
    obtain ⟨e', hshown⟩ :=
      (Progress.sameDocuments_write (p.focus view) u view mapped).inSight ht
    have hfocus : Showed view.uri p.desk (p.focus view).desk := showed_display _ _ _ _
    rcases hfocus.opened e' with hsame | ⟨-, hnew⟩
    · exact .inl ⟨e', (shown_congr hsame).symm.trans hshown⟩
    · exact .inr (Option.some.inj (hnew.symm.trans (shown_eq_view_iff.mp hshown)))

lemma inSight_of_commands (views : List VisibleEditor)
    (ht : (views.foldl (Progress.step s e selections false) p).desk.host.InSight t) :
    p.desk.host.InSight t ∨ ∃ view ∈ views, view.uri = t.uri := by
  induction views generalizing p with
  | nil => exact .inl ht
  | cons view views ih =>
    rcases ih ht with ht | ⟨v, hv, huri⟩
    · exact (inSight_of_command s e selections ht).imp_right fun huri =>
        ⟨view, List.mem_cons_self, huri⟩
    · exact .inr ⟨v, List.mem_cons_of_mem _ hv, huri⟩

end Command

lemma inSight_of_selectLinked {t : Target} (ht : d.selectLinked.2.host.InSight t) :
    d.host.InSight t := by
  unfold selectLinked at ht
  split at ht
  · exact ht
  · split at ht
    · exact ht
    · rcases inSight_of_commands _ _ _ (Host.visible d.host) ht with ht | ⟨v, hv, huri⟩
      · exact ht
      · exact inSight_iff.mpr ⟨v, hv, Target.parse_eq_ok_iff.mpr huri⟩

/-! ### Runs -/

/-- What happens to products, settings and selections. -/
inductive Occurrence where
  | save (product : Product)
  | drop (source : Source)
  | documentClosed (uri : String)
  | documentSaved (uri : String)
  | documentEdited (uri : String)
  | setSettings (settings : Settings)
  | select (editor : EditorId) (selections : List Selection)
  /-- A report reaches the session, be it one that was queued or any other. -/
  | report (report : Report)
  /-- Queued reports are delivered, at most so many. -/
  | deliver (most : Nat)
  | selectLinked

/-- The desk after an occurrence, and what it tells. -/
def occur (d : Desk MemoryHost) : Occurrence → Desk MemoryHost × List Notice
  | .save p => ({ d with session := (d.session.save p).session }, d.session.toldBySave p)
  | .drop source => heard d (d.session.dropAndRefresh d.host source)
  | .documentClosed uri => heard d (d.session.documentClosed d.host uri)
  | .documentSaved uri => heard d (d.session.documentSaved d.host uri)
  | .documentEdited uri => heard d (d.session.documentEdited d.host uri)
  | .setSettings settings => ({ d with session := d.session.setSettings settings }, [])
  | .select e selections => (d.select e selections, [])
  | .report r => (d.deliver r, [])
  | .deliver most => ((drainUpTo most d).2, [])
  | .selectLinked => (d.selectLinked.2, [])
where
  heard (d : Desk MemoryHost) (r : Reply (List Target)) : Desk MemoryHost × List Notice :=
    ({ d with session := r.session }, r.told)

/-- **Whatever happens is announced.** -/
theorem announced_occur (d : Desk MemoryHost) (o : Occurrence) :
    Announced d (d.occur o).1 (d.occur o).2 := by
  cases o with
  | save p => exact announced_save d p
  | drop source => exact announced_dropAndRefresh d source
  | documentClosed uri => exact announced_invalidate d uri
  | documentSaved uri => exact announced_invalidate d uri
  | documentEdited uri =>
    simp only [occur, Session.documentEdited]
    split
    · exact announced_invalidate d uri
    · exact announced_of_same rfl rfl rfl fun _ ht => ht
  | setSettings settings => exact announced_of_same rfl rfl rfl fun _ ht => ht
  | select e selections =>
    exact announced_of_same rfl rfl rfl fun _ =>
      (sameDocuments_select d.host e selections).inSight
  | report r => exact announced_of_undisturbed (undisturbed_deliver d r) fun _ => inSight_of_deliver
  | deliver most =>
    exact announced_of_undisturbed (undisturbed_drainUpTo most d) fun _ =>
      inSight_of_drainUpTo most
  | selectLinked =>
    exact announced_of_undisturbed (undisturbed_selectLinked d) fun _ => inSight_of_selectLinked

/-- The desk, and a renderer that hears of what happens there. -/
def watch (atOnce : Bool) (n : Nat) (w : Desk MemoryHost × Renderer) (o : Occurrence) :
    Desk MemoryHost × Renderer :=
  let (d, told) := w.1.occur o
  (d, w.2.follow atOnce n told d.session)

lemma upToDate_watch (atOnce : Bool) {n : Nat} {w : Desk MemoryHost × Renderer}
    (hn : n < w.1.session.subscribers) (h : w.2.UpToDate w.1) (o : Occurrence) :
    let w' := watch atOnce n w o
    n < w'.1.session.subscribers ∧ w'.2.UpToDate w'.1 := by
  have ha := announced_occur w.1 o
  exact ⟨ha.subscribers ▸ hn, ha.upToDate h atOnce hn⟩

/-- What changes products, tree or contents is counted. -/
lemma Announced.version_lt (ha : Announced d d' told)
    (hchange : d'.session.store ≠ d.session.store ∨ d'.session.tree ≠ d.session.tree ∨
      ∃ t, d'.session.content t ≠ d.session.content t)
    (hroom : d.session.version.toNat + 1 < UInt64.size) :
    d.session.version < d'.session.version := by
  rcases ha.counted with ⟨hstore, htree⟩ | hversion
  · rcases hchange with hne | hne | ⟨t, hne⟩
    · exact absurd hstore hne
    · exact absurd htree hne
    · exact absurd (Session.content_congr hstore t) hne
  · have hnext := Word.toNat_next d.session.version
    rw [UInt64.lt_iff_toNat_lt, hversion]
    omega

/-- **Renderers miss no change**: a subscriber that is up to date, and fetches again what it is
told of, is up to date after every run, whether it fetches at once or when each operation is
over. And whatever changes the products, the tree or a content counts up the version. -/
theorem upToDate_run (atOnce : Bool) {n : Nat} {d : Desk MemoryHost} {r : Renderer}
    (hn : n < d.session.subscribers) (h : r.UpToDate d) (occurrences : List Occurrence) :
    let w := occurrences.foldl (watch atOnce n) (d, r)
    w.2.UpToDate w.1 ∧
      ∀ o, let s := w.1.session
        let s' := (w.1.occur o).1.session
        (s'.store ≠ s.store ∨ s'.tree ≠ s.tree ∨ ∃ t, s'.content t ≠ s.content t) →
          s.version.toNat + 1 < UInt64.size → s.version < s'.version := by
  have hrun : ∀ w : Desk MemoryHost × Renderer, n < w.1.session.subscribers → w.2.UpToDate w.1 →
      (occurrences.foldl (watch atOnce n) w).2.UpToDate
        (occurrences.foldl (watch atOnce n) w).1 := by
    induction occurrences with
    | nil => exact fun _ _ h => h
    | cons o occurrences ih =>
      intro w hn h
      obtain ⟨hn', h'⟩ := upToDate_watch atOnce hn h o
      exact ih _ hn' h'
  exact ⟨hrun (d, r) hn h, fun o => (announced_occur _ o).version_lt⟩

/-- A session with a subscriber, and a view in sight beside its document. -/
def attended : Desk MemoryHost :=
  ⟨(Session.new .initial).subscribe,
    ((MemoryHost.empty.openEditor "monto:/a.c|ast.t" ⟨2⟩).2.openEditor "file:///a.c" ⟨1⟩).2⟩

/-- The text in view comes in two parts, and a graphic of the same document with it. -/
def streamed : List Desk.Occurrence :=
  [.save (.plain "/a.c" "ast" "t" "1"), .save (.plain "/a.c" "cfg" "svg" "<svg/>"),
    .select ⟨1⟩ [.caret ⟨0, 0⟩], .deliver 9, .selectLinked, .setSettings ⟨true, []⟩,
    .save { Product.plain "/a.c" "ast" "t" "2" with continues := true }]

/-- The renderer of the view has both parts of the text, and the edit of the document, which
drops the products, is counted. -/
theorem upToDate_run_attended :
    let t : Target := .of (.parse "/a.c") "ast" "t"
    let r : Renderer := ⟨SortedMap.empty.insert t " ", .empty⟩
    let w := streamed.foldl (watch false 0) (attended, r)
    let s' := (w.1.occur (.documentEdited "file:///a.c")).1.session
    (0 < attended.session.subscribers ∧ r.UpToDate attended) ∧
      (w.2.UpToDate w.1 ∧ w.2.contents.get? t = some "12") ∧
      (w.1.session.version < s'.version ∧ s'.content t = " ") := by
  intro t r w s'
  have hviews : ∀ v ∈ Host.visible attended.host, ∀ u ∈ (Target.parse v.uri).toOption,
      r.contents.get? u = some (attended.session.content u) := by
    decide
  have hup : r.UpToDate attended :=
    ⟨fun v hv u hparse => hviews v hv u (by rw [hparse]; rfl), rfl⟩
  have hsubscribed : 0 < attended.session.subscribers := by decide
  obtain ⟨hend, hcounted⟩ := upToDate_run false hsubscribed hup streamed
  have hdropped : s'.content t ≠ w.1.session.content t := by decide
  exact ⟨⟨hsubscribed, hup⟩, ⟨hend, by decide⟩,
    hcounted _ (.inr (.inr ⟨t, hdropped⟩)) (by decide), by decide⟩

end Desk

end LinkedViews
