import LinkedViews.Proofs.Desk.Accounting
import LinkedViews.Proofs.Desk.Forward
import LinkedViews.Proofs.Desk.Outcome
import LinkedViews.Proofs.Desk.Queue

/-!
Echoes and what the user does, told apart.

A latch counts the reports that it awaits, and does not know them one from another. So a
selection of the user that was queued before the session wrote may be taken for the echo of
the write, and the echo for a selection of the user. Here each report is followed from the
one who had it queued to what came of it. A selection of the user is taken for an echo only
while an echo is on the way, and for each such selection one echo at most is not taken for
one.
-/

namespace LinkedViews

open Function MemoryHost

/-! ### Runs under watch -/

/-- Who had a report queued. -/
inductive Origin where
  /-- The user selected. -/
  | user
  /-- The session wrote selections. -/
  | session
  deriving DecidableEq

/-- A report that was delivered. -/
structure Delivered where
  origin : Origin
  shown : Shown
  outcome : Option Outcome
  deriving DecidableEq

/-- A desk of which it is known who had its reports queued, and what came of them. -/
structure Watched where
  desk : Desk MemoryHost
  /-- Who had the queued reports queued, in the order of the queue. -/
  origins : List Origin
  /-- What was delivered so far, the first report first. -/
  log : List Delivered

inductive Move where
  | select (editor : EditorId) (selections : List Selection)
  /-- The first report is delivered. -/
  | deliver

namespace Watched

def start (d : Desk MemoryHost) : Watched := ⟨d, [], []⟩

def play (w : Watched) : Move → Watched
  | .select e selections =>
    if w.desk.host.editors.contains e then
      { w with desk := w.desk.select e selections, origins := w.origins ++ [.user] }
    else w
  | .deliver =>
    match w.desk.host.reports, w.origins with
    | r :: rest, origin :: origins =>
      let d := w.desk.withReports rest
      -- all that a delivery adds to the queue is the session's
      let queued := (d.deliver r).host.reports.length - rest.length
      { desk := d.deliver r
        origins := origins ++ List.replicate queued .session
        log := w.log ++ [⟨origin, d.host.shown r.editor, d.outcome? r⟩] }
    | _, _ => w

def plays (w : Watched) (moves : List Move) : Watched := moves.foldl play w

/-- How many selections of the user in views of a target were taken for echoes. -/
def swallowed (w : Watched) (t : Target) : Nat :=
  w.log.countP fun x => x.origin = .user ∧ x.shown = .view t ∧ x.outcome = some .echo

/-- How many echoes of views of a target were not taken for echoes. -/
def escaped (w : Watched) (t : Target) : Nat :=
  w.log.countP fun x => x.origin = .session ∧ x.shown = .view t ∧ x.outcome ≠ some .echo

/-! ### Reports of the session -/

/-- The reports that the session had queued. -/
def sessionReports (origins : List Origin) (reports : List Report) : List Report :=
  ((origins.zip reports).filter fun x => x.1 = .session).map (·.2)

lemma sessionReports_append {origins origins' : List Origin} {reports reports' : List Report}
    (h : origins.length = reports.length) :
    sessionReports (origins ++ origins') (reports ++ reports') =
      sessionReports origins reports ++ sessionReports origins' reports' := by
  rw [sessionReports, List.zip_append h, List.filter_append, List.map_append]; rfl

lemma sessionReports_replicate (reports : List Report) :
    sessionReports (List.replicate reports.length .session) reports = reports := by
  induction reports with
  | nil => rfl
  | cons r reports ih => exact congrArg (r :: ·) ih

lemma mem_sessionReports {origins : List Origin} {reports : List Report} {r : Report} :
    r ∈ sessionReports origins reports ↔ (Origin.session, r) ∈ origins.zip reports := by
  simp only [sessionReports, List.mem_map, List.mem_filter, decide_eq_true_eq]
  constructor
  · rintro ⟨⟨origin, r⟩, ⟨hmem, rfl⟩, rfl⟩
    exact hmem
  · intro hmem
    exact ⟨_, ⟨hmem, rfl⟩, rfl⟩

/-- The desk without the reports that the user had queued. -/
def echoing (w : Watched) : Desk MemoryHost :=
  w.desk.withReports (sessionReports w.origins w.desk.host.reports)

end Watched

/-! ### Deliveries into any queue -/

namespace Desk

lemma outcome?_withReports (d : Desk MemoryHost) (r : Report) (first second : List Report) :
    (d.withReports first).outcome? r = (d.withReports second).outcome? r := by
  have hnone : ∀ first, (d.withReports first).outcome? r = (d.withReports []).outcome? r := by
    intro first
    rw [← behind_withReports, outcome?, selectionReported_behind, outcome?]
    cases (d.withReports []).selectionReported r.editor r.selections <;> rfl
  rw [hnone, hnone second]

end Desk

namespace Watched

variable {w : Watched} {r : Report} {rest : List Report} {origin : Origin} {origins : List Origin}

/-! ### The account of a run -/

/-- The echoes that are awaited are on the way, and those of a target's views are exactly as
many as the reports that the session queued for them, once the mistakes are set right. -/
structure Accounted (w : Watched) : Prop where
  aligned : w.origins.length = w.desk.host.reports.length
  ledger : Desk.Ledger (fun _ => 0) (fun _ => 0) w.echoing
  exact : ∀ t, w.desk.session.viewEchoes t + w.swallowed t =
    w.echoing.queue.count (.view t) + w.escaped t

lemma accounted_start {d : Desk MemoryHost} (hissued : d.host.Issued)
    (hquiet : d.host.reports = [])
    (hidle : ∀ t, ¬ (d.session.latchesOf t).view.isArmed ∧
      ¬ (d.session.latchesOf t).source.isArmed) : Accounted (start d) := by
  obtain ⟨hview, hsource⟩ := Session.idle_iff.mp hidle
  have hechoing : (start d).echoing = d.withReports [] := rfl
  refine ⟨by rw [start, hquiet]; rfl, ?_, fun t => ?_⟩
  · rw [hechoing]
    exact
      { issued := hissued.of_subset rfl (fun _ he => he) (List.nil_subset _)
        view := fun t => Nat.le_trans (Nat.le_of_eq (hview t)) (Nat.zero_le _)
        source := fun t => Nat.le_trans (Nat.le_of_eq (hsource t)) (Nat.zero_le _)
        inSight := fun t hpos => absurd (hsource t) (Nat.ne_of_gt hpos) }
  · exact hview t

lemma play_deliver (hreports : w.desk.host.reports = r :: rest)
    (horigins : w.origins = origin :: origins) :
    w.play .deliver =
      { desk := (w.desk.withReports rest).deliver r
        origins := origins ++ List.replicate
          (((w.desk.withReports rest).deliver r).host.reports.length - rest.length) .session
        log := w.log ++ [⟨origin, w.desk.host.shown r.editor,
          (w.desk.withReports rest).outcome? r⟩] } := by
  rw [play, hreports, horigins]; rfl

lemma Accounted.select (h : Accounted w) (e : EditorId) (selections : List Selection) :
    Accounted (w.play (.select e selections)) := by
  by_cases hopen : w.desk.host.editors.contains e
  · have hplay : w.play (.select e selections) =
        ⟨w.desk.select e selections, w.origins ++ [.user], w.log⟩ := if_pos hopen
    have hreports : (w.desk.select e selections).host.reports =
        w.desk.host.reports ++ [⟨e, selections⟩] := reports_select selections hopen
    have hsession : sessionReports (w.origins ++ [.user])
        (w.desk.select e selections).host.reports =
          sessionReports w.origins w.desk.host.reports := by
      rw [hreports, sessionReports_append h.aligned]
      exact List.append_nil _
    have hechoing : (w.play (.select e selections)).echoing =
        (w.desk.select e selections).withReports
          (sessionReports w.origins w.desk.host.reports) := by
      rw [hplay]
      exact congrArg (w.desk.select e selections).withReports hsession
    have hselect := sameDocuments_select w.desk.host e selections
    have hsame : SameDocuments w.echoing.host (w.play (.select e selections)).echoing.host := by
      rw [hechoing]
      exact ⟨hselect.uri?, hselect.documents, hselect.nextEditor⟩
    have hqueue : (w.play (.select e selections)).echoing.host.reports =
        w.echoing.host.reports := by rw [hechoing]; rfl
    refine ⟨?_, ?_, fun t => ?_⟩
    · rw [hplay]
      simp only [hreports, List.length_append, h.aligned, List.length_singleton]
    · rw [hechoing] at hsame hqueue ⊢
      exact h.ledger.unqueued hsame hqueue (fun _ => Nat.le_refl _) fun _ => Nat.le_refl _
    · rw [Desk.queue_congr hqueue fun r _ => hsame.shown r.editor, hplay]
      exact h.exact t
  · have hplay : w.play (.select e selections) = w := if_neg hopen
    rwa [hplay]

/-- A delivery into the whole queue is one into the queue of the session's reports. -/
lemma echoing_deliver (haligned : w.origins.length = w.desk.host.reports.length)
    (hreports : w.desk.host.reports = r :: rest) (horigins : w.origins = origin :: origins) :
    (w.play .deliver).origins.length = (w.play .deliver).desk.host.reports.length ∧
      (w.play .deliver).echoing =
        (w.desk.withReports (sessionReports origins rest)).deliver r := by
  have hlength : origins.length = rest.length := by
    rw [hreports, horigins] at haligned
    exact Nat.succ.inj haligned
  have hdeliver : ∀ first, (w.desk.withReports first).deliver r =
      ((w.desk.withReports []).deliver r).behind first := fun first =>
    w.desk.deliver_withReports first r
  generalize (w.desk.withReports []).deliver r = done at hdeliver
  have hqueue : ((w.desk.withReports rest).deliver r).host.reports = rest ++ done.host.reports := by
    rw [hdeliver]; rfl
  have hqueued : (rest ++ done.host.reports).length - rest.length = done.host.reports.length := by
    rw [List.length_append, Nat.add_sub_cancel_left]
  rw [play_deliver hreports horigins]
  simp only [hqueue, hqueued]
  refine ⟨?_, ?_⟩
  · rw [List.length_append, List.length_append, List.length_replicate, hlength]
  · unfold echoing
    simp only [hqueue]
    rw [sessionReports_append hlength, sessionReports_replicate, hdeliver, hdeliver]; rfl

lemma swallowed_deliver (hreports : w.desk.host.reports = r :: rest)
    (horigins : w.origins = origin :: origins) (t : Target) :
    (w.play .deliver).swallowed t = w.swallowed t +
      if origin = .user ∧ w.desk.host.shown r.editor = .view t ∧
        (w.desk.withReports rest).outcome? r = some .echo then 1 else 0 := by
  rw [play_deliver hreports horigins, swallowed, List.countP_append, List.countP_singleton]
  simp only [decide_eq_true_eq]
  rfl

lemma escaped_deliver (hreports : w.desk.host.reports = r :: rest)
    (horigins : w.origins = origin :: origins) (t : Target) :
    (w.play .deliver).escaped t = w.escaped t +
      if origin = .session ∧ w.desk.host.shown r.editor = .view t ∧
        (w.desk.withReports rest).outcome? r ≠ some .echo then 1 else 0 := by
  rw [play_deliver hreports horigins, escaped, List.countP_append, List.countP_singleton]
  simp only [decide_eq_true_eq]
  rfl

/-- The queue of the session's reports is at least what the latches await, also without the
report that is delivered, but for what this one is owed to. -/
lemma Accounted.owed (h : Accounted w) (hreports : w.desk.host.reports = r :: rest)
    (horigins : w.origins = origin :: origins) :
    let d := w.desk.withReports (sessionReports origins rest)
    Desk.Ledger (fun t => if d.host.shown r.editor = .view t then 1 else 0)
      (fun t => if d.host.showsSource t.source r.editor then 1 else 0) d := by
  have hledger := h.ledger
  have hechoing : w.echoing =
      w.desk.withReports (sessionReports (origin :: origins) (r :: rest)) := by
    rw [echoing, hreports, horigins]
  rw [hechoing] at hledger
  cases origin with
  | user => exact hledger.mono (fun _ _ => Nat.zero_le _) fun _ _ => Nat.zero_le _
  | session => exact hledger.dequeued rfl

lemma queue_echoing (hreports : w.desk.host.reports = r :: rest)
    (horigins : w.origins = origin :: origins) (t : Target) :
    w.echoing.queue.count (.view t) =
      (w.desk.withReports (sessionReports origins rest)).queue.count (.view t) +
        if origin = .session ∧ w.desk.host.shown r.editor = .view t then 1 else 0 := by
  rw [echoing, hreports, horigins]
  cases origin with
  | user => rfl
  | session =>
    have hcons : (w.desk.withReports (sessionReports (.session :: origins) (r :: rest))).queue =
        w.desk.host.shown r.editor ::
          (w.desk.withReports (sessionReports origins rest)).queue := rfl
    rw [hcons, List.count_cons]
    simp only [beq_iff_eq, true_and]

lemma Accounted.deliver (h : Accounted w) (hreports : w.desk.host.reports = r :: rest)
    (horigins : w.origins = origin :: origins)
    (hroom : w.desk.session.RoomFor w.desk.host.viewCount)
    (hl : (w.play .deliver).desk.host.Lasting) : Accounted (w.play .deliver) := by
  obtain ⟨haligned, hechoing⟩ := echoing_deliver h.aligned hreports horigins
  have howed := h.owed hreports horigins
  let d := w.desk.withReports (sessionReports origins rest)
  have hbehind : ∀ first, (w.desk.withReports first).deliver r =
      ((w.desk.withReports []).deliver r).behind first := fun first =>
    w.desk.deliver_withReports first r
  have hplay : (w.play .deliver).desk = (w.desk.withReports rest).deliver r := by
    rw [play_deliver hreports horigins]
  have hsession : (w.play .deliver).desk.session = (d.deliver r).session := by
    rw [hplay, hbehind rest, hbehind (sessionReports origins rest)]; rfl
  have hlast : (d.deliver r).host.Lasting := by
    rw [hplay, hbehind rest] at hl
    rw [hbehind (sessionReports origins rest)]
    exact hl
  refine ⟨haligned, ?_, fun t => ?_⟩
  · rw [hechoing]
    exact howed.settled hlast
  · have hexact := h.exact t
    have hcount := Desk.viewEchoes_deliver (d := d) howed.issued hroom r t
    have hshown : d.host.shown r.editor = w.desk.host.shown r.editor := rfl
    have hviewEchoes : d.session.viewEchoes t = w.desk.session.viewEchoes t := rfl
    have houtcome : (w.desk.withReports rest).outcome? r = d.outcome? r :=
      w.desk.outcome?_withReports r rest _
    have hdone : (w.play .deliver).echoing.queue = (d.deliver r).queue :=
      congrArg Desk.queue hechoing
    have hqueue := queue_echoing hreports horigins t
    have hhead : (w.desk.withReports (sessionReports origins rest)).queue = d.queue := rfl
    rw [hshown, hviewEchoes] at hcount
    rw [hhead] at hqueue
    rw [hsession, hdone, swallowed_deliver hreports horigins, escaped_deliver hreports horigins,
      houtcome]
    cases origin <;> by_cases hmine : w.desk.host.shown r.editor = .view t <;>
      by_cases hecho : d.outcome? r = some .echo <;>
      simp only [hmine, hecho, reduceCtorEq, ne_eq, not_true, not_false_iff, and_self, and_true,
        and_false, if_true, if_false] at hcount hqueue ⊢ <;>
      omega

/-! ### Runs -/

variable {n views : Nat}

lemma nextEditor_le_play (w : Watched) (m : Move) :
    w.desk.host.nextEditor.number ≤ (w.play m).desk.host.nextEditor.number := by
  unfold play
  cases m with
  | select e selections =>
    simp only
    split
    · exact UInt64.le_of_eq
        (congrArg EditorId.number (sameDocuments_select w.desk.host e selections).nextEditor.symm)
    · exact UInt64.le_refl _
  | deliver =>
    simp only
    split
    · rename_i r rest _ _ _ _
      exact Desk.nextEditor_le_deliver (w.desk.withReports rest) r
    · exact UInt64.le_refl _

lemma nextEditor_le_plays (moves : List Move) (w : Watched) :
    w.desk.host.nextEditor.number ≤ (w.plays moves).desk.host.nextEditor.number := by
  induction moves generalizing w with
  | nil => exact UInt64.le_refl _
  | cons m moves ih => exact UInt64.le_trans (nextEditor_le_play w m) (ih (w.play m))

/-- Every move keeps the account, brings no other view into sight, and uses up room for one
write to each view at most. -/
lemma Accounted.play (h : Accounted w) (m : Move)
    (hroom : w.desk.session.RoomFor (n + views)) (hviews : w.desk.host.viewCount ≤ views)
    (hl : (w.play m).desk.host.Lasting) :
    Accounted (w.play m) ∧ (w.play m).desk.session.RoomFor n ∧
      (w.play m).desk.host.viewCount ≤ views := by
  have hkeep : w.desk.session.RoomFor n := hroom.mono (Nat.le_add_right _ _)
  cases m with
  | select e selections =>
    refine ⟨h.select e selections, ?_⟩
    by_cases hopen : w.desk.host.editors.contains e
    · have hplay : w.play (.select e selections) =
          ⟨w.desk.select e selections, w.origins ++ [.user], w.log⟩ := if_pos hopen
      have hsame := sameDocuments_select w.desk.host e selections
      have hcount : (w.desk.select e selections).host.viewCount ≤ w.desk.host.viewCount :=
        viewCount_le fun e t ht => (hsame.shown e).symm.trans ht
      rw [hplay]
      exact ⟨hkeep, Nat.le_trans hcount hviews⟩
    · have hplay : w.play (.select e selections) = w := if_neg hopen
      rw [hplay]
      exact ⟨hkeep, hviews⟩
  | deliver =>
    rcases hreports : w.desk.host.reports with _ | ⟨r, rest⟩
    · have hplay : w.play .deliver = w := by rw [Watched.play, hreports]
      rw [hplay]
      exact ⟨h, hkeep, hviews⟩
    · obtain ⟨origin, origins, horigins⟩ : ∃ origin origins, w.origins = origin :: origins := by
        refine List.exists_cons_of_length_eq_add_one (n := rest.length) ?_
        rw [h.aligned, hreports, List.length_cons]
      refine ⟨h.deliver hreports horigins
        (hroom.mono (Nat.le_trans hviews (Nat.le_add_left _ _))) hl, ?_⟩
      have hroom' : (w.desk.withReports rest).session.RoomFor
          (n + (w.desk.withReports rest).host.viewCount) :=
        hroom.mono (Nat.add_le_add_left hviews n)
      rw [play_deliver hreports horigins]
      exact ⟨Desk.roomFor_deliver hroom' r,
        Nat.le_trans (Desk.viewCount_deliver_le (w.desk.withReports rest) r) hviews⟩

lemma accounted_plays (moves : List Move) (h : Accounted w)
    (hroom : w.desk.session.RoomFor (moves.length * views))
    (hviews : w.desk.host.viewCount ≤ views) (hl : (w.plays moves).desk.host.Lasting) :
    Accounted (w.plays moves) := by
  induction moves generalizing w with
  | nil => exact h
  | cons m moves ih =>
    rw [List.length_cons, Nat.succ_mul] at hroom
    obtain ⟨hnext, hroom', hviews'⟩ := h.play m hroom hviews
      (hl.of_le (nextEditor_le_plays moves (w.play m)))
    exact ih hnext hroom' hviews' hl

/-- A selection of the user is taken for an echo only if one is queued behind it. -/
lemma Accounted.echo_behind (h : Accounted w) (hreports : w.desk.host.reports = r :: rest)
    (horigins : w.origins = .user :: origins)
    (hecho : (w.desk.withReports rest).outcome? r = some .echo) :
    ∃ r', (Origin.session, r') ∈ origins.zip rest ∧
      ((∃ t, w.desk.host.shown r.editor = .view t ∧ w.desk.host.shown r'.editor = .view t) ∨
        ∃ s, w.desk.host.showsSource s r.editor ∧ w.desk.host.showsSource s r'.editor) := by
  have hledger := h.ledger
  have hechoing : w.echoing = w.desk.withReports (sessionReports origins rest) := by
    rw [echoing, hreports, horigins]; rfl
  rw [hechoing] at hledger
  rcases Desk.armed_of_outcome?_eq_echo hecho with ⟨t, hshown, hpos⟩ | ⟨t, hshows, hpos⟩
  · have hcount := Nat.lt_of_lt_of_le hpos (hledger.view t)
    obtain ⟨r', hr', hview⟩ := List.mem_map.mp (List.count_pos_iff.mp hcount)
    exact ⟨r', mem_sessionReports.mp hr', .inl ⟨t, hshown, hview⟩⟩
  · have hcount := Nat.lt_of_lt_of_le hpos (hledger.source t)
    obtain ⟨r', hr', hsource⟩ := List.countP_pos_iff.mp hcount
    exact ⟨r', mem_sessionReports.mp hr', .inr ⟨t.source, hshows, hsource⟩⟩

lemma Accounted.escaped_le (h : Accounted w) (t : Target) : w.escaped t ≤ w.swallowed t := by
  have hexact := h.exact t
  have hview := h.ledger.view t
  have hsession : w.echoing.session = w.desk.session := rfl
  rw [hsession] at hview
  omega

/-- The latch awaits the echo of a view, unless another report was taken for it. -/
lemma Accounted.echo_of_view (h : Accounted w) {t : Target}
    (hreports : w.desk.host.reports = r :: rest) (horigins : w.origins = .session :: origins)
    (hshown : w.desk.host.shown r.editor = .view t) (hsettled : w.swallowed t = w.escaped t) :
    (w.desk.withReports rest).outcome? r = some .echo := by
  have hexact := h.exact t
  have hqueue := queue_echoing hreports horigins t
  rw [if_pos ⟨rfl, hshown⟩] at hqueue
  have hshown' : (w.desk.withReports rest).host.shown r.editor = .view t := hshown
  rw [Desk.outcome?_of_view hshown']
  refine congrArg some ((Desk.traceBack_fst_eq_echo_iff _ _ _ _).mpr ?_)
  have hsession : (w.desk.withReports rest).session = w.desk.session := rfl
  rw [hsession]
  omega

/-! ### Echoes and selections of the user -/

/-- **Echoes and selections of the user are told apart but for those that cross.** When the
first report is delivered, after any moves: a selection of the user is taken for an echo only
if an echo of a view of the same target, or of an editor of the same source, is queued behind
it; the echo of a view is taken for one, if as many echoes of the target's views were missed
before as selections of the user were taken for them. More echoes are never missed, and as
many when no report is left. All latches are idle at the start, and can count a write to each
view with every move; in the end there is still a number for another editor. -/
theorem told_apart {d : Desk MemoryHost} (moves : List Move) (hissued : d.host.Issued)
    (hquiet : d.host.reports = [])
    (hidle : ∀ t, ¬ (d.session.latchesOf t).view.isArmed ∧ ¬ (d.session.latchesOf t).source.isArmed)
    (hroom : d.session.RoomFor (moves.length * d.host.viewCount))
    (hl : ((start d).plays moves).desk.host.Lasting) :
    let w := (start d).plays moves
    (∀ r rest origins, w.desk.host.reports = r :: rest → w.origins = .user :: origins →
      (w.desk.withReports rest).outcome? r = some .echo →
      ∃ r', (Origin.session, r') ∈ origins.zip rest ∧
        ((∃ t, w.desk.host.shown r.editor = .view t ∧ w.desk.host.shown r'.editor = .view t) ∨
          ∃ s, w.desk.host.showsSource s r.editor ∧ w.desk.host.showsSource s r'.editor)) ∧
    (∀ r rest origins t, w.desk.host.reports = r :: rest → w.origins = .session :: origins →
      w.desk.host.shown r.editor = .view t → w.swallowed t = w.escaped t →
      (w.desk.withReports rest).outcome? r = some .echo) ∧
    (∀ t, w.escaped t ≤ w.swallowed t) ∧
    (w.desk.host.reports = [] → ∀ t, w.escaped t = w.swallowed t) := by
  intro w
  have h : Accounted w :=
    accounted_plays moves (accounted_start hissued hquiet hidle) hroom (Nat.le_refl _) hl
  refine ⟨fun _ _ _ => h.echo_behind, fun _ _ _ _ => h.echo_of_view, h.escaped_le,
    fun hempty t => ?_⟩
  have hexact := h.exact t
  have hechoing : w.echoing.queue = [] := by
    rw [echoing, hempty, sessionReports, List.zip_nil_right]; rfl
  have hle := h.escaped_le t
  rw [hechoing, List.count_nil] at hexact
  omega

/-- The user selects in the document and in its view, before any report is delivered. Then the
first report is. -/
def crossing : List Move :=
  [.select ⟨0⟩ [.caret ⟨1, 0⟩, .caret ⟨1, 0⟩], .select ⟨1⟩ [.caret ⟨1, 0⟩], .deliver]

/-- The selection in the view is now taken for an echo, and the echo is queued behind it. -/
theorem told_apart_crossing :
    (Desk.atRest.host.Issued ∧ Desk.atRest.host.reports = [] ∧
      (∀ t, ¬ (Desk.atRest.session.latchesOf t).view.isArmed ∧
        ¬ (Desk.atRest.session.latchesOf t).source.isArmed) ∧
      Desk.atRest.session.RoomFor (crossing.length * Desk.atRest.host.viewCount) ∧
      ((start Desk.atRest).plays crossing).desk.host.Lasting) ∧
    let w := (start Desk.atRest).plays crossing
    w.origins = [.user, .session] ∧
    w.desk.host.reports = [⟨⟨1⟩, [.caret ⟨1, 0⟩]⟩, ⟨⟨1⟩, [.caret ⟨0, 0⟩, .caret ⟨0, 0⟩]⟩] ∧
    (∃ r', (Origin.session, r') ∈
        [Origin.session].zip [(⟨⟨1⟩, [.caret ⟨0, 0⟩, .caret ⟨0, 0⟩]⟩ : Report)] ∧
      ((∃ t, w.desk.host.shown ⟨1⟩ = .view t ∧ w.desk.host.shown r'.editor = .view t) ∨
        ∃ s, w.desk.host.showsSource s ⟨1⟩ ∧ w.desk.host.showsSource s r'.editor)) ∧
    ∀ t, w.escaped t ≤ w.swallowed t := by
  have hroom : Desk.atRest.session.RoomFor (crossing.length * Desk.atRest.host.viewCount) :=
    Session.roomFor_new _ (by decide)
  have hl : ((start Desk.atRest).plays crossing).desk.host.Lasting := by decide
  have horigins : ((start Desk.atRest).plays crossing).origins = [.user, .session] := by decide
  have hreports : ((start Desk.atRest).plays crossing).desk.host.reports =
      [⟨⟨1⟩, [.caret ⟨1, 0⟩]⟩, ⟨⟨1⟩, [.caret ⟨0, 0⟩, .caret ⟨0, 0⟩]⟩] := by decide
  obtain ⟨huser, -, hle, -⟩ := told_apart crossing issued_pair rfl Desk.idle_atRest hroom hl
  exact ⟨⟨issued_pair, rfl, Desk.idle_atRest, hroom, hl⟩, horigins, hreports,
    huser _ _ _ hreports horigins (by decide), hle⟩

/-- In the end the selection of the user did not reach the document, and its echo did. -/
theorem crossed :
    (Desk.atRest.host.reports = [] ∧
      ∀ t, ¬ (Desk.atRest.session.latchesOf t).view.isArmed ∧
        ¬ (Desk.atRest.session.latchesOf t).source.isArmed) ∧
    ((start Desk.atRest).plays (crossing ++ [.deliver, .deliver])).log =
      [⟨.user, .document,
          some (.linked [⟨⟨1⟩, "monto:/a.c|ast.t", [.caret ⟨0, 0⟩, .caret ⟨0, 0⟩]⟩])⟩,
        ⟨.user, .view (.of (.parse "/a.c") "ast" "t"), some .echo⟩,
        ⟨.session, .view (.of (.parse "/a.c") "ast" "t"),
          some (.linked [⟨⟨0⟩, "file:///a.c", [.caret ⟨0, 0⟩, .caret ⟨0, 0⟩]⟩])⟩] :=
  ⟨⟨rfl, Desk.idle_atRest⟩, by decide⟩

end Watched

end LinkedViews
