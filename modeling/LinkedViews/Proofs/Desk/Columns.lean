import LinkedViews.Proofs.Desk.Focus
import LinkedViews.Proofs.Session.Identity

/-!
The column of a document.

A document has the column in which it was last seen, and one that was never seen has the column
of the role in which it was first looked up. Here all that bears on columns is written down, in
the order in which it happened: what was seen, what was looked up, and what any host was asked to
show. Whatever a session does is made up of such steps, and each document is shown in the column
that is recorded for it then.
-/

namespace LinkedViews

/-! ### Hosts with a log -/

/-- What a host is asked to bring into sight, and where. -/
inductive Request where
  | document (uri : String) (column : Column)
  | panel (title : String) (column : Column)
  deriving DecidableEq

/-- A host of which it is known what it was asked to show. -/
structure Logged (H : Type) where
  host : H
  requests : List Request

namespace Logged

variable {H : Type} [Host H]

instance : Host (Logged H) where
  visible l := Host.visible l.host
  active l := Host.active l.host
  uri? l := Host.uri? l.host
  selections l := Host.selections l.host
  offsetAt l := Host.offsetAt l.host
  positionAt l := Host.positionAt l.host
  display l uri mode :=
    let (editor, host) := Host.display l.host uri mode
    (editor, ⟨host, l.requests ++ [.document uri mode.column]⟩)
  write l e s :=
    let (reported, host) := Host.write l.host e s
    (reported, { l with host })
  scrollTo l e s := { l with host := Host.scrollTo l.host e s }
  newPanel l title column :=
    let (panel, host) := Host.newPanel l.host title column
    (panel, ⟨host, l.requests ++ [.panel title column]⟩)
  fillPanel l p content := { l with host := Host.fillPanel l.host p content }
  raisePanel l p := { l with host := Host.raisePanel l.host p }

/-- Writing selections is no request. -/
lemma keptByWrites_requests (requests : List Request) :
    Host.KeptByWrites fun l : Logged H => l.requests = requests where
  write _ _ _ hl := hl
  scrollTo _ _ _ hl := hl

end Logged

/-! ### What bears on columns -/

inductive Placing where
  /-- An editor in a column was seen. -/
  | seen (uri : String) (column : Column)
  /-- The column of a document was looked up. -/
  | sought (uri : String) (role : Role)
  /-- The host was asked to show a document. -/
  | shown (uri : String) (column : Column)
  /-- The host was asked for a panel for a graphic. -/
  | opened (t : Target) (column : Column)
  deriving DecidableEq

namespace Placing

def seenIn? (uri : String) : Placing → Option Column
  | .seen uri' column => if uri = uri' then some column else none
  | _ => none

def soughtAs? (uri : String) : Placing → Option Role
  | .sought uri' role => if uri = uri' then some role else none
  | _ => none

def request? : Placing → Option Request
  | .shown uri column => some (.document uri column)
  | .opened t column => some (.panel t.panelTitle column)
  | _ => none

/-- What was brought into sight, and where. -/
def broughtTo? : Placing → Option (String × Column)
  | .shown uri column => some (uri, column)
  | .opened t column => some (t.uri, column)
  | _ => none

/-- The column in which a document was last seen. -/
def lastSeen? (past : List Placing) (uri : String) : Option Column :=
  (past.filterMap (seenIn? uri)).getLast?

/-- The role in which a document was first looked up. -/
def firstRole? (past : List Placing) (uri : String) : Option Role :=
  (past.filterMap (soughtAs? uri)).head?

lemma lastSeen?_cons (placing : Placing) (past : List Placing) (uri : String) :
    lastSeen? (placing :: past) uri = (lastSeen? past uri).or (seenIn? uri placing) := by
  unfold lastSeen?
  cases hseen : seenIn? uri placing with
  | none => rw [List.filterMap_cons_none hseen, Option.or_none]
  | some column =>
    rw [List.filterMap_cons_some hseen, List.getLast?_cons]
    cases (past.filterMap (seenIn? uri)).getLast? <;> rfl

lemma firstRole?_cons (placing : Placing) (past : List Placing) (uri : String) :
    firstRole? (placing :: past) uri = (soughtAs? uri placing).or (firstRole? past uri) := by
  unfold firstRole?
  cases hsought : soughtAs? uri placing with
  | none => rw [List.filterMap_cons_none hsought, Option.none_or]
  | some role => rw [List.filterMap_cons_some hsought, List.head?_cons, Option.some_or]

end Placing

/-- What a session is told or asked. In between its host may change by itself. -/
inductive Turn (H : Type) where
  | editorsSeen (editors : List VisibleEditor)
  | openProduct (target : Target)
  | openDocument (uri : String)
  | report (editor : EditorId) (selections : List Selection)
  | selectLinked
  | save (product : Product)
  | drop (source : Source)
  | panelClosed (panel : PanelId)
  | hostChanged (change : H → H)

namespace Turn

variable {H : Type}

/-- The editors that a session is told of. -/
def editors : Turn H → List VisibleEditor
  | .editorsSeen editors => editors
  | _ => []

/-- The column in the last entry for a document that has one. -/
def lastColumn? (turns : List (Turn H)) (uri : String) : Option Column :=
  ((turns.flatMap editors).filterMap fun v => if uri = v.uri then v.column else none).getLast?

end Turn

namespace Desk

variable {H : Type} [Host H]

/-! ### Turns -/

/-- A new session, with a host that was asked for nothing yet. -/
def logged (settings : Settings) (h : H) : Desk (Logged H) := ⟨.new settings, ⟨h, []⟩⟩

def take (d : Desk (Logged H)) : Turn H → Desk (Logged H)
  | .editorsSeen editors => { d with session := d.session.editorsSeen editors }
  | .openProduct t => (d.openProduct t).2
  | .openDocument uri => (d.openDocument uri).2
  | .report e selections =>
    match d.selectionReported e selections with
    | .ok (_, d) => d
    | .error _ => d
  | .selectLinked => d.selectLinked.2
  | .save p => { d with session := (d.session.save p).session }
  | .drop source => { d with session := (d.session.drop source).session }
  | .panelClosed p => { d with session := (d.session.panelClosed p).2 }
  | .hostChanged change => { d with host := { d.host with host := change d.host.host } }

def takes (d : Desk (Logged H)) (turns : List (Turn H)) : Desk (Logged H) := turns.foldl take d

/-- A document is looked up, and shown where it belongs. -/
def showing (d : Desk (Logged H)) (uri : String) (role : Role) : List Placing :=
  [.sought uri role, .shown uri (d.session.place uri role).1]

/-- The source of a view is looked up and shown, and shown once more if it is written to. -/
def tracing (d : Desk (Logged H)) (e : EditorId) (t : Target) (selections : List Selection) :
    List Placing :=
  d.showing t.source.uri .source ++
    match (d.traceBack e t selections).1 with
    | .linked _ => [.shown t.source.uri (d.session.place t.source.uri .source).1]
    | _ => []

/-- What a turn has to do with columns. -/
def placings (d : Desk (Logged H)) : Turn H → List Placing
  | .editorsSeen editors => editors.filterMap fun v => v.column.map (.seen v.uri)
  | .openProduct t =>
    match d.session.store.find? t with
    | none => []
    | some p =>
      match p.kind with
      | .text => d.showing t.uri .product
      | .graphic =>
        .sought t.uri .product ::
          match d.session.placement.panel? t with
          | some _ => []
          | none => [.opened t (d.session.place t.uri .product).1]
  | .openDocument uri => d.showing uri (if isProductUri uri then .product else .source)
  | .report e selections =>
    match Host.uri? d.host e with
    | none => []
    | some uri =>
      match Target.parse uri with
      | .ok t => d.tracing e t selections
      | .error _ => []
  | .selectLinked => d.selectLinked.1.writes.flatMap fun w => d.showing w.uri .product
  | .save _ | .drop _ | .panelClosed _ | .hostChanged _ => []

def past : Desk (Logged H) → List (Turn H) → List Placing
  | _, [] => []
  | d, turn :: turns => d.placings turn ++ (d.take turn).past turns

/-- A document is seen where it is told to be in sight, and by no other turn. -/
lemma seenIn?_placings (d : Desk (Logged H)) (turn : Turn H) (uri : String) :
    (d.placings turn).filterMap (Placing.seenIn? uri) =
      turn.editors.filterMap fun v => if uri = v.uri then v.column else none := by
  cases turn with
  | editorsSeen editors =>
    refine (List.filterMap_filterMap ..).trans (List.filterMap_congr fun v _ => ?_)
    cases v.column with
    | none => exact (ite_self none).symm
    | some column => rfl
  | openProduct t =>
    simp only [placings]
    split
    · rfl
    · split
      · rfl
      · split <;> rfl
  | report e selections =>
    simp only [placings]
    split
    · rfl
    · split
      · unfold tracing
        split <;> rfl
      · rfl
  | selectLinked =>
    rw [placings, List.filterMap_flatMap]
    exact List.flatMap_eq_nil_iff.mpr fun _ _ => rfl
  | openDocument | save | drop | panelClosed | hostChanged => rfl

lemma lastSeen?_past (d : Desk (Logged H)) (turns : List (Turn H)) (uri : String) :
    Placing.lastSeen? (d.past turns) uri = Turn.lastColumn? turns uri := by
  have hall : (d.past turns).filterMap (Placing.seenIn? uri) =
      (turns.flatMap Turn.editors).filterMap fun v => if uri = v.uri then v.column else none := by
    induction turns generalizing d with
    | nil => rfl
    | cons turn turns ih =>
      rw [past, List.filterMap_append, seenIn?_placings, ih, List.flatMap_cons,
        List.filterMap_append]
  rw [Placing.lastSeen?, hall, Turn.lastColumn?]

/-! ### One thing after another -/

/-- One thing that bears on columns is done. A document is shown where it is recorded. -/
inductive Does : Desk (Logged H) → Placing → Desk (Logged H) → Prop
  | seen (d : Desk (Logged H)) (uri : String) (column : Column) :
      Does d (.seen uri column)
        { d with session := { d.session with
          placement := d.session.placement.record uri column } }
  | sought (d : Desk (Logged H)) (uri : String) (role : Role) :
      Does d (.sought uri role) ⟨(d.session.place uri role).2, d.host⟩
  | shown (d : Desk (Logged H)) (uri : String) (mode : DisplayMode)
      (recorded : d.session.placement.column? uri = some mode.column) :
      Does d (.shown uri mode.column) ⟨d.session, (Host.display d.host uri mode).2⟩
  | opened (d : Desk (Logged H)) (t : Target) (column : Column)
      (recorded : d.session.placement.column? t.uri = some column) :
      Does d (.opened t column)
        ⟨d.session.setPanel t (Host.newPanel d.host t.panelTitle column).1,
          (Host.newPanel d.host t.panelTitle column).2⟩

/-- What was seen counts, else what is recorded, and else the role. -/
lemma Does.column? {d d' : Desk (Logged H)} {placing : Placing} (does : Does d placing d')
    (uri : String) : d'.session.placement.column? uri =
      (placing.seenIn? uri).or ((d.session.placement.column? uri).or
        ((placing.soughtAs? uri).map Role.column)) := by
  cases does with
  | seen uri' column =>
    refine (SortedMap.get?_insert ..).trans ?_
    rw [Placing.seenIn?]
    split
    · rfl
    · exact (Option.or_none).symm
  | sought uri' role =>
    refine (Placement.column?_place_eq_or ..).trans ?_
    rw [Placing.soughtAs?]
    split <;> rfl
  | shown => exact (Option.or_none).symm
  | opened => exact (Option.or_none).symm

/-- All that bears on columns is done in this order, and besides it there may be what neither
touches them nor asks the host to show anything. -/
inductive Passes : Desk (Logged H) → List Placing → Desk (Logged H) → Prop
  | done (d : Desk (Logged H)) : Passes d [] d
  | aside {d d' d'' : Desk (Logged H)} {past : List Placing}
      (columns : d'.session.placement.columns = d.session.placement.columns)
      (requests : d'.host.requests = d.host.requests) (rest : Passes d' past d'') :
      Passes d past d''
  | next {d d' d'' : Desk (Logged H)} {placing : Placing} {past : List Placing}
      (does : Does d placing d') (rest : Passes d' past d'') : Passes d (placing :: past) d''

namespace Passes

variable {d d' d'' : Desk (Logged H)} {before after past : List Placing}

lemma of_same (columns : d'.session.placement.columns = d.session.placement.columns)
    (requests : d'.host.requests = d.host.requests) : Passes d [] d' :=
  .aside columns requests (.done d')

lemma one {placing : Placing} (does : Does d placing d') : Passes d [placing] d' :=
  .next does (.done d')

lemma trans (h : Passes d before d') (h' : Passes d' after d'') :
    Passes d (before ++ after) d'' := by
  induction h with
  | done => exact h'
  | aside columns requests _ ih => exact .aside columns requests (ih h')
  | next does _ ih => exact .next does (ih h')

/-- There is a desk at each moment on the way. -/
lemma split (h : Passes d (before ++ after) d'') :
    ∃ now, Passes d before now ∧ Passes now after d'' := by
  generalize hall : before ++ after = all at h
  induction h generalizing before with
  | done d =>
    obtain ⟨rfl, rfl⟩ := List.append_eq_nil_iff.mp hall
    exact ⟨d, .done d, .done d⟩
  | aside columns requests _ ih =>
    obtain ⟨now, hbefore, hafter⟩ := ih hall
    exact ⟨now, .aside columns requests hbefore, hafter⟩
  | @next d d' d'' placing past does hrest ih =>
    cases before with
    | nil =>
      rw [List.nil_append] at hall
      exact ⟨d, .done d, hall ▸ .next does hrest⟩
    | cons first before =>
      obtain ⟨rfl, hrest⟩ := List.cons.inj hall
      obtain ⟨now, hbefore, hafter⟩ := ih hrest
      exact ⟨now, .next does hbefore, hafter⟩

/-- What is brought into sight next has its column recorded. -/
lemma recorded {placing : Placing} {uri : String} {column : Column}
    (hbrought : placing.broughtTo? = some (uri, column)) (h : Passes d (placing :: after) d'') :
    d.session.placement.column? uri = some column := by
  generalize hall : placing :: after = all at h
  induction h with
  | done => cases hall
  | aside columns _ _ ih =>
    rw [Placement.column?, ← columns]
    exact ih hall
  | next does _ _ =>
    obtain ⟨rfl, -⟩ := List.cons.inj hall
    cases does with
    | seen => cases hbrought
    | sought => cases hbrought
    | shown uri mode hrecorded =>
      cases hbrought
      exact hrecorded
    | opened t column hrecorded =>
      cases hbrought
      exact hrecorded

/-- The log goes on with what was asked for. -/
lemma requests (h : Passes d past d') :
    d'.host.requests = d.host.requests ++ past.filterMap Placing.request? := by
  induction h with
  | done d => exact (List.append_nil _).symm
  | aside _ requests _ ih => rw [ih, requests]
  | next does _ ih =>
    rw [ih]
    cases does with
    | seen => rfl
    | sought => rfl
    | shown => exact List.append_assoc ..
    | opened => exact List.append_assoc ..

/-- Where a document is recorded after all that was done. -/
lemma column? (h : Passes d past d') (uri : String) :
    d'.session.placement.column? uri =
      (Placing.lastSeen? past uri).or ((d.session.placement.column? uri).or
        ((Placing.firstRole? past uri).map Role.column)) := by
  induction h with
  | done => exact Option.or_none.symm
  | aside columns _ _ ih => rw [ih, Placement.column?, columns, Placement.column?]
  | next does _ ih =>
    rw [ih, does.column?, Placing.lastSeen?_cons, Placing.firstRole?_cons, Option.map_or]
    simp only [Option.or_assoc]

end Passes

/-! ### What a turn does -/

variable (d : Desk (Logged H))

lemma passes_display (uri : String) (role : Role) (keepFocus : Bool) :
    Passes d (d.showing uri role) (d.display uri role keepFocus).2 :=
  .next (.sought d uri role) (.one (.shown ⟨(d.session.place uri role).2, d.host⟩ uri
    ⟨(d.session.place uri role).1, keepFocus, false⟩ (Placement.column?_place ..)))

/-- A document with a column is shown there in every role. -/
lemma passes_display_of_recorded {uri : String} {column : Column}
    (hc : d.session.placement.column? uri = some column) (role : Role) (keepFocus : Bool) :
    Passes d [.shown uri column] (d.display uri role keepFocus).2 := by
  simp only [display, Session.place_of_recorded hc]
  exact .one (.shown d uri ⟨column, keepFocus, false⟩ hc)

lemma passes_editorsSeen (editors : List VisibleEditor) :
    Passes d (editors.filterMap fun v => v.column.map (.seen v.uri))
      { d with session := d.session.editorsSeen editors } := by
  induction editors generalizing d with
  | nil => exact .done d
  | cons v editors ih =>
    obtain ⟨id, uri, column?⟩ := v
    cases column? with
    | none => exact ih d
    | some column => exact .next (.seen d uri column) (ih _)

lemma passes_openPanel (t : Target) (content : String) :
    Passes d
      (.sought t.uri .product ::
        match d.session.placement.panel? t with
        | some _ => []
        | none => [.opened t (d.session.place t.uri .product).1])
      (d.openPanel t content).2 := by
  refine .next (.sought d t.uri .product) ?_
  have hpanel : (d.session.place t.uri .product).2.placement.panel? t =
      d.session.placement.panel? t :=
    congrArg (fun panels => panels.get? t) (Session.panels_place ..)
  simp only [openPanel, panelOf, hpanel]
  cases d.session.placement.panel? t with
  | some panel => exact .of_same rfl rfl
  | none =>
    exact .next (.opened ⟨(d.session.place t.uri .product).2, d.host⟩ t
      (d.session.place t.uri .product).1 (Placement.column?_place ..)) (.of_same rfl rfl)

lemma passes_openProduct (t : Target) :
    Passes d (d.placings (.openProduct t)) (d.openProduct t).2 := by
  simp only [placings]
  cases hstored : d.session.store.find? t with
  | none =>
    rw [openProduct_of_none hstored]
    exact .done d
  | some p =>
    cases hkind : p.kind with
    | text =>
      rw [openProduct_of_text hstored hkind]
      simp only [hkind]
      exact passes_display d t.uri .product true
    | graphic =>
      rw [openProduct_of_graphic hstored hkind]
      simp only [hkind]
      exact passes_openPanel d t p.content

lemma passes_traceBack (e : EditorId) (t : Target) (selections : List Selection) :
    Passes d (d.tracing e t selections) (d.traceBack e t selections).2 := by
  have hshown := passes_display d t.source.uri .source true
  unfold tracing traceBack
  rcases hdisplay : d.display t.source.uri .source true with ⟨dest?, d₁⟩
  rw [hdisplay] at hshown
  have hplacement : d₁.session.placement = (d.session.placement.place t.source.uri .source).2 :=
    congrArg (fun shown => shown.2.session.placement) hdisplay.symm
  have hrecorded : d₁.session.placement.column? t.source.uri =
      some (d.session.place t.source.uri .source).1 :=
    hplacement ▸ Placement.column?_place ..
  cases dest? with
  | none => exact hshown.trans (.done _)
  | some dest =>
    by_cases harmed : (d₁.session.latchesOf t).view.isArmed
    · simp only [if_pos harmed]
      exact hshown.trans (.of_same rfl rfl)
    · simp only [if_neg harmed]
      rcases carried d₁.host (d₁.session.product t) .reverse e selections dest with _ | ⟨a, rest⟩
      · exact hshown.trans (.done _)
      · -- the source is shown once more, now with the focus
        have hagain := passes_display_of_recorded d₁ hrecorded .source false
        have hwritten := (Logged.keptByWrites_requests _).writeArmed
          (rfl : (d₁.display t.source.uri .source false).2.host.requests = _) dest
          (d₁.session.latchesOf t).source (a :: rest)
        exact hshown.trans (hagain.trans (.of_same rfl hwritten))

/-! ### From view to view -/

/-- What was done on the way from view to view: a report shows none of them, the command each
that it writes to. -/
structure Carrying (isReport : Bool) (p : Progress (Logged H)) : Prop where
  column : ∀ uri, (p.desk.session.place uri .product).1 = (d.session.place uri .product).1
  passes : Passes d (if isReport then [] else p.writes.flatMap fun w => d.showing w.uri .product)
    p.desk

variable {d} {isReport : Bool} {p : Progress (Logged H)}

lemma Carrying.write (hc : d.Carrying isReport p) (t : Target) (view : VisibleEditor)
    (mapped : List Selection) :
    d.Carrying isReport ((if isReport then p else p.focus view).write t view mapped) := by
  have hwritten (p : Progress (Logged H)) : Passes p.desk [] (p.write t view mapped).desk :=
    .of_same rfl ((Logged.keptByWrites_requests p.desk.host.requests).written rfl t view mapped)
  cases isReport with
  | true => exact ⟨hc.column, hc.passes.trans (hwritten p)⟩
  | false =>
    have hfocused := passes_display p.desk view.uri .product false
    -- the views shown before have left the column of this one as it was
    have hshowing : p.desk.showing view.uri .product = d.showing view.uri .product := by
      rw [showing, hc.column, showing]
    refine ⟨fun uri => ?_, ?_⟩
    · exact (Placement.place_place_fst _ view.uri uri .product).trans (hc.column uri)
    · have hwrites : ((p.focus view).write t view mapped).writes =
          p.writes ++ [⟨view.id, view.uri, mapped⟩] := rfl
      have hall := hc.passes.trans ((hshowing ▸ hfocused).trans (hwritten (p.focus view)))
      rw [if_neg Bool.false_ne_true, List.append_nil] at hall
      rw [if_neg Bool.false_ne_true, if_neg Bool.false_ne_true, hwrites, List.flatMap_append,
        List.flatMap_singleton]
      exact hall

lemma Carrying.step (hc : d.Carrying isReport p) (s : Source) (e : EditorId)
    (selections : List Selection) (view : VisibleEditor) :
    d.Carrying isReport (p.step s e selections isReport view) := by
  rcases Progress.step_cases s e selections isReport p view with
    ⟨-, hstep⟩ | ⟨t, -, ⟨-, -, hstep⟩ | ⟨-, -, hstep⟩ | ⟨-, mapped, -, -, hstep⟩⟩
  · rwa [hstep]
  · rw [hstep]
    have habsorbed : Passes p.desk [] (p.absorb t).desk := .of_same rfl rfl
    refine ⟨hc.column, ?_⟩
    rw [← List.append_nil (ite ..)]
    exact hc.passes.trans habsorbed
  · rwa [hstep]
  · rw [hstep]
    exact hc.write t view mapped

lemma passes_spread (d : Desk (Logged H)) (e : EditorId) (uri : String)
    (selections : List Selection) (isReport : Bool) :
    Passes d
      (if isReport then [] else
        (d.spread e uri selections isReport).1.writes.flatMap fun w => d.showing w.uri .product)
      (d.spread e uri selections isReport).2 := by
  have hstart : d.Carrying isReport ⟨d, [], false⟩ :=
    ⟨fun _ => rfl, by rw [List.flatMap_nil, ite_self]; exact .done d⟩
  have hall := List.foldlRecOn (Host.visible d.host) _ hstart fun p hc view _ =>
    hc.step (.parse uri) e selections view
  have hpasses := hall.passes
  rw [← Progress.writes_outcome] at hpasses
  exact hpasses

/-! ### Runs -/

lemma passes_report (d : Desk (Logged H)) (e : EditorId) (selections : List Selection) :
    Passes d (d.placings (.report e selections)) (d.take (.report e selections)) := by
  simp only [placings, take, selectionReported]
  cases Host.uri? d.host e with
  | none => exact .done d
  | some uri =>
    cases hrest : Text.rest? productScheme uri with
    | none =>
      simp only [isProductUri, Target.parse, hrest]
      exact passes_spread d e uri selections true
    | some name =>
      by_cases hbar : '|' ∈ name.toList
      · simp only [isProductUri, Target.parse, hrest, dif_pos hbar]
        exact passes_traceBack d e ⟨name, hbar⟩ selections
      · simp only [isProductUri, Target.parse, hrest, dif_neg hbar]
        exact .done d

lemma passes_selectLinked (d : Desk (Logged H)) :
    Passes d (d.placings .selectLinked) (d.take .selectLinked) := by
  simp only [placings, take, selectLinked]
  cases Host.active d.host with
  | none => exact .done d
  | some e =>
    cases huri : Host.uri? d.host e with
    | none =>
      simp only [huri]
      exact .done d
    | some uri =>
      simp only [huri]
      exact passes_spread d e uri (Host.selections d.host e) false

lemma passes_take (d : Desk (Logged H)) (turn : Turn H) :
    Passes d (d.placings turn) (d.take turn) := by
  cases turn with
  | editorsSeen editors => exact passes_editorsSeen d editors
  | openProduct t => exact passes_openProduct d t
  | openDocument uri => exact passes_display d uri _ true
  | report e selections => exact passes_report d e selections
  | selectLinked => exact passes_selectLinked d
  | save p => exact .of_same rfl rfl
  | drop source => exact .of_same rfl rfl
  | panelClosed p =>
    refine .of_same ?_ rfl
    simp only [take, Session.panelClosed, Placement.erasePanel]
    cases d.session.placement.shownIn? p <;> rfl
  | hostChanged change => exact .of_same rfl rfl

lemma passes_takes (d : Desk (Logged H)) (turns : List (Turn H)) :
    Passes d (d.past turns) (d.takes turns) := by
  induction turns generalizing d with
  | nil => exact .done d
  | cons turn turns ih => exact (passes_take d turn).trans (ih (d.take turn))

/-- **Columns stick**: after every run from a new session, a document has the column in which it
was last seen, else that of the role in which it was first looked up, else none. The host was
asked for nothing but what was brought into sight, and each time in the column that was recorded
for it at that moment. -/
theorem columns_stick (settings : Settings) (h : H) (turns : List (Turn H)) :
    (∀ uri, ((logged settings h).takes turns).session.placement.column? uri =
        (Turn.lastColumn? turns uri).or
          ((Placing.firstRole? ((logged settings h).past turns) uri).map Role.column)) ∧
      ((logged settings h).takes turns).host.requests =
        ((logged settings h).past turns).filterMap Placing.request? ∧
      ∀ before placing after uri column,
        (logged settings h).past turns = before ++ placing :: after →
        placing.broughtTo? = some (uri, column) →
        ∃ now, Passes (logged settings h) before now ∧
          Passes now (placing :: after) ((logged settings h).takes turns) ∧
          now.session.placement.column? uri = some column := by
  have hpasses := passes_takes (logged settings h) turns
  refine ⟨fun uri => ?_, ?_, fun before placing after uri column hpast hbrought => ?_⟩
  · rw [hpasses.column?, lastSeen?_past]
    rfl
  · exact hpasses.requests
  · obtain ⟨now, hbefore, hafter⟩ := (hpast ▸ hpasses).split
    exact ⟨now, hbefore, hafter, hafter.recorded hbrought⟩

/-- A view is moved, opened again where it was last seen, and traced back to its source; a graphic
gets its panel, and one editor of unknown column was in sight. -/
def settled : List (Turn MemoryHost) :=
  let text := Product.plain "/a.c" "ast" "t" "x"
  let graphic := Product.plain "/a.c" "cfg" "svg" "x"
  [.save text, .openProduct text.target,
    .editorsSeen [⟨⟨0⟩, text.target.uri, some ⟨3⟩⟩, ⟨⟨0⟩, text.target.uri, none⟩],
    .openDocument text.target.uri, .report ⟨0⟩ [.caret ⟨0, 0⟩],
    .save graphic, .openProduct graphic.target, .selectLinked]

/-- The view is shown in the third column at last, its source and the graphic where they belong. -/
theorem columns_stick_settled :
    (logged .initial MemoryHost.empty).past settled =
        ((logged .initial MemoryHost.empty).past settled).take 13 ++
          [.shown "monto:/a.c|ast.t" ⟨3⟩] ∧
      (∃ now, Passes (logged .initial MemoryHost.empty)
          (((logged .initial MemoryHost.empty).past settled).take 13) now ∧
        Passes now [.shown "monto:/a.c|ast.t" ⟨3⟩]
          ((logged .initial MemoryHost.empty).takes settled) ∧
        now.session.placement.column? "monto:/a.c|ast.t" = some ⟨3⟩) ∧
      ((logged .initial MemoryHost.empty).takes settled).host.requests =
        [.document "monto:/a.c|ast.t" ⟨2⟩, .document "monto:/a.c|ast.t" ⟨3⟩,
          .document "file:///a.c" ⟨1⟩, .document "file:///a.c" ⟨1⟩, .panel "a.c cfg.svg" ⟨2⟩,
          .document "monto:/a.c|ast.t" ⟨3⟩, .document "monto:/a.c|ast.t" ⟨3⟩] := by
  have hpast : (logged .initial MemoryHost.empty).past settled =
      ((logged .initial MemoryHost.empty).past settled).take 13 ++
        [.shown "monto:/a.c|ast.t" ⟨3⟩] := by decide +kernel
  obtain ⟨-, hrequests, hbrought⟩ := columns_stick .initial MemoryHost.empty settled
  refine ⟨hpast, hbrought _ _ _ _ _ hpast rfl, ?_⟩
  rw [hrequests]
  decide +kernel

end Desk

end LinkedViews
