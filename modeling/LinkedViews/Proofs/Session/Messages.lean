import Mathlib.Data.List.Forall2
import Mathlib.Tactic.Lemma
import LinkedViews.Message

/-!
What a stream of messages does to a session.

Only the messages that publish a product leave a trace: the session ends as if their products
alone had been saved, with the same events on the way.
-/

namespace LinkedViews

namespace Message

/-- The message is a notification of the given method. -/
structure Notifies (msg : Json) (method : String) : Prop where
  id : msg.member? "id" = none
  method : msg.member? "method" = some (.str method)

variable {msg : Json} {method : String} {p : Product}

lemma method?_eq_some_iff :
    method? msg = some method ↔ msg.member? "method" = some (.str method) := by
  rw [method?]
  cases msg.member? "method" with
  | none => simp
  | some v => cases v <;> simp [Json.str?]

lemma notifies_iff : Notifies msg method ↔
    (msg.member? "id").isNone ∧ method? msg = some method := by
  rw [Option.isNone_iff_eq_none, method?_eq_some_iff]
  exact ⟨fun h => ⟨h.id, h.method⟩, fun h => ⟨h.1, h.2⟩⟩

instance : Decidable (Notifies msg method) := decidable_of_iff' _ notifies_iff

lemma isPublication_iff : isPublication msg ↔ Notifies msg publishMethod := by
  rw [notifies_iff, isPublication, Bool.and_eq_true, decide_eq_true_eq]

/-- The product that a message publishes, if it does publish one. -/
def product? (msg : Json) : Option Product :=
  if Notifies msg publishMethod then
    (msg.member? "params").bind fun params => (Product.decode params).toOption
  else none

/-- What a message is answered with. -/
inductive Answered (msg : Json) : Except PublishError (Option Target) → Prop where
  /-- It has an id, or another method, or none. -/
  | passed (h : ¬ Notifies msg publishMethod) : Answered msg (.ok none)
  /-- It publishes a product. -/
  | stored {params : Json} {p : Product} (h : Notifies msg publishMethod)
    (hparams : msg.member? "params" = some params) (hp : Product.decode params = .ok p) :
    Answered msg (.ok (some p.target))
  /-- What it should publish is no product; without parameters, this is `null`. -/
  | rejected {cause : DecodeError} (h : Notifies msg publishMethod)
    (hcause : Product.decode ((msg.member? "params").getD .null) = .error cause) :
    Answered msg (.error (.invalidProduct cause))

lemma published_eq (h : Notifies msg publishMethod) :
    published msg = productOf ((msg.member? "params").getD .null) := by
  rw [published, method?_eq_some_iff.mpr h.method]
  exact if_pos rfl

lemma product?_eq_some_iff : product? msg = some p ↔ Notifies msg publishMethod ∧
    ∃ params, msg.member? "params" = some params ∧ Product.decode params = .ok p := by
  have htaken (params : Json) :
      (Product.decode params).toOption = some p ↔ Product.decode params = .ok p := by
    cases Product.decode params <;> simp [Except.toOption]
  simp only [product?, Option.ite_none_right_eq_some, Option.bind_eq_some_iff, htaken]

end Message

open Message

namespace Session

/-- Does one thing after another, with all the results and all the events. -/
def inTurn {α β : Type} (act : Session → α → Reply β) (s : Session) : List α → Reply (List β)
  | [] => ⟨[], s, []⟩
  | a :: rest =>
    let first := act s a
    let last := inTurn act first.session rest
    ⟨first.result :: last.result, last.session, first.events ++ last.events⟩

/-- Receives a message, of any kind: an error is the answer to it. -/
def answer (s : Session) (msg : Json) : Reply (Except PublishError (Option Target)) :=
  match s.receive msg with
  | .ok reply => ⟨.ok reply.result, reply.session, reply.events⟩
  | .error e => ⟨.error e, s, []⟩

variable {s : Session} {msg : Json} {p : Product}

lemma answer_of_product (h : product? msg = some p) :
    Answered msg (s.answer msg).result ∧ (s.answer msg).session = (s.save p).session ∧
      (s.answer msg).events = (s.save p).events := by
  obtain ⟨hmsg, params, hparams, hp⟩ := product?_eq_some_iff.mp h
  have hreceive : s.receive msg = .ok ⟨some p.target, (s.save p).session, (s.save p).events⟩ := by
    rw [receive, if_pos (isPublication_iff.mpr hmsg), published_eq hmsg, hparams,
      Option.getD_some, productOf, hp]
    rfl
  rw [answer, hreceive]
  exact ⟨.stored hmsg hparams hp, rfl, rfl⟩

lemma answer_of_none (h : product? msg = none) :
    Answered msg (s.answer msg).result ∧ (s.answer msg).session = s ∧
      (s.answer msg).events = [] := by
  by_cases hmsg : Notifies msg publishMethod
  · have hcause : ∃ cause, Product.decode ((msg.member? "params").getD .null) = .error cause := by
      cases hparams : msg.member? "params" with
      | none => exact ⟨_, rfl⟩
      | some params =>
        cases hp : Product.decode params with
        | error cause => exact ⟨cause, hp⟩
        | ok p => cases h.symm.trans (product?_eq_some_iff.mpr ⟨hmsg, params, hparams, hp⟩)
    obtain ⟨cause, hcause⟩ := hcause
    have hreceive : s.receive msg = .error (.invalidProduct cause) := by
      rw [receive, if_pos (isPublication_iff.mpr hmsg), published_eq hmsg, productOf, hcause]
      rfl
    rw [answer, hreceive]
    exact ⟨.rejected hmsg hcause, rfl, rfl⟩
  · have hreceive : s.receive msg = .ok ⟨none, s, []⟩ := by
      rw [receive, if_neg (isPublication_iff.not.mpr hmsg)]
    rw [answer, hreceive]
    exact ⟨.passed hmsg, rfl, rfl⟩

/-- **Messages that bring no product leave no trace.** After any stream of messages, the session
and the events are what the saving of the published products, and nothing else, makes of them.
A message that publishes a product is answered with the target of it, one that should and does
not with what is wrong with its parameters, and all others with nothing. -/
theorem messages_in_turn (s : Session) (msgs : List Json) :
    (s.inTurn answer msgs).session = (s.inTurn save (msgs.filterMap product?)).session ∧
    (s.inTurn answer msgs).events = (s.inTurn save (msgs.filterMap product?)).events ∧
    List.Forall₂ Answered msgs (s.inTurn answer msgs).result := by
  induction msgs generalizing s with
  | nil => exact ⟨rfl, rfl, .nil⟩
  | cons msg msgs ih =>
    cases h : product? msg with
    | none =>
      obtain ⟨hanswered, hsession, hevents⟩ := answer_of_none (s := s) h
      rw [List.filterMap_cons_none h]
      simp only [inTurn, hsession, hevents, List.nil_append]
      exact ⟨(ih s).1, (ih s).2.1, .cons hanswered (ih s).2.2⟩
    | some p =>
      obtain ⟨hanswered, hsession, hevents⟩ := answer_of_product (s := s) h
      rw [List.filterMap_cons_some h]
      simp only [inTurn, hsession, hevents]
      obtain ⟨hrest, hmore, hall⟩ := ih (s.save p).session
      exact ⟨hrest, by rw [hmore], .cons hanswered hall⟩

end Session

end LinkedViews
